import Mathlib.Data.List.Basic

/-! # Step machines and their runs

A machine is a partial step function on states, driven by a list of actions: the
action carries every choice the environment makes, so an interleaving is a list.
The rules below lift what one step preserves to what a whole run preserves, either
in every run or in every run whose steps meet a side condition. -/

namespace Agently.Lib

universe u v w

structure Machine (σ : Type u) (α : Type v) where
  step : σ → α → Option σ

namespace Machine

variable {σ : Type u} {α : Type v} (M : Machine σ α)

def run : σ → List α → Option σ
  | s, [] => some s
  | s, a :: rest => (M.step s a).bind fun t => run t rest

/-- Every step the run takes from `s` meets `C` in the state it is taken in. -/
def Meets (C : σ → α → Prop) : σ → List α → Prop
  | _, [] => True
  | s, a :: rest => C s a ∧ ∀ t, M.step s a = some t → Meets C t rest

@[simp] theorem run_nil (s : σ) : M.run s [] = some s := rfl

theorem run_cons (s : σ) (a : α) (rest : List α) :
    M.run s (a :: rest) = (M.step s a).bind fun t => M.run t rest := rfl

theorem run_cons_eq_some {s u : σ} {a : α} {rest : List α} :
    M.run s (a :: rest) = some u ↔ ∃ t, M.step s a = some t ∧ M.run t rest = some u := by
  rw [run_cons, Option.bind_eq_some_iff]

theorem run_append (s : σ) (xs ys : List α) :
    M.run s (xs ++ ys) = (M.run s xs).bind fun t => M.run t ys := by
  induction xs generalizing s with
  | nil => rfl
  | cons a xs ih =>
    rw [List.cons_append, run_cons, run_cons]
    cases h : M.step s a with
    | none => rfl
    | some t => exact ih t

theorem meets_and {C D : σ → α → Prop} {s : σ} {as : List α} (hc : M.Meets C s as)
    (hd : M.Meets D s as) : M.Meets (fun s a => C s a ∧ D s a) s as := by
  induction as generalizing s with
  | nil => trivial
  | cons a as ih => exact ⟨⟨hc.1, hd.1⟩, fun t ht => ih (hc.2 t ht) (hd.2 t ht)⟩

theorem meets_mono {C D : σ → α → Prop} (h : ∀ s a, C s a → D s a) {s : σ} {as : List α}
    (hm : M.Meets C s as) : M.Meets D s as := by
  induction as generalizing s with
  | nil => trivial
  | cons a as ih => exact ⟨h s a hm.1, fun t ht => ih (hm.2 t ht)⟩

theorem run_invariant_meeting {C : σ → α → Prop} {I : σ → Prop}
    (hstep : ∀ s a t, I s → C s a → M.step s a = some t → I t)
    {s t : σ} {as : List α} (hs : I s) (hm : M.Meets C s as) (hr : M.run s as = some t) :
    I t := by
  induction as generalizing s with
  | nil =>
    have he : s = t := Option.some.inj hr
    exact he ▸ hs
  | cons a as ih =>
    obtain ⟨u, hu, hrun⟩ := M.run_cons_eq_some.mp hr
    exact ih (hstep s a u hs hm.1 hu) (hm.2 u hu) hrun

theorem meets_true (s : σ) (as : List α) : M.Meets (fun _ _ => True) s as := by
  induction as generalizing s with
  | nil => trivial
  | cons a as ih => exact ⟨trivial, fun t _ => ih t⟩

theorem meets_cons_none {C : σ → α → Prop} {s : σ} {a : α} {rest : List α}
    (h : M.step s a = none) : M.Meets C s (a :: rest) ↔ C s a := by
  constructor
  · exact fun hm => hm.1
  · intro hc
    refine ⟨hc, ?_⟩
    intro t ht
    rw [h] at ht
    cases ht

theorem meets_cons_some {C : σ → α → Prop} {s t : σ} {a : α} {rest : List α}
    (h : M.step s a = some t) : M.Meets C s (a :: rest) ↔ C s a ∧ M.Meets C t rest := by
  constructor
  · exact fun hm => ⟨hm.1, hm.2 t h⟩
  · intro hm
    refine ⟨hm.1, ?_⟩
    intro u hu
    have he : t = u := Option.some.inj (h.symm.trans hu)
    exact he ▸ hm.2

instance decidableMeets {C : σ → α → Prop} [∀ s a, Decidable (C s a)] :
    (s : σ) → (as : List α) → Decidable (M.Meets C s as)
  | _, [] => isTrue trivial
  | s, a :: rest =>
    match h : M.step s a with
    | none => decidable_of_iff (C s a) (M.meets_cons_none h).symm
    | some t =>
      have : Decidable (M.Meets C t rest) := decidableMeets t rest
      decidable_of_iff (C s a ∧ M.Meets C t rest) (M.meets_cons_some h).symm

theorem run_invariant {I : σ → Prop}
    (hstep : ∀ s a t, I s → M.step s a = some t → I t)
    {s t : σ} {as : List α} (hs : I s) (hr : M.run s as = some t) : I t :=
  M.run_invariant_meeting (C := fun _ _ => True) (fun s a t hi _ h => hstep s a t hi h) hs
    (M.meets_true s as) hr

end Machine

end Agently.Lib
