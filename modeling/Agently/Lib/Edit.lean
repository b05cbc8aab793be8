import Mathlib.Algebra.Group.Defs
import Mathlib.Data.List.Basic

/-! # Edits that may fail and are counted

An edit rewrites a value or refuses it, and says what it has spent. An edit is
idempotent when a second one finds nothing to change and spends the same again. -/

namespace Agently.Lib

universe u v w

abbrev Edit (ε : Type u) (μ : Type v) (α : Type w) := α → Except ε (α × μ)

namespace Edit

variable {ε : Type u} {μ : Type v} {α : Type w} [AddMonoid μ]

def Idempotent (f : Edit ε μ α) : Prop := ∀ x y m, f x = .ok (y, m) → f y = .ok (y, m)

def skip : Edit ε μ α := fun x => .ok (x, 0)

def seq (f g : Edit ε μ α) : Edit ε μ α := fun x =>
  match f x with
  | .error e => .error e
  | .ok (y, m) =>
    match g y with
    | .error e => .error e
    | .ok (z, n) => .ok (z, m + n)

def guarded (p : α → Bool) (f : Edit ε μ α) : Edit ε μ α := fun x =>
  if p x then f x else .ok (x, 0)

def each (f : Edit ε μ α) : Edit ε μ (List α)
  | [] => .ok ([], 0)
  | x :: rest =>
    match f x with
    | .error e => .error e
    | .ok (y, m) =>
      match each f rest with
      | .error e => .error e
      | .ok (ys, n) => .ok (y :: ys, m + n)

theorem skip_idempotent : Idempotent (skip : Edit ε μ α) := by
  intro x y m h
  obtain ⟨rfl, rfl⟩ := Prod.mk.inj (Except.ok.inj h)
  rfl

theorem seq_eq_ok {f g : Edit ε μ α} {x z : α} {m : μ} :
    seq f g x = .ok (z, m) ↔
      ∃ y m₁ m₂, f x = .ok (y, m₁) ∧ g y = .ok (z, m₂) ∧ m = m₁ + m₂ := by
  unfold seq
  cases hf : f x with
  | error e => simp
  | ok p =>
    obtain ⟨y, m₁⟩ := p
    cases hg : g y with
    | error e => simp [hg]
    | ok q =>
      obtain ⟨z', m₂⟩ := q
      simp only [hg]
      constructor
      · intro h
        obtain ⟨rfl, rfl⟩ := Prod.mk.inj (Except.ok.inj h)
        exact ⟨y, m₁, m₂, rfl, hg, rfl⟩
      · rintro ⟨y', n₁, n₂, h₁, h₂, rfl⟩
        obtain ⟨rfl, rfl⟩ := Prod.mk.inj (Except.ok.inj h₁)
        rw [hg] at h₂
        obtain ⟨rfl, rfl⟩ := Prod.mk.inj (Except.ok.inj h₂)
        rfl

theorem seq_idempotent {f g : Edit ε μ α} (hf : Idempotent f) (hg : Idempotent g)
    (hk : ∀ y z m n, f y = .ok (y, m) → g y = .ok (z, n) → f z = .ok (z, m)) :
    Idempotent (seq f g) := by
  intro x z m h
  obtain ⟨y, m₁, m₂, h₁, h₂, rfl⟩ := seq_eq_ok.mp h
  have hy := hf x y m₁ h₁
  exact seq_eq_ok.mpr ⟨z, m₁, m₂, hk y z m₁ m₂ hy h₂, hg y z m₂ h₂, rfl⟩

theorem guarded_idempotent {p : α → Bool} {f : Edit ε μ α} (hf : Idempotent f)
    (hp : ∀ x y m, p x = true → f x = .ok (y, m) → p y = true) : Idempotent (guarded p f) := by
  intro x y m h
  unfold guarded at h ⊢
  cases hx : p x with
  | true =>
    rw [if_pos hx] at h
    rw [if_pos (hp x y m hx h)]
    exact hf x y m h
  | false =>
    rw [hx] at h
    obtain ⟨rfl, rfl⟩ := Prod.mk.inj (Except.ok.inj h)
    rw [hx]
    rfl

theorem each_cons_eq_ok {f : Edit ε μ α} {x : α} {rest ys : List α} {m : μ} :
    each f (x :: rest) = .ok (ys, m) ↔
      ∃ y zs m₁ m₂, f x = .ok (y, m₁) ∧ each f rest = .ok (zs, m₂) ∧ ys = y :: zs ∧
        m = m₁ + m₂ := by
  simp only [each]
  cases hf : f x with
  | error e => simp
  | ok p =>
    obtain ⟨y, m₁⟩ := p
    cases hr : each f rest with
    | error e => simp
    | ok q =>
      obtain ⟨zs, m₂⟩ := q
      constructor
      · intro h
        obtain ⟨rfl, rfl⟩ := Prod.mk.inj (Except.ok.inj h)
        exact ⟨y, zs, m₁, m₂, rfl, rfl, rfl, rfl⟩
      · rintro ⟨y', zs', n₁, n₂, h₁, h₂, rfl, rfl⟩
        obtain ⟨rfl, rfl⟩ := Prod.mk.inj (Except.ok.inj h₁)
        obtain ⟨rfl, rfl⟩ := Prod.mk.inj (Except.ok.inj h₂)
        rfl

theorem each_idempotent {f : Edit ε μ α} (hf : Idempotent f) : Idempotent (each f) := by
  intro xs
  induction xs with
  | nil =>
    intro ys m h
    obtain ⟨rfl, rfl⟩ := Prod.mk.inj (Except.ok.inj h)
    rfl
  | cons x rest ih =>
    intro ys m h
    obtain ⟨y, zs, m₁, m₂, h₁, h₂, rfl, rfl⟩ := each_cons_eq_ok.mp h
    exact each_cons_eq_ok.mpr ⟨y, zs, m₁, m₂, hf x y m₁ h₁, ih zs m₂ h₂, rfl, rfl⟩

end Edit

end Agently.Lib
