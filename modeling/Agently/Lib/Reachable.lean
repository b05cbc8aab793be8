import Mathlib.Data.List.Perm.Basic
import Mathlib.Data.List.Nodup
import Mathlib.Logic.Relation

/-! # Everything a set of starting points leads to

A queue holds the members found and not yet followed; following one finds those of its
successors that are new. -/

namespace Agently.Lib.Reachable

universe u

variable {α : Type u} [DecidableEq α]

structure State (α : Type u) where
  queue : List α
  seen : List α

def add (s : State α) (x : α) : State α :=
  if x ∈ s.seen then s else { queue := s.queue ++ [x], seen := s.seen ++ [x] }

def addAll : List α → State α → State α
  | [], s => s
  | x :: rest, s => addAll rest (add s x)

def round (next : α → List α) (s : State α) : State α :=
  match s.queue with
  | [] => s
  | t :: rest => addAll (next t) { s with queue := rest }

def rounds (next : α → List α) : Nat → State α → State α
  | 0, s => s
  | n + 1, s => rounds next n (round next s)

/-- `x` is one of `start` or a successor of such a point, and so on. -/
def Reaches (next : α → List α) (start : List α) (x : α) : Prop :=
  ∃ s ∈ start, Relation.ReflTransGen (fun a b => b ∈ next a) s x

omit [DecidableEq α] in
theorem Reaches.next {next : α → List α} {start : List α} {x y : α} (h : Reaches next start x)
    (hy : y ∈ next x) : Reaches next start y := by
  obtain ⟨s, hs, hr⟩ := h
  exact ⟨s, hs, hr.tail hy⟩

theorem addAll_spec (xs : List α) (s : State α) (hn : s.seen.Nodup) :
    ∃ new, (addAll xs s).queue = s.queue ++ new ∧ (addAll xs s).seen = s.seen ++ new ∧
      (s.seen ++ new).Nodup ∧ (∀ x ∈ new, x ∈ xs) ∧ ∀ x ∈ xs, x ∈ s.seen ++ new := by
  induction xs generalizing s with
  | nil => exact ⟨[], by simp [addAll], by simp [addAll], by simpa using hn, by simp, by simp⟩
  | cons x xs ih =>
    by_cases hx : x ∈ s.seen
    · have ha : add s x = s := by simp [add, hx]
      obtain ⟨new, hq, hs, hnd, hsub, hall⟩ := ih s hn
      refine ⟨new, by rw [addAll, ha, hq], by rw [addAll, ha, hs], hnd,
        fun y hy => List.mem_cons_of_mem x (hsub y hy), ?_⟩
      intro y hy
      rcases List.mem_cons.mp hy with rfl | hy
      · exact List.mem_append_left new hx
      · exact hall y hy
    · have ha : add s x = { queue := s.queue ++ [x], seen := s.seen ++ [x] } := by
        simp [add, hx]
      have hn' : (s.seen ++ [x]).Nodup := by
        refine List.nodup_append.mpr ⟨hn, by simp, ?_⟩
        intro y hy z hz e
        rw [List.mem_singleton] at hz
        exact hx (hz ▸ e ▸ hy)
      obtain ⟨new, hq, hs, hnd, hsub, hall⟩ := ih { queue := s.queue ++ [x], seen := s.seen ++ [x] } hn'
      refine ⟨x :: new, ?_, ?_, ?_, ?_, ?_⟩
      · rw [addAll, ha, hq]
        simp
      · rw [addAll, ha, hs]
        simp
      · simpa using hnd
      · intro y hy
        rcases List.mem_cons.mp hy with rfl | hy
        · exact List.mem_cons_self
        · exact List.mem_cons_of_mem x (hsub y hy)
      · intro y hy
        rcases List.mem_cons.mp hy with rfl | hy
        · simp
        · simpa using hall y hy

section Run

variable (next : α → List α) (start universe_ : List α)

structure Invariant (s : State α) : Prop where
  nodup : s.seen.Nodup
  inside : ∀ x ∈ s.seen, x ∈ universe_
  starts : ∀ x ∈ start, x ∈ s.seen
  queued : ∀ x ∈ s.queue, x ∈ s.seen
  reached : ∀ x ∈ s.seen, Reaches next start x
  followed : ∀ x ∈ s.seen, x ∉ s.queue → ∀ y ∈ next x, y ∈ s.seen

variable {next start universe_}

theorem round_invariant (hu : ∀ x ∈ universe_, ∀ y ∈ next x, y ∈ universe_) {s : State α}
    (h : Invariant next start universe_ s) : Invariant next start universe_ (round next s) := by
  unfold round
  cases hq : s.queue with
  | nil => exact h
  | cons t rest =>
    simp only
    have ht : t ∈ s.seen := h.queued t (by simp [hq])
    obtain ⟨new, hnq, hns, hnd, hsub, hall⟩ := addAll_spec (next t)
      { s with queue := rest } h.nodup
    simp only at hnq hns hnd hall
    have hnew : ∀ x ∈ new, x ∈ next t := hsub
    refine ⟨by rwa [hns], ?_, ?_, ?_, ?_, ?_⟩
    · intro x hx
      rw [hns] at hx
      rcases List.mem_append.mp hx with hx | hx
      · exact h.inside x hx
      · exact hu t (h.inside t ht) x (hnew x hx)
    · intro x hx
      rw [hns]
      exact List.mem_append_left new (h.starts x hx)
    · intro x hx
      rw [hnq] at hx
      rw [hns]
      rcases List.mem_append.mp hx with hx | hx
      · exact List.mem_append_left new (h.queued x (by simp [hq, hx]))
      · exact List.mem_append_right s.seen hx
    · intro x hx
      rw [hns] at hx
      rcases List.mem_append.mp hx with hx | hx
      · exact h.reached x hx
      · exact (h.reached t ht).next (hnew x hx)
    · intro x hx hxq y hy
      rw [hns] at hx ⊢
      rw [hnq] at hxq
      have hxr : x ∉ rest ∧ x ∉ new := by simpa using hxq
      rcases List.mem_append.mp hx with hx | hx
      · by_cases hxt : x = t
        · subst hxt
          exact hall y hy
        · refine List.mem_append_left new (h.followed x hx ?_ y hy)
          rw [hq, List.mem_cons]
          rintro (e | hm)
          · exact hxt e
          · exact hxr.1 hm
      · exact absurd hx hxr.2

theorem rounds_invariant (hu : ∀ x ∈ universe_, ∀ y ∈ next x, y ∈ universe_) (n : Nat)
    {s : State α} (h : Invariant next start universe_ s) :
    Invariant next start universe_ (rounds next n s) := by
  induction n generalizing s with
  | zero => exact h
  | succ n ih => exact ih (round_invariant hu h)

theorem rounds_of_empty {s : State α} (hq : s.queue = []) (n : Nat) : rounds next n s = s := by
  induction n with
  | zero => rfl
  | succ n ih => rw [rounds, round, hq, ih]

theorem rounds_length (n : Nat) (s : State α) (hn : s.seen.Nodup) :
    (rounds next n s).queue = [] ∨
      (rounds next n s).seen.length + s.queue.length =
        (rounds next n s).queue.length + s.seen.length + n := by
  induction n generalizing s with
  | zero => exact .inr (Nat.add_comm _ _)
  | succ n ih =>
    cases hq : s.queue with
    | nil =>
      have hs : rounds next (n + 1) s = s := rounds_of_empty hq (n + 1)
      rw [hs]
      exact .inl hq
    | cons t rest =>
      obtain ⟨new, hnq, hns, hnd, -, -⟩ := addAll_spec (next t) { s with queue := rest } hn
      simp only at hnq hns hnd
      have hr : round next s = addAll (next t) { s with queue := rest } := by
        rw [round, hq]
      rw [rounds, hr]
      rcases ih (addAll (next t) { s with queue := rest }) (hns ▸ hnd) with he | hl
      · exact .inl he
      · right
        rw [hnq, hns, List.length_append, List.length_append] at hl
        rw [List.length_cons]
        omega

theorem rounds_queue (hu : ∀ x ∈ universe_, ∀ y ∈ next x, y ∈ universe_) {s : State α}
    (h : Invariant next start universe_ s) (hl : s.queue.length = s.seen.length) :
    (rounds next universe_.length s).queue = [] := by
  have hcases : (rounds next universe_.length s).queue = [] ∨ _ :=
    rounds_length universe_.length s h.nodup
  rcases hcases with hq | hlen
  · exact hq
  · have hi := rounds_invariant hu universe_.length h
    have hle := (List.subperm_of_subset hi.nodup hi.inside).length_le
    apply List.length_eq_zero_iff.mp
    omega

omit [DecidableEq α] in
theorem Invariant.mem_iff {s : State α} (h : Invariant next start universe_ s)
    (hq : s.queue = []) (x : α) : x ∈ s.seen ↔ Reaches next start x := by
  constructor
  · exact h.reached x
  · rintro ⟨a, ha, hr⟩
    induction hr with
    | refl => exact h.starts a ha
    | tail _ hy ih => exact h.followed _ ih (by simp [hq]) _ hy

end Run

end Agently.Lib.Reachable
