import Mathlib.Data.List.Nodup
import Mathlib.Data.List.Perm.Subperm

/-! # The first name that is free

A name is tried, and then numbered ones, until one is not taken. -/

namespace Agently.Lib.FreshNames

universe u

variable {α : Type u} [DecidableEq α]

def firstFree (taken : List α) (next : Nat → α) : Nat → Nat → α → α
  | 0, _, candidate => candidate
  | fuel + 1, k, candidate =>
    if candidate ∈ taken then firstFree taken next fuel (k + 1) (next k) else candidate

theorem firstFree_property {P : α → Prop} {taken : List α} {next : Nat → α} {fuel : Nat} :
    ∀ {k : Nat} {candidate : α}, P candidate → (∀ i, i < fuel → P (next (k + i))) →
      P (firstFree taken next fuel k candidate) := by
  induction fuel with
  | zero =>
    intro k candidate hc _
    exact hc
  | succ fuel ih =>
    intro k candidate hc hn
    rw [firstFree]
    split
    · apply ih
      · exact hn 0 (Nat.succ_pos fuel)
      · intro i hi
        have h := hn (i + 1) (Nat.succ_lt_succ hi)
        rwa [show k + (i + 1) = k + 1 + i by omega] at h
    · exact hc

theorem taken_of_firstFree_mem {taken : List α} {next : Nat → α} {fuel : Nat} :
    ∀ {k : Nat} {candidate : α}, firstFree taken next fuel k candidate ∈ taken →
      ∀ i, i < fuel → next (k + i) ∈ taken := by
  induction fuel with
  | zero =>
    intro k candidate _ i hi
    omega
  | succ fuel ih =>
    intro k candidate h i hi
    rw [firstFree] at h
    split at h
    · cases i with
      | zero =>
        cases fuel with
        | zero => exact h
        | succ fuel =>
          rw [firstFree] at h
          split at h
          · next hk => exact hk
          · exact h
      | succ i =>
        have hrest := ih h i (by omega)
        rwa [show k + 1 + i = k + (i + 1) by omega] at hrest
    · next hno => exact absurd h hno

theorem firstFree_not_mem {taken : List α} {next : Nat → α} {fuel k : Nat} {candidate : α}
    (hinj : ∀ i j, i < fuel → j < fuel → next (k + i) = next (k + j) → i = j)
    (hfuel : taken.length < fuel) : firstFree taken next fuel k candidate ∉ taken := by
  intro h
  have hall := taken_of_firstFree_mem h
  have hnodup : ((List.range fuel).map fun i => next (k + i)).Nodup := by
    refine List.Nodup.map_on ?_ List.nodup_range
    intro i hi j hj hij
    exact hinj i j (List.mem_range.mp hi) (List.mem_range.mp hj) hij
  have hsub : ((List.range fuel).map fun i => next (k + i)) ⊆ taken := by
    intro x hx
    obtain ⟨i, hi, rfl⟩ := List.mem_map.mp hx
    exact hall i (List.mem_range.mp hi)
  have hlen := (List.subperm_of_subset hnodup hsub).length_le
  rw [List.length_map, List.length_range] at hlen
  omega

end Agently.Lib.FreshNames
