import Mathlib

/-! # The longest suffix within a weight -/

namespace Agently.Lib.WeightedSuffix

variable {α : Type} (weight : α → Nat)

def total (xs : List α) : Nat := (xs.map weight).sum

def longest (bound : Nat) : List α → List α
  | [] => []
  | x :: xs => if total weight (x :: xs) ≤ bound then x :: xs else longest bound xs

variable {weight} {bound : Nat} {x : α} {xs ys vs : List α}

theorem total_cons : total weight (x :: xs) = weight x + total weight xs := by
  rw [total, List.map_cons, List.sum_cons]
  rfl

theorem total_append : total weight (xs ++ ys) = total weight xs + total weight ys := by
  rw [total, List.map_append, List.sum_append]
  rfl

theorem longest_of_le (h : total weight xs ≤ bound) : longest weight bound xs = xs := by
  cases xs with
  | nil => rfl
  | cons x xs => rw [longest, if_pos h]

theorem longest_suffix : longest weight bound xs <:+ xs := by
  induction xs with
  | nil => exact List.suffix_rfl
  | cons x xs ih =>
    rw [longest]
    split
    · exact List.suffix_rfl
    · exact ih.trans (List.suffix_cons x xs)

theorem total_longest : total weight (longest weight bound xs) ≤ bound := by
  induction xs with
  | nil => exact Nat.zero_le bound
  | cons x xs ih =>
    rw [longest]
    split
    · assumption
    · exact ih

theorem suffix_longest (hv : vs <:+ xs) (h : total weight vs ≤ bound) :
    vs <:+ longest weight bound xs := by
  induction xs with
  | nil => exact hv
  | cons x xs ih =>
    rw [longest]
    split
    · exact hv
    · next hno =>
      rcases List.suffix_cons_iff.mp hv with rfl | hv
      · exact absurd h hno
      · exact ih hv

theorem longest_append :
    longest weight bound (longest weight bound xs ++ ys) = longest weight bound (xs ++ ys) := by
  induction xs with
  | nil => rfl
  | cons x xs ih =>
    rw [longest]
    split
    · rfl
    · next hno =>
      have hmore : ¬ total weight (x :: (xs ++ ys)) ≤ bound := by
        rw [← List.cons_append, total_append]
        omega
      rw [ih, List.cons_append, longest, if_neg hmore]

theorem longest_cons_of_lt (h : bound < weight x) :
    longest weight bound (x :: xs) = longest weight bound xs := by
  rw [longest, if_neg]
  rw [total_cons]
  omega

theorem longest_concat :
    longest weight bound (xs ++ [x]) =
      if bound < weight x then [] else longest weight (bound - weight x) xs ++ [x] := by
  have hlast : total weight [x] = weight x := by rw [total_cons]; rfl
  induction xs with
  | nil =>
    change (if total weight [x] ≤ bound then [x] else []) = if bound < weight x then [] else [x]
    rw [hlast]
    by_cases hx : bound < weight x
    · rw [if_pos hx, if_neg (by omega)]
    · rw [if_neg hx, if_pos (by omega)]
  | cons y xs ih =>
    rw [List.cons_append, longest, ih, ← List.cons_append, total_append, hlast]
    by_cases hx : bound < weight x
    · rw [if_neg (by omega), if_pos hx, if_pos hx]
    · rw [if_neg hx, if_neg hx, longest]
      by_cases hall : total weight (y :: xs) + weight x ≤ bound
      · rw [if_pos hall, if_pos (by omega), List.cons_append]
      · rw [if_neg hall, if_neg (by omega)]

end Agently.Lib.WeightedSuffix
