import Agently.Lib.Dict
import Mathlib.Order.Nat

/-! # Counting entries that move

Replacing one element of a list or one entry of a dictionary moves one unit between the
counts before and after; both are stated additively so that `omega` can chain them. -/

namespace Agently.Lib

universe u v

variable {α : Type u}

theorem countP_cons_toNat (p : α → Bool) (a : α) (l : List α) :
    (a :: l).countP p = l.countP p + (p a).toNat := by
  cases h : p a <;> simp [h]

theorem countP_set_add (p : α → Bool) {l : List α} {i : Nat} {a b : α} (h : l[i]? = some a) :
    (l.set i b).countP p + (p a).toNat = l.countP p + (p b).toNat := by
  induction l generalizing i with
  | nil => simp at h
  | cons x rest ih =>
    cases i with
    | zero =>
      have hx : x = a := by simpa using h
      subst hx
      simp only [List.set_cons_zero, countP_cons_toNat]
      omega
    | succ i =>
      have h' := ih (i := i) (by simpa using h)
      simp only [List.set_cons_succ, countP_cons_toNat]
      omega

theorem toNat_le_countP (p : α → Bool) {l : List α} {i : Nat} {a : α} (h : l[i]? = some a) :
    (p a).toNat ≤ l.countP p := by
  induction l generalizing i with
  | nil => simp at h
  | cons x rest ih =>
    rw [countP_cons_toNat]
    cases i with
    | zero =>
      have hx : x = a := by simpa using h
      rw [hx]
      omega
    | succ i =>
      have h' := ih (i := i) (by simpa using h)
      omega

theorem toNat_add_toNat_le_countP (p : α → Bool) {l : List α} {i j : Nat} {a b : α} (hij : i ≠ j)
    (hi : l[i]? = some a) (hj : l[j]? = some b) : (p a).toNat + (p b).toNat ≤ l.countP p := by
  induction l generalizing i j with
  | nil => simp at hi
  | cons x rest ih =>
    rw [countP_cons_toNat]
    cases i with
    | zero =>
      cases j with
      | zero => exact absurd rfl hij
      | succ j =>
        have hx : x = a := by simpa using hi
        have h1 := toNat_le_countP p (l := rest) (i := j) (by simpa using hj)
        rw [hx]
        omega
    | succ i =>
      cases j with
      | zero =>
        have hx : x = b := by simpa using hj
        have h1 := toNat_le_countP p (l := rest) (i := i) (by simpa using hi)
        rw [hx]
        omega
      | succ j =>
        have h2 := ih (i := i) (j := j) (by omega) (by simpa using hi) (by simpa using hj)
        omega

namespace Dict

variable {κ : Type u} {ν : Type v} [DecidableEq κ]

theorem countP_vals_set (p : ν → Bool) (d : Dict κ ν) (k : κ) (v : ν) :
    (d.set k v).vals.countP p + ((d.get? k).any p).toNat = d.vals.countP p + (p v).toNat := by
  induction d with
  | nil => cases h : p v <;> simp [set, vals, h]
  | cons e rest ih =>
    obtain ⟨k', w⟩ := e
    by_cases hk : k' = k
    · simp only [set, if_pos hk, get?_cons, vals, List.map_cons, countP_cons_toNat,
        Option.any_some]
      omega
    · simp only [set, if_neg hk, get?_cons, vals, List.map_cons, countP_cons_toNat] at ih ⊢
      omega

theorem countP_vals_del_le (p : ν → Bool) (d : Dict κ ν) (k : κ) :
    (d.del k).vals.countP p ≤ d.vals.countP p :=
  (List.filter_sublist.map Prod.snd).countP_le

end Dict

end Agently.Lib
