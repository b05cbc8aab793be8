import Agently.Lib.Dict
import Mathlib.Data.List.Sort
import Mathlib.Data.Rat.Defs

/-! # JSON values as Python holds them

What `json.loads` returns: integers and floats are apart, `True` and `1` too, and
objects keep the order of their keys. A finite float is named by its `repr`, which
`float()` reads back; `floatValue` gives the number it stands for. -/

namespace Agently.Utils

open Agently.Lib

def isNumberChar (c : Char) : Bool := c.isDigit || c == '-' || c == '+' || c == '.' || c == 'e'

/-- The `repr` of a finite float. -/
structure FloatText where
  chars : List Char
  ofNumber : ∀ c ∈ chars, isNumberChar c = true
  pointed : '.' ∈ chars ∨ 'e' ∈ chars

inductive Json where
  | null
  | bool (b : Bool)
  | int (n : Int)
  | float (f : FloatText)
  | str (s : String)
  | arr (xs : List Json)
  | obj (kvs : List (String × Json))

namespace Json

def get? : Json → String → Option Json
  | .obj kvs, k => Dict.get? kvs k
  | _, _ => none

mutual

def WellFormed : Json → Prop
  | .arr xs => WellFormedList xs
  | .obj kvs => (Dict.keys kvs).Nodup ∧ WellFormedEntries kvs
  | _ => True

def WellFormedList : List Json → Prop
  | [] => True
  | x :: xs => WellFormed x ∧ WellFormedList xs

def WellFormedEntries : List (String × Json) → Prop
  | [] => True
  | (_, x) :: rest => WellFormed x ∧ WellFormedEntries rest

end

theorem WellFormedEntries.of_mem {kvs : List (String × Json)} (h : WellFormedEntries kvs)
    {p : String × Json} (hp : p ∈ kvs) : WellFormed p.2 := by
  induction kvs with
  | nil => simp at hp
  | cons q rest ih =>
    obtain ⟨k, x⟩ := q
    rcases List.mem_cons.mp hp with rfl | hp
    · exact h.1
    · exact ih h.2 hp

theorem WellFormed.get? {j v : Json} {k : String} (h : j.WellFormed) (hg : j.get? k = some v) :
    v.WellFormed := by
  cases j with
  | obj kvs => exact h.2.of_mem (Dict.mem_of_get? hg)
  | null => cases hg
  | bool b => cases hg
  | int n => cases hg
  | float f => cases hg
  | str s => cases hg
  | arr xs => cases hg

section Equality

variable (floatValue : FloatText → ℚ)

def number : Json → Option ℚ
  | .bool b => some (if b then 1 else 0)
  | .int n => some n
  | .float f => some (floatValue f)
  | _ => none

mutual

/-- `==`: numbers by their value, objects without the order of their keys. -/
def pyEq : Json → Json → Bool
  | .null, .null => true
  | .str a, .str b => a == b
  | .arr xs, .arr ys => pyEqList xs ys
  | .obj xs, .obj ys => xs.length == ys.length && pyEqEntries xs ys
  | a, b =>
    match number floatValue a, number floatValue b with
    | some x, some y => x == y
    | _, _ => false

def pyEqList : List Json → List Json → Bool
  | [], [] => true
  | x :: xs, y :: ys => pyEq x y && pyEqList xs ys
  | _, _ => false

def pyEqEntries : List (String × Json) → List (String × Json) → Bool
  | [], _ => true
  | (k, x) :: rest, ys =>
    match Dict.get? ys k with
    | some y => pyEq x y && pyEqEntries rest ys
    | none => false

end

end Equality

def sortKeys (kvs : List (String × Json)) : List (String × Json) :=
  kvs.insertionSort fun a b => a.1 ≤ b.1

mutual

def normal : Json → Json
  | .arr xs => .arr (normalList xs)
  | .obj kvs => .obj (sortKeys (normalEntries kvs))
  | .null => .null
  | .bool b => .bool b
  | .int n => .int n
  | .float f => .float f
  | .str s => .str s

def normalList : List Json → List Json
  | [] => []
  | x :: xs => normal x :: normalList xs

def normalEntries : List (String × Json) → List (String × Json)
  | [] => []
  | (k, x) :: rest => (k, normal x) :: normalEntries rest

end

def Same (v w : Json) : Prop := normal v = normal w

theorem normalEntries_eq_map (kvs : List (String × Json)) :
    normalEntries kvs = kvs.map fun p => (p.1, normal p.2) := by
  induction kvs with
  | nil => rfl
  | cons p rest ih =>
    obtain ⟨k, x⟩ := p
    rw [normalEntries, ih, List.map_cons]

theorem sortKeys_perm (kvs : List (String × Json)) : (sortKeys kvs).Perm kvs :=
  List.perm_insertionSort _ kvs

theorem perm_of_sortKeys_eq {xs ys : List (String × Json)} (h : sortKeys xs = sortKeys ys) :
    xs.Perm ys := by
  have hx : xs.Perm (sortKeys xs) := (sortKeys_perm xs).symm
  rw [h] at hx
  exact hx.trans (sortKeys_perm ys)

def Found (ys : List (String × Json)) (p : String × Json) : Prop :=
  ∃ y, Dict.get? ys p.1 = some y ∧ normal p.2 = normal y

theorem found_of_perm {xs ys : List (String × Json)} (hn : (Dict.keys ys).Nodup)
    (h : (normalEntries xs).Perm (normalEntries ys)) : ∀ p ∈ xs, Found ys p := by
  intro p hp
  have hm : (p.1, normal p.2) ∈ normalEntries xs := by
    rw [normalEntries_eq_map]
    exact List.mem_map.mpr ⟨p, hp, rfl⟩
  have hy : (p.1, normal p.2) ∈ normalEntries ys := h.mem_iff.mp hm
  rw [normalEntries_eq_map] at hy
  obtain ⟨q, hq, he⟩ := List.mem_map.mp hy
  obtain ⟨hk, hv⟩ := Prod.mk.inj he
  refine ⟨q.2, ?_, hv.symm⟩
  rw [← hk]
  exact Dict.get?_of_mem hn hq

theorem length_eq_of_perm {xs ys : List (String × Json)}
    (h : (normalEntries xs).Perm (normalEntries ys)) : xs.length = ys.length := by
  have hl := h.length_eq
  rw [normalEntries_eq_map, normalEntries_eq_map, List.length_map, List.length_map] at hl
  exact hl

section Equality

variable (floatValue : FloatText → ℚ)

mutual

theorem pyEq_of_same : (v w : Json) → v.WellFormed → w.WellFormed → Same v w →
    pyEq floatValue v w = true
  | .null, w, _, _, h => by cases w <;> simp_all [Same, normal, pyEq]
  | .bool _, w, _, _, h => by cases w <;> simp_all [Same, normal, pyEq, number]
  | .int _, w, _, _, h => by cases w <;> simp_all [Same, normal, pyEq, number]
  | .float _, w, _, _, h => by cases w <;> simp_all [Same, normal, pyEq, number]
  | .str _, w, _, _, h => by cases w <;> simp_all [Same, normal, pyEq]
  | .arr xs, w, hv, hw, h => by
      cases w with
      | arr ys =>
        have hl : normalList xs = normalList ys := Json.arr.inj h
        exact pyEqList_of_same xs ys hv hw hl
      | _ => cases h
  | .obj xs, w, hv, hw, h => by
      cases w with
      | obj ys =>
        have hp : (normalEntries xs).Perm (normalEntries ys) :=
          perm_of_sortKeys_eq (Json.obj.inj h)
        have hl : xs.length = ys.length := length_eq_of_perm hp
        have he := pyEqEntries_of_found xs ys hv.2 hw.2 (found_of_perm hw.1 hp)
        simp [pyEq, hl, he]
      | _ => cases h

theorem pyEqList_of_same : (xs ys : List Json) → WellFormedList xs → WellFormedList ys →
    normalList xs = normalList ys → pyEqList floatValue xs ys = true
  | [], ys, _, _, h => by cases ys <;> simp_all [normalList, pyEqList]
  | x :: xs, [], _, _, h => by cases h
  | x :: xs, y :: ys, hv, hw, h => by
      obtain ⟨hx, hxs⟩ := List.cons.inj h
      have h₁ := pyEq_of_same x y hv.1 hw.1 hx
      have h₂ := pyEqList_of_same xs ys hv.2 hw.2 hxs
      simp [pyEqList, h₁, h₂]

theorem pyEqEntries_of_found : (xs ys : List (String × Json)) → WellFormedEntries xs →
    WellFormedEntries ys → (∀ p ∈ xs, Found ys p) → pyEqEntries floatValue xs ys = true
  | [], _, _, _, _ => rfl
  | (k, x) :: rest, ys, hv, hw, h => by
      obtain ⟨y, hy, hn⟩ := h (k, x) List.mem_cons_self
      have h₁ := pyEq_of_same x y hv.1 (hw.of_mem (Dict.mem_of_get? hy)) hn
      have h₂ := pyEqEntries_of_found rest ys hv.2 hw (List.forall_mem_cons.mp h).2
      simp only at hy
      simp [pyEqEntries, hy, h₁, h₂]

end

end Equality

end Json

end Agently.Utils
