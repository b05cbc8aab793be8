import Agently.Utils.StateData
import Agently.Utils.Value

/-! # Locating a path in a value

Source: `utils/DataLocator.py`, for paths in the style `"dot"`. `intOf` is `int()` of a text. -/

namespace Agently.DataLocator

open Agently.Lib Agently.Utils

def sequence? : Value → Option (List Value)
  | .list xs => some xs
  | .tuple xs => some xs
  | _ => none

def lookup? (key : String) : Value → Option Value
  | .dict kvs => Dict.get? kvs key
  | _ => none

/-- `path_part.split("[", 1)`, with the last character of the index left out. -/
def splitBracket (part : String) : Option (String × String) :=
  if '[' ∈ part.toList then
    some (String.ofList (part.toList.takeWhile fun c => c ≠ '['),
      String.ofList ((part.toList.dropWhile fun c => c ≠ '[').tail.dropLast))
  else none

def itemAt (xs : List Value) (index : Int) : Option Value :=
  if 0 ≤ index then xs[index.toNat]?
  else if 0 ≤ index + xs.length then xs[(index + xs.length).toNat]?
  else none

section Locating

variable (intOf : String → Option Int)

def bracketed (key : String) (result : Value) : Option (List Value) :=
  (if key = "" then some result else lookup? key result).bind sequence?

/-- `_locate_path_parts`; `none` is the default. -/
def locateParts : List String → Value → Option Value
  | [], result => some result
  | part :: remaining, result =>
    match splitBracket part with
    | none => (lookup? part result).bind (locateParts remaining)
    | some (key, index) =>
      match bracketed key result with
      | none => none
      | some xs =>
        if index = "*" ∨ index = "" then (xs.mapM (locateParts remaining)).map .list
        else (intOf index).bind fun i => (itemAt xs i).bind (locateParts remaining)

def locatePath (path : String) (result : Value) : Option Value :=
  if path = "" then some result else locateParts intOf (StateData.pathOf path) result

/-- `w` is the value at the path in `v`: a part names an entry, an item of a sequence or all
items of it. -/
inductive SubValue : List String → Value → Value → Prop
  | root (v : Value) : SubValue [] v v
  | key {part : String} {rest : List String} {kvs : List (String × Value)} {v w : Value}
      (plain : splitBracket part = none) (entry : Dict.get? kvs part = some v)
      (below : SubValue rest v w) : SubValue (part :: rest) (.dict kvs) w
  | item {part key index : String} {rest : List String} {v x w : Value} {xs : List Value} {i : Int}
      (bracket : splitBracket part = some (key, index)) (one : index ≠ "*" ∧ index ≠ "")
      (held : bracketed key v = some xs) (number : intOf index = some i)
      (at_i : itemAt xs i = some x) (below : SubValue rest x w) : SubValue (part :: rest) v w
  | all {part key index : String} {rest : List String} {v : Value} {xs ws : List Value}
      (bracket : splitBracket part = some (key, index)) (all : index = "*" ∨ index = "")
      (held : bracketed key v = some xs) (length_eq : ws.length = xs.length)
      (below : ∀ (i : Nat) (x w : Value), xs[i]? = some x → ws[i]? = some w → SubValue rest x w) :
      SubValue (part :: rest) v (.list ws)

theorem mapM_eq_some {α β : Type} {f : α → Option β} {xs : List α} {ys : List β} :
    xs.mapM f = some ys ↔ ys.length = xs.length ∧
      ∀ (i : Nat) (x : α) (y : β), xs[i]? = some x → ys[i]? = some y → f x = some y := by
  induction xs generalizing ys with
  | nil =>
    constructor
    · intro h
      cases h
      simp
    · rintro ⟨hl, -⟩
      rw [List.eq_nil_of_length_eq_zero hl]
      rfl
  | cons x xs ih =>
    rw [List.mapM_cons]
    constructor
    · intro h
      obtain ⟨y, hy, h⟩ := Option.bind_eq_some_iff.mp h
      obtain ⟨zs, hz, h⟩ := Option.bind_eq_some_iff.mp h
      cases h
      obtain ⟨hl, hall⟩ := ih.mp hz
      refine ⟨by simp [hl], fun i a b ha hb => ?_⟩
      cases i with
      | zero =>
        cases ha
        cases hb
        exact hy
      | succ i => exact hall i a b ha hb
    · rintro ⟨hl, hall⟩
      cases ys with
      | nil => cases hl
      | cons y ys =>
        have hy : f x = some y := hall 0 x y rfl rfl
        have hys : xs.mapM f = some ys :=
          ih.mpr ⟨by simpa using hl, fun i a b ha hb => hall (i + 1) a b ha hb⟩
        rw [hy, hys]
        rfl

variable {intOf}

theorem locateParts_iff {parts : List String} {v w : Value} :
    locateParts intOf parts v = some w ↔ SubValue intOf parts v w := by
  induction parts generalizing v w with
  | nil =>
    constructor
    · intro h
      cases h
      exact .root v
    · intro h
      cases h
      rfl
  | cons part rest ih =>
    rw [locateParts]
    cases hb : splitBracket part with
    | none =>
      simp only
      constructor
      · intro h
        obtain ⟨x, hx, hbelow⟩ := Option.bind_eq_some_iff.mp h
        cases v with
        | dict kvs => exact .key hb hx (ih.mp hbelow)
        | none => cases hx
        | bool b => cases hx
        | int n => cases hx
        | str s => cases hx
        | list xs => cases hx
        | tuple xs => cases hx
        | empty => cases hx
        | object text attrs => cases hx
      · intro h
        cases h with
        | key plain entry below =>
          rw [lookup?, entry]
          exact ih.mpr below
        | item bracket one held number at_i below =>
          rw [hb] at bracket
          cases bracket
        | all bracket all held length_eq below =>
          rw [hb] at bracket
          cases bracket
    | some p =>
      obtain ⟨key, index⟩ := p
      simp only
      constructor
      · intro h
        cases hx : bracketed key v with
        | none =>
          rw [hx] at h
          cases h
        | some xs =>
          rw [hx] at h
          simp only at h
          by_cases hi : index = "*" ∨ index = ""
          · rw [if_pos hi] at h
            obtain ⟨ws, hws, rfl⟩ := Option.map_eq_some_iff.mp h
            obtain ⟨hl, hall⟩ := mapM_eq_some.mp hws
            exact .all hb hi hx hl fun i x w hxi hwi => ih.mp (hall i x w hxi hwi)
          · rw [if_neg hi] at h
            obtain ⟨i, hn, h⟩ := Option.bind_eq_some_iff.mp h
            obtain ⟨x, hxi, h⟩ := Option.bind_eq_some_iff.mp h
            exact .item hb (not_or.mp hi) hx hn hxi (ih.mp h)
      · intro h
        cases h with
        | key plain entry below =>
          rw [hb] at plain
          cases plain
        | item bracket one held number at_i below =>
          rw [hb] at bracket
          cases bracket
          simp only [held, if_neg (not_or.mpr one), number, at_i, Option.bind_some]
          exact ih.mpr below
        | all bracket all held length_eq below =>
          rw [hb] at bracket
          cases bracket
          simp only [held, if_pos all]
          refine Option.map_eq_some_iff.mpr ⟨_, ?_, rfl⟩
          exact mapM_eq_some.mpr ⟨length_eq, fun i x w hx hw => ih.mpr (below i x w hx hw)⟩

theorem locateParts_none {parts : List String} {v : Value} (h : locateParts intOf parts v = none)
    (w : Value) : ¬ SubValue intOf parts v w := by
  intro hw
  rw [locateParts_iff.mpr hw] at h
  cases h

end Locating

end Agently.DataLocator
