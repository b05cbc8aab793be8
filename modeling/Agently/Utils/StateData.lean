import Agently.Utils.Conversions

/-! # Nested state data

Source: `utils/StateData.py`, over JSON values. `set` replaces a key, `update` merges; a key with a
dot is a path, and a path through a value that is no dictionary raises. -/

namespace Agently.Utils.StateData

open Agently.Lib Agently.Utils

abbrev Data := List (String × Json)

def splitDots : List Char → List (List Char)
  | [] => [[]]
  | c :: rest =>
    if c = '.' then [] :: splitDots rest
    else match splitDots rest with
      | [] => [[c]]
      | part :: parts => (c :: part) :: parts

def pathOf (key : String) : List String := (splitDots key.toList).map String.ofList

def isPath (key : String) : Bool := key.toList.contains '.'

section Merge

variable (floatValue : FloatText → ℚ)

def appendNew (xs : List Json) (item : Json) : List Json :=
  if xs.any (fun x => Json.pyEq floatValue item x) then xs else xs ++ [item]

mutual

/-- `_set_item`: what is held where `value` is merged in. -/
def setItem (held : Json) : Json → Json
  | .obj new =>
    match held with
    | .obj kvs => .obj (setItems kvs new)
    | .arr xs => .arr (appendNew floatValue xs (.obj new))
    | _ => .obj new
  | .arr ys =>
    match held with
    | .arr xs => .arr (ys.foldl (appendNew floatValue) xs)
    | _ => .arr ys
  | value =>
    match held with
    | .arr xs => .arr (appendNew floatValue xs value)
    | _ => value

def setItems (kvs : Data) : Data → Data
  | [] => kvs
  | (k, value) :: rest =>
    match Dict.get? kvs k with
    | none => setItems (Dict.set kvs k value) rest
    | some held => setItems (Dict.set kvs k (setItem held value)) rest

end

def pathError (dotPath : String) (walked : List String) : PyError :=
  let parent := String.intercalate "." walked
  .raised .typeError
    s!"Can not set value to path '{dotPath}' because '{parent}' is not a dictionary."

/-- `_set_item_by_dot_path` below the keys `walked`; `put` is what becomes of the value
held at the end of the path. -/
def setPath (dotPath : String) (put : Option Json → Json) (walked : List String) :
    List String → Data → Except PyError Data
  | [], kvs => .ok kvs
  | [k], kvs => .ok (Dict.set kvs k (put (Dict.get? kvs k)))
  | k :: rest, kvs =>
    match (Dict.get? kvs k).getD (.obj []) with
    | .obj inner =>
      match setPath dotPath put (walked ++ [k]) rest inner with
      | .ok inner => .ok (Dict.set kvs k (.obj inner))
      | .error e => .error e
    | _ => .error (pathError dotPath (walked ++ [k]))

/-- What `update` leaves where `value` meets what is held. -/
def merged (value : Json) : Option Json → Json
  | none => value
  | some held => setItem floatValue held value

def updateKey (kvs : Data) (key : String) (value : Json) : Except PyError Data :=
  if isPath key then setPath key (merged floatValue value) [] (pathOf key) kvs
  else .ok (Dict.set kvs key (merged floatValue value (Dict.get? kvs key)))

/-- `update`: the keys up to the one that raises are merged. -/
def update (kvs : Data) : Data → Data × Option PyError
  | [] => (kvs, none)
  | (key, value) :: rest =>
    match updateKey floatValue kvs key value with
    | .ok kvs => update kvs rest
    | .error e => (kvs, some e)

end Merge

def set (kvs : Data) (key : String) (value : Json) : Except PyError Data :=
  if isPath key then setPath key (fun _ => value) [] (pathOf key) kvs
  else .ok (Dict.set kvs key value)

def setAll (kvs : Data) : Data → Data × Option PyError
  | [] => (kvs, none)
  | (key, value) :: rest =>
    match set kvs key value with
    | .ok kvs => setAll kvs rest
    | .error e => (kvs, some e)

/-- `_get_item_by_dot_path`: `None` where a key is missing. -/
def getPath (floatValue : FloatText → ℚ) : List String → Json → Except PyError Json
  | [], v => .ok v
  | k :: rest, .obj kvs =>
    match Dict.get? kvs k with
    | some v => getPath floatValue rest v
    | none => .ok .null
  | k :: _, .arr xs =>
    if xs.any (Json.pyEq floatValue (.str k)) then .error (.builtin .typeError) else .ok .null
  | k :: _, .str s =>
    if k.toList <:+: s.toList then .error (.builtin .typeError) else .ok .null
  | _ :: _, _ => .error (.builtin .typeError)

def append (floatValue : FloatText → ℚ) (kvs : Data) (key : String) (value : Json) :
    Except PyError Data :=
  let held :=
    if isPath key then getPath floatValue (pathOf key) (.obj kvs)
    else .ok ((Dict.get? kvs key).getD .null)
  match held with
  | .error e => .error e
  | .ok .null => set kvs key (.arr [value])
  | .ok (.arr xs) => set kvs key (.arr (xs ++ [value]))
  | .ok v => set kvs key (.arr [v, value])

def containsPath : List String → Data → Bool
  | [], _ => true
  | [k], kvs => (Dict.get? kvs k).isSome
  | k :: rest, kvs =>
    match Dict.get? kvs k with
    | some (.obj inner) => containsPath rest inner
    | _ => false

def contains (kvs : Data) (key : String) : Bool :=
  if isPath key then containsPath (pathOf key) kvs else (Dict.get? kvs key).isSome

def deletePath : List String → Data → Data
  | [], kvs => kvs
  | [k], kvs => Dict.del kvs k
  | k :: rest, kvs =>
    match Dict.get? kvs k with
    | some (.obj inner) => Dict.set kvs k (.obj (deletePath rest inner))
    | _ => kvs

def delete (kvs : Data) (key : String) : Data :=
  if isPath key then deletePath (pathOf key) kvs else Dict.del kvs key

theorem splitDots_ne_nil (cs : List Char) : splitDots cs ≠ [] := by
  cases cs with
  | nil => simp [splitDots]
  | cons c rest =>
    rw [splitDots]
    split
    · simp
    · split <;> simp

theorem splitDots_append (as bs : List Char) :
    splitDots (as ++ '.' :: bs) = splitDots as ++ splitDots bs := by
  induction as with
  | nil => simp [splitDots]
  | cons c rest ih =>
    rw [List.cons_append, splitDots, splitDots, ih]
    by_cases hc : c = '.'
    · simp [hc]
    · cases hs : splitDots rest with
      | nil => exact absurd hs (splitDots_ne_nil rest)
      | cons part parts => simp [hc]

theorem splitDots_plain {cs : List Char} (h : '.' ∉ cs) : splitDots cs = [cs] := by
  induction cs with
  | nil => rfl
  | cons c rest ih =>
    have hc : ¬ c = '.' := fun e => h (by simp [e])
    have hrest : '.' ∉ rest := fun hm => h (List.mem_cons_of_mem c hm)
    rw [splitDots, if_neg hc, ih hrest]

theorem pathOf_append (a b : String) : pathOf (a ++ "." ++ b) = pathOf a ++ pathOf b := by
  have hl : (a ++ "." ++ b).toList = a.toList ++ '.' :: b.toList := by simp
  rw [pathOf, hl, splitDots_append, List.map_append]
  rfl

theorem pathOf_ne_nil (key : String) : pathOf key ≠ [] := by
  simp [pathOf, splitDots_ne_nil]

theorem pathOf_plain {key : String} (h : '.' ∉ key.toList) : pathOf key = [key] := by
  simp [pathOf, splitDots_plain h]

end Agently.Utils.StateData
