import Agently.Lib.NestedDict
import Agently.Utils.StateData

/-! # State data with any values

Source: `utils/StateData.py`, for keys that need not be texts and for sets and tuples besides
lists. A value is a dictionary of values or a leaf, so that a copy equals what it copies. What an
operation that raises has changed before stays changed: each gives the data and the error. -/

namespace Agently.StateTree

open Agently.Lib
open Agently.Utils.StateData (pathOf isPath)

/-- A dictionary key: `None`, a text or another hashable. -/
inductive Key (α : Type) where
  | none
  | str (s : String)
  | other (a : α)
  deriving DecidableEq

/-- What is no dictionary. Numbers and other hashable atoms are equal in `α` if they are
equal to Python. -/
inductive Leaf (α : Type) where
  | none
  | str (s : String)
  | atom (a : α)
  | tuple (xs : List (Node (Key α) (Leaf α)))
  | list (xs : List (Node (Key α) (Leaf α)))
  | set (xs : List (Node (Key α) (Leaf α)))

abbrev Value (α : Type) := Node (Key α) (Leaf α)

abbrev Entries (α : Type) := Dict (Key α) (Value α)

inductive StateError where
  | raised (message : String)
  | typeError
  | attributeError

variable {α : Type} [DecidableEq α]

mutual

/-- `==`: sets and dictionaries without their order. -/
def pyEq : Value α → Value α → Bool
  | .leaf a, .leaf b => pyEqLeaf a b
  | .dict xs, .dict ys => xs.length == ys.length && pyEqEntries xs ys
  | _, _ => false

def pyEqLeaf : Leaf α → Leaf α → Bool
  | .none, .none => true
  | .str a, .str b => a == b
  | .atom a, .atom b => a == b
  | .tuple xs, .tuple ys => pyEqList xs ys
  | .list xs, .list ys => pyEqList xs ys
  | .set xs, .set ys => xs.length == ys.length && pyEqMembers xs ys
  | _, _ => false

def pyEqList : List (Value α) → List (Value α) → Bool
  | [], [] => true
  | x :: xs, y :: ys => pyEq x y && pyEqList xs ys
  | _, _ => false

def pyEqMembers : List (Value α) → List (Value α) → Bool
  | [], _ => true
  | x :: xs, ys => ys.any (pyEq x) && pyEqMembers xs ys

def pyEqEntries : Entries α → Entries α → Bool
  | [], _ => true
  | (k, x) :: xs, ys => ys.any (fun p => p.1 = k && pyEq x p.2) && pyEqEntries xs ys

end

mutual

def hashable : Value α → Bool
  | .dict _ => false
  | .leaf l => hashableLeaf l

def hashableLeaf : Leaf α → Bool
  | .tuple xs => hashableAll xs
  | .list _ | .set _ => false
  | _ => true

def hashableAll : List (Value α) → Bool
  | [] => true
  | x :: xs => hashable x && hashableAll xs

end

mutual

def WellFormed : Value α → Prop
  | .leaf (.set xs) => hashableAll xs = true
  | .leaf _ => True
  | .dict kvs => (Dict.keys kvs).Nodup ∧ WellFormedEntries kvs

def WellFormedEntries : Entries α → Prop
  | [] => True
  | (_, v) :: rest => WellFormed v ∧ WellFormedEntries rest

end

def member (xs : List (Value α)) (item : Value α) : Bool := xs.any (pyEq item)

def appendNew (xs : List (Value α)) (item : Value α) : List (Value α) :=
  if member xs item then xs else xs ++ [item]

def addAll (xs : List (Value α)) : List (Value α) → List (Value α) × Option StateError
  | [] => (xs, none)
  | item :: rest =>
    if hashable item then addAll (appendNew xs item) rest else (xs, some .typeError)

def ofKey : Key α → Value α
  | .none => .leaf .none
  | .str s => .leaf (.str s)
  | .other a => .leaf (.atom a)

def setOf (r : List (Value α) × Option StateError) : Value α × Option StateError :=
  (.leaf (.set r.1), r.2)

/-- `_set_item` of what is no mapping. `whole` says that the reference cell has no key, so
that it can only be set to a dictionary. -/
def setLeaf (whole : Bool) (held : Value α) (value : Leaf α) : Value α × Option StateError :=
  match held, value with
  | .leaf (.list xs), .list ys => (.leaf (.list (ys.foldl appendNew xs)), none)
  | .leaf (.list xs), .tuple ys => (.leaf (.list (ys.foldl appendNew xs)), none)
  | .leaf (.list xs), value => (.leaf (.list (appendNew xs (.leaf value))), none)
  | .leaf (.set xs), .list ys => setOf (addAll xs ys)
  | .leaf (.set xs), .tuple ys => setOf (addAll xs ys)
  | .leaf (.set xs), .set ys => setOf (addAll xs ys)
  | .leaf (.set xs), value => setOf (addAll xs [.leaf value])
  | held, value => if whole then (held, some .typeError) else (.leaf value, none)

mutual

/-- `_set_item`: what is held where `value` is merged in. -/
def setItem (whole : Bool) (held : Value α) : Value α → Value α × Option StateError
  | .leaf value => setLeaf whole held value
  | .dict new =>
    match held with
    | .dict kvs => ((.dict (setItems kvs new).1), (setItems kvs new).2)
    | .leaf (.list xs) => (.leaf (.list (appendNew xs (.dict new))), none)
    | .leaf (.set xs) => setOf (addAll xs (new.map fun p => ofKey p.1))
    | .leaf _ => (.dict new, none)

/-- The entries of a mapping one by one. The cell of a key that is `None` is the dictionary
itself. -/
def setItems (kvs : Entries α) : Entries α → Entries α × Option StateError
  | [] => (kvs, none)
  | (k, item) :: rest =>
    match Dict.get? kvs k with
    | none => setItems (Dict.set kvs k item) rest
    | some held =>
      if k = .none then
        match setItem true (.dict kvs) item with
        | (.dict kvs, none) => setItems kvs rest
        | (.dict kvs, some e) => (kvs, some e)
        | (.leaf _, e) => (kvs, e)
      else
        match setItem false held item with
        | (v, none) => setItems (Dict.set kvs k v) rest
        | (v, some e) => (Dict.set kvs k v, some e)

end

def pathError (dotPath : String) (walked : List String) : StateError :=
  let parent := String.intercalate "." walked
  .raised s!"Can not set value to path '{dotPath}' because '{parent}' is not a dictionary."

/-- `_set_item_by_dot_path` below the keys `walked`: dictionaries are made on the way, and
`put` is what becomes of the value at the end. -/
def setAt (dotPath : String) (put : Value α → Value α × Option StateError)
    (walked : List String) : List String → Value α → Value α × Option StateError
  | [], v => put v
  | _ :: _, .leaf l => (.leaf l, some (pathError dotPath walked))
  | k :: rest, .dict kvs =>
    let r := setAt dotPath put (walked ++ [k]) rest
      ((Dict.get? kvs (.str k)).getD (.dict []))
    (.dict (Dict.set kvs (.str k) r.1), r.2)

def onRoot (f : Value α → Value α × Option StateError) (data : Entries α) :
    Entries α × Option StateError :=
  match f (.dict data) with
  | (.dict kvs, e) => (kvs, e)
  | (.leaf _, e) => (data, e)

def dotted : Key α → Option String
  | .str s => if isPath s then some s else none
  | _ => none

def updateKey (data : Entries α) (key : Key α) (value : Value α) :
    Entries α × Option StateError :=
  match dotted key with
  | some dotPath =>
    onRoot (setAt dotPath (fun held => setItem false held value) [] (pathOf dotPath)) data
  | none => setItems data [(key, value)]

def update (data : Entries α) : Entries α → Entries α × Option StateError
  | [] => (data, none)
  | (key, value) :: rest =>
    match updateKey data key value with
    | (data, none) => update data rest
    | (data, some e) => (data, some e)

def set (data : Entries α) (key : Key α) (value : Value α) : Entries α × Option StateError :=
  match dotted key with
  | some dotPath => onRoot (setAt dotPath (fun _ => (value, none)) [] (pathOf dotPath)) data
  | none => (Dict.set data key value, none)

omit [DecidableEq α] in
theorem onRoot_dict {f : Value α → Value α × Option StateError} {data kvs : Entries α}
    {e : Option StateError} (h : f (.dict data) = (.dict kvs, e)) :
    onRoot f data = (kvs, e) := by
  rw [onRoot, h]

theorem setAt_dict (dotPath : String) (put : Value α → Value α × Option StateError)
    (walked : List String) (k : String) (rest : List String) (kvs : Entries α) :
    ∃ kvs', (setAt dotPath put walked (k :: rest) (.dict kvs)).1 = .dict kvs' := ⟨_, rfl⟩

theorem get_setAt_self {dotPath : String} {put : Value α → Value α × Option StateError}
    {walked path : List String} {t t' : Value α}
    (h : setAt dotPath put walked path t = (t', none)) :
    ∃ held v, put held = (v, none) ∧ Node.get (path.map Key.str) t' = some v := by
  induction path generalizing walked t t' with
  | nil => exact ⟨t, t', h, Node.get_nil t'⟩
  | cons k rest ih =>
    cases t with
    | leaf l =>
      injection h with _ he
      cases he
    | dict kvs =>
      injection h with ht he
      subst ht
      obtain ⟨held, v, hput, hget⟩ := ih (Prod.ext rfl he)
      refine ⟨held, v, hput, ?_⟩
      rw [List.map_cons, Node.get_cons_set_self]
      exact hget

theorem get_setAt_of_apart (dotPath : String) (put : Value α → Value α × Option StateError)
    (walked : List String) {path : List String} {q : List (Key α)}
    (hq : Node.Apart (path.map Key.str) q) (t : Value α) : Node.get q (setAt dotPath put walked path t).1 = Node.get q t := by
  induction path generalizing walked q t with
  | nil => exact absurd List.nil_prefix hq.1
  | cons k rest ih =>
    cases t with
    | leaf l => rfl
    | dict kvs =>
      cases q with
      | nil => exact absurd List.nil_prefix hq.2
      | cons j qs =>
        rw [setAt]
        by_cases hk : (Key.str k : Key α) = j
        · subst hk
          rw [List.map_cons] at hq
          have hne : qs ≠ [] := by
            rintro rfl
            exact hq.cons.2 List.nil_prefix
          rw [Node.get_cons_set_self, Node.get_cons_getD hne]
          exact ih _ hq.cons _
        · exact Node.get_cons_set_of_ne kvs hk _ qs

theorem setAt_of_fixed {dotPath : String} {put : Value α → Value α × Option StateError}
    {walked path : List String} {t v : Value α} (hget : Node.get (path.map Key.str) t = some v)
    (hput : put v = (v, none)) : setAt dotPath put walked path t = (t, none) := by
  induction path generalizing walked t with
  | nil =>
    rw [List.map_nil, Node.get_nil] at hget
    cases hget
    exact hput
  | cons k rest ih =>
    cases t with
    | leaf l => cases hget
    | dict kvs =>
      cases hk : Dict.get? kvs (Key.str k) with
      | none =>
        rw [List.map_cons, Node.get_cons_of_none _ hk] at hget
        cases hget
      | some n =>
        rw [List.map_cons, Node.get_cons_of_some _ hk] at hget
        rw [setAt, hk, Option.getD_some, ih hget]
        simp only [Dict.set_of_get? hk]

end Agently.StateTree
