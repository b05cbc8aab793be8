import Mathlib
import Agently.Utils.StateTree

/-! # Operations on state data and through a namespace

Source: `StateData.pop`, `clear`, `__delitem__`, `append` and `extend`, and the class
`StateDataNamespace` of `utils/StateData.py`. A namespace names its keys in the root by
`f"{namespace}.{key}"`, but for the methods that use the namespace as one root key. -/

namespace Agently.StateTree

open Agently.Lib
open Agently.Utils.StateData (pathOf isPath)

variable {α : Type} [DecidableEq α]

/-- `path in current` of what is no dictionary, if it has an answer. -/
def containsPart : Leaf α → String → Option Bool
  | .none, _ | .atom _, _ => none
  | .str s, part => some (part.toList <:+: s.toList)
  | .tuple xs, part | .list xs, part | .set xs, part => some (member xs (.leaf (.str part)))

/-- `_get_item_by_dot_path` without parents. -/
def itemAt : List String → Value α → Except StateError (Value α)
  | [], v => .ok v
  | k :: rest, .dict kvs =>
    match Dict.get? kvs (.str k) with
    | some v => itemAt rest v
    | none => .ok (.leaf .none)
  | k :: _, .leaf l =>
    match containsPart l k with
    | some false => .ok (.leaf .none)
    | _ => .error .typeError

/-- `get(key, inherit=False)`; a stored `None` is not told from no value. -/
def getLocal (data : Entries α) (key : Key α) : Option (Value α) :=
  let found := match dotted key with
    | some dotPath => Node.get ((pathOf dotPath).map Key.str) (.dict data)
    | none => Dict.get? data key
  match found with
  | some (.leaf .none) => none
  | found => found

def delete (data : Entries α) (key : Key α) : Entries α :=
  match dotted key with
  | some dotPath =>
    match Node.del ((pathOf dotPath).map Key.str) (.dict data) with
    | .dict kvs => kvs
    | .leaf _ => data
  | none => Dict.del data key

/-- `pop`: what is left, and what is taken out if it is not the default. -/
def pop (data : Entries α) (key : Key α) : Entries α × Option (Value α) :=
  match dotted key with
  | some _ =>
    match getLocal data key with
    | some v => (delete data key, some v)
    | none => (data, none)
  | none => (Dict.del data key, Dict.get? data key)

def current (data : Entries α) (key : Key α) : Except StateError (Value α) :=
  match dotted key with
  | some dotPath => itemAt (pathOf dotPath) (.dict data)
  | none => .ok ((Dict.get? data key).getD (.leaf .none))

/-- `_set_item_by_dot_path` with `cover`, of any key. -/
def cover (data : Entries α) (key : Key α) (value : Value α) : Entries α × Option StateError :=
  match key with
  | .str dotPath => onRoot (setAt dotPath (fun _ => (value, none)) [] (pathOf dotPath)) data
  | _ => (data, some .attributeError)

def joined (held : Value α) (values : List (Value α)) : Value α :=
  match held with
  | .leaf .none => .leaf (.list values)
  | .leaf (.list xs) => .leaf (.list (xs ++ values))
  | held => .leaf (.list (held :: values))

def append (data : Entries α) (key : Key α) (value : Value α) : Entries α × Option StateError :=
  match current data key with
  | .error e => (data, some e)
  | .ok (.leaf (.set xs)) =>
    match addAll xs [value] with
    | (xs, none) => cover data key (.leaf (.set xs))
    | (_, some e) => (data, some e)
  | .ok held => set data key (joined held [value])

def extend (data : Entries α) (key : Key α) (values : List (Value α)) :
    Entries α × Option StateError :=
  match current data key with
  | .error e => (data, some e)
  | .ok held => set data key (joined held values)

inductive Op (α : Type) where
  | set (key : Key α) (value : Value α)
  | update (new : Entries α)
  | append (key : Key α) (value : Value α)
  | extend (key : Key α) (values : List (Value α))
  | delete (key : Key α)
  | delItem (key : Key α)
  | pop (key : Key α)
  | clear

structure Effect (α : Type) where
  data : Entries α
  popped : Option (Value α)
  error : Option StateError

def writes (r : Entries α × Option StateError) : Effect α := ⟨r.1, none, r.2⟩

def takes (r : Entries α × Option (Value α)) : Effect α := ⟨r.1, r.2, none⟩

def step (data : Entries α) : Op α → Effect α
  | .set key value => writes (set data key value)
  | .update new => writes (update data new)
  | .append key value => writes (append data key value)
  | .extend key values => writes (extend data key values)
  | .delete key | .delItem key => writes (delete data key, none)
  | .pop key => takes (pop data key)
  | .clear => writes ([], none)

section Namespace

variable (textOf : α → String) (ns : String)

def nsKey (key : Key α) : Key α :=
  .str (ns ++ "." ++ match key with
    | .none => "None"
    | .str s => s
    | .other a => textOf a)

def nsSet (data : Entries α) (key : Key α) (value : Value α) : Entries α × Option StateError :=
  match dotted key, getLocal data (.str ns) with
  | none, none => set (Dict.set data (.str ns) (.dict [])) (nsKey textOf ns key) value
  | _, _ => set data (nsKey textOf ns key) value

def nsUpdate (data : Entries α) : Entries α → Entries α × Option StateError
  | [] => (data, none)
  | (key, value) :: rest =>
    match update data [(nsKey textOf ns key, value)] with
    | (data, none) => nsUpdate data rest
    | (data, some e) => (data, some e)

def nsPut (data left : Entries α) : Entries α :=
  match Node.set ((pathOf ns).map Key.str) (.dict left) (.dict data) with
  | some (.dict kvs) => Dict.set kvs (.str ns) (.dict left)
  | _ => data

def nsDelItem (data : Entries α) (key : Key α) : Entries α :=
  match dotted key, getLocal data (.str ns) with
  | some _, _ => delete data (nsKey textOf ns key)
  | none, some (.dict held) =>
    if key ∈ Dict.keys held then nsPut ns data (Dict.del held key) else data
  | none, _ => data

def nsPop (data : Entries α) (key : Key α) : Entries α × Option (Value α) :=
  match dotted key, getLocal data (.str ns) with
  | some _, _ => pop data (nsKey textOf ns key)
  | none, some (.dict held) =>
    match Dict.get? held key with
    | some v => (nsPut ns data (Dict.del held key), some v)
    | none => (data, none)
  | none, _ => (data, none)

def nsStep (data : Entries α) : Op α → Effect α
  | .set key value => writes (nsSet textOf ns data key value)
  | .update new => writes (nsUpdate textOf ns data new)
  | .append key value => writes (append data (nsKey textOf ns key) value)
  | .extend key values => writes (extend data (nsKey textOf ns key) values)
  | .delete key => writes (delete data (nsKey textOf ns key), none)
  | .delItem key => writes (nsDelItem textOf ns data key, none)
  | .pop key => takes (nsPop textOf ns data key)
  | .clear => writes (Dict.set data (.str ns) (.dict []), none)

end Namespace

end Agently.StateTree
