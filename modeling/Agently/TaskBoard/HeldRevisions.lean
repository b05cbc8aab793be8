import Agently.Lib.ObjectHeap
import Agently.TaskBoard.PatchOperations
import Agently.Utils.IntText

/-! # Patching a revision whose containers are shared

Source: `apply_task_board_patch` and `_next_revision_id`. The lists and dictionaries of the
caller's revision and patch are objects; `dict(..)` copies references. The containers that the
function makes for itself are seen by nobody else before it returns and stand by their contents. -/

namespace Agently.TaskBoard.Held

open Agently.Lib Agently.Lib.ObjectHeap Agently.Utils
open Agently.TaskDAGValidation (Fault typeName get strOf)

inductive Scalar where
  | none
  | bool (b : Bool)
  | int (n : Int)
  | str (s : String)
  | other (text : String)

def Scalar.value : Scalar → Value
  | .none => .none
  | .bool b => .bool b
  | .int n => .int n
  | .str s => .str s
  | .other text => .object text []

def contents : Reading Scalar Value where
  atom := Scalar.value
  list := .list
  tuple := .tuple
  dict := .dict
  missing := .none

abbrev Item := ObjectHeap.Item Scalar

abbrev Entries := ObjectHeap.Entries Scalar

abbrev Objects := ObjectHeap.Objects Scalar

def read (o : Objects) (x : Item) : Value := contents.read o.cells x

def readEntries (o : Objects) (kvs : Entries) : List (String × Value) :=
  kvs.map fun q => (q.1, read o q.2)

def entriesOf (o : Objects) : Item → Entries
  | .object a =>
    match o.cells[a]? with
    | some (.dict kvs) => kvs
    | _ => []
  | .atom _ => []

def field (kvs : Entries) (key : String) : Item := (kvs.get? key).getD (.atom .none)

/-- A revision whose `metadata` holds what the caller's containers hold. `roots` are the
containers the caller's revision consists of. -/
structure HeldRevision (o : Objects) where
  revision : TaskBoardRevision
  roots : List Nat
  metadata : Entries
  present : ∀ root ∈ roots, root < o.cells.length
  inside : ∀ q ∈ metadata, ∀ a, q.2 = .object a → Reaches o.cells roots a
  read : revision.metadata = readEntries o metadata

theorem mapping_read (o : Objects) (x : Item) : mapping (read o x) = readEntries o (entriesOf o x) := by
  cases x with
  | atom s => cases s <;> rfl
  | object a =>
    cases hc : o.cells[a]? with
    | none =>
      have hr : read o (.object a) = .none := contents.read_missing hc
      simp [hr, entriesOf, hc, readEntries, mapping]
    | some c =>
      have hr : read o (.object a) = contents.cell (contents.values o.cells) c :=
        contents.read_object o.ordered hc
      cases c with
      | list xs => simp [hr, entriesOf, hc, readEntries, mapping, contents, Reading.cell]
      | tuple xs => simp [hr, entriesOf, hc, readEntries, mapping, contents, Reading.cell]
      | dict kvs =>
        simp only [hr, entriesOf, hc, Reading.cell]
        rfl

theorem get_read (o : Objects) (kvs : Entries) (key : String) :
    get (readEntries o kvs) key = read o (field kvs key) := by
  unfold TaskDAGValidation.get readEntries field
  rw [Dict.get?_mapVals]
  cases kvs.get? key with
  | none => rfl
  | some x => rfl

theorem revision_metadata {reprOf : Value → String} {fresh : String} {kvs : List (String × Value)}
    {r : TaskBoardRevision} (h : revisionFromValue reprOf fresh (.dict kvs) = .ok r) :
    r.metadata = mapping (get kvs "metadata") := by
  simp only [revisionFromValue] at h
  split at h
  · cases h
  · split at h
    · cases h
    · split at h
      · split at h
        · cases h
        · cases h
          rfl
      · cases h

theorem revision_dict {reprOf : Value → String} {fresh : String} {v : Value} {r : TaskBoardRevision}
    (h : revisionFromValue reprOf fresh v = .ok r) : v = .dict (mapping v) := by
  cases v with
  | dict kvs => rfl
  | _ => cases h

theorem object_of_dict {o : Objects} {x : Item} {kvs : List (String × Value)}
    (h : read o x = .dict kvs) :
    ∃ a es, x = .object a ∧ o.cells[a]? = some (.dict es) ∧ entriesOf o x = es := by
  cases x with
  | atom s => cases s <;> cases h
  | object a =>
    cases hc : o.cells[a]? with
    | none =>
      have hr : read o (.object a) = .none := contents.read_missing hc
      rw [hr] at h
      cases h
    | some c =>
      rw [read, contents.read_object o.ordered hc] at h
      cases c with
      | list xs => cases h
      | tuple xs => cases h
      | dict es => exact ⟨a, es, rfl, hc, by simp [entriesOf, hc]⟩

theorem holds_of_entry {o : Objects} {a b : Nat} {q : String × Item}
    (hq : q ∈ entriesOf o (.object a)) (hb : q.2 = .object b) : ObjectHeap.Holds o.cells a b := by
  simp only [entriesOf] at hq
  split at hq
  · rename_i es hes
    refine ⟨.dict es, hes, ?_⟩
    exact List.mem_filterMap.mpr ⟨q.2, List.mem_map_of_mem hq, by rw [hb]; rfl⟩
  · cases hq

theorem reaches_entry {o : Objects} {a : Nat} {key : String} {q : String × Item}
    (hq : q ∈ entriesOf o (field (entriesOf o (.object a)) key)) {b : Nat} (hb : q.2 = .object b) :
    Reaches o.cells [a] b := by
  have hroot : Reaches o.cells [a] a := ⟨a, List.mem_singleton_self a, .refl⟩
  cases hf : field (entriesOf o (.object a)) key with
  | atom s =>
    rw [hf] at hq
    cases hq
  | object m =>
    rw [hf] at hq
    have hget : (entriesOf o (.object a)).get? key = some (.object m) := by
      unfold field at hf
      cases hg : (entriesOf o (.object a)).get? key with
      | none =>
        rw [hg] at hf
        cases hf
      | some x =>
        rw [hg] at hf
        exact congrArg some hf
    have hm : ObjectHeap.Holds o.cells a m := holds_of_entry (Dict.mem_of_get? hget) rfl
    exact (hroot.held hm).held (holds_of_entry hq hb)

section Reading

variable (reprOf : Value → String) (fresh : String)

def revisionFromMapping (o : Objects) (x : Item) : Except Fault (HeldRevision o) :=
  match h : revisionFromValue reprOf fresh (read o x) with
  | .error e => .error e
  | .ok revision => .ok
      { revision := revision
        roots := x.address?.toList
        metadata := entriesOf o (field (entriesOf o x) "metadata")
        present := by
          obtain ⟨a, es, rfl, hc, -⟩ := object_of_dict (revision_dict h)
          intro root hroot
          rw [List.mem_singleton.mp hroot]
          exact (List.getElem?_eq_some_iff.mp hc).1
        inside := by
          obtain ⟨a, es, rfl, -, -⟩ := object_of_dict (revision_dict h)
          intro q hq b hb
          exact reaches_entry hq hb
        read := by
          have hd := revision_dict h
          rw [hd] at h
          rw [revision_metadata h, mapping_read, get_read, mapping_read] }

/-- The revision `apply_task_board_patch` is given. -/
inductive RevisionArgument (o : Objects) where
  | object (r : HeldRevision o)
  | mapping (x : Item)

def RevisionArgument.revision {o : Objects} : RevisionArgument o → Except Fault (HeldRevision o)
  | .object r => .ok r
  | .mapping x => revisionFromMapping reprOf fresh o x

/-- A patch; each operation is a dictionary of the references the caller's one holds. -/
structure HeldPatch where
  baseRevision : String
  operations : List Entries
  patchId : String
  source : String := "task_board"
  diagnostics : List (List (String × Value)) := []
  evidenceRefs : List (List (String × Value)) := []

def HeldPatch.read (o : Objects) (p : HeldPatch) : TaskBoardPatch where
  baseRevision := p.baseRevision
  operations := p.operations.map (readEntries o)
  patchId := p.patchId
  source := p.source
  diagnostics := p.diagnostics
  evidenceRefs := p.evidenceRefs

def operationOf (o : Objects) (x : Item) : Entries :=
  match Held.read o x with
  | .dict _ => entriesOf o x
  | v => [("op", .atom (.str (strOf reprOf v)))]

def itemsOf (o : Objects) : Item → List Item
  | .object a =>
    match o.cells[a]? with
    | some (.list xs) | some (.tuple xs) => xs
    | _ => []
  | .atom _ => []

def patchFromMapping (o : Objects) (x : Item) : Except Fault HeldPatch :=
  match Held.read o x with
  | .dict kvs =>
    match patchFromValue reprOf fresh kvs with
    | .error e => .error e
    | .ok p => .ok
        { baseRevision := p.baseRevision
          operations := (itemsOf o (field (entriesOf o x) "operations")).map (operationOf reprOf o)
          patchId := p.patchId
          source := p.source
          diagnostics := p.diagnostics
          evidenceRefs := p.evidenceRefs }
  | v => .error (.typeError ("TaskBoardPatch must be a mapping or TaskBoardPatch, got: <class '" ++
      typeName v ++ "'>."))

inductive PatchArgument where
  | object (p : HeldPatch)
  | mapping (x : Item)

def PatchArgument.patch (o : Objects) : PatchArgument → Except Fault HeldPatch
  | .object p => .ok p
  | .mapping x => patchFromMapping reprOf fresh o x

end Reading

/-- The locals of `apply_task_board_patch`: what they contain, and the references in the
dictionary `metadata`. -/
structure Locals where
  contents : Patching
  metadata : Entries

section Patch

variable (reprOf : Value → String) (o : Objects)

def updateMetadata (metadata value : Entries) : Entries :=
  value.foldl (fun m q => Dict.set m q.1 q.2) metadata

/-- The references in `metadata` after an operation. -/
def metadataStep (metadata operation : Entries) : Entries :=
  if operationName reprOf (readEntries o operation) = "update_metadata" then
    updateMetadata metadata (entriesOf o (field operation "metadata"))
  else metadata

def Locals.apply (l : Locals) (operation : Entries) : Except Fault Locals :=
  match l.contents.apply reprOf (readEntries o operation) with
  | .error e => .error e
  | .ok contents => .ok ⟨contents, metadataStep reprOf o l.metadata operation⟩

def Locals.applyAll : Locals → List Entries → Except Fault Locals
  | l, [] => .ok l
  | l, operation :: rest =>
    match l.apply reprOf o operation with
    | .error e => .error e
    | .ok l => Locals.applyAll l rest

/-- `list(..)`, `dict(..)` and the like of what the revision holds. -/
def Locals.start (r : HeldRevision o) : Locals where
  contents := Patching.start r.revision
  metadata := r.metadata

/-- `metadata.setdefault("applied_patches", [])` and, where that is a list, the `append`. -/
def notePatch (metadata : Entries) (patchId : String) : Heap Scalar × Entries :=
  match metadata.get? "applied_patches" with
  | none =>
    (o.cells ++ [.list [.atom (.str patchId)]],
      metadata ++ [("applied_patches", .object o.cells.length)])
  | some (.object a) =>
    match o.cells[a]? with
    | some (.list xs) => (o.cells.set a (.list (xs ++ [.atom (.str patchId)])), metadata)
    | _ => (o.cells, metadata)
  | some (.atom _) => (o.cells, metadata)

end Patch

/-- `_next_revision_id`; `isdigit` knows digits that `int()` refuses. -/
def nextRevisionId (fresh revisionId : String) : Except Fault String :=
  match revisionId.toList with
  | 'r' :: 'e' :: 'v' :: '-' :: suffix =>
    if IntText.isdigit suffix then
      match IntText.intOf suffix with
      | some n => .ok ("rev-" ++ String.ofList (IntText.natText (n.toNat + 1)))
      | none => raise ("invalid literal for int() with base 10: '" ++ String.ofList suffix ++ "'")
    else .ok ("rev-" ++ fresh)
  | _ => .ok ("rev-" ++ fresh)

/-- The revision that is returned, and the references its `metadata` holds. -/
structure Returned where
  revision : TaskBoardRevision
  metadata : Entries

structure DrawnIds where
  boardRevision : String
  patch : String
  nextRevision : String

section Apply

variable (reprOf : Value → String) (fresh : DrawnIds) (o : Objects)

/-- `normalized.next_revision(..)` with the metadata as it reads after the note. -/
def nextOf (r : HeldRevision o) (p : HeldPatch) (left : Patching) (revisionId : String)
    (noted : Heap Scalar × Entries) : TaskBoardRevision :=
  { r.revision.patched (p.read o) left fresh.nextRevision with
    revisionId := revisionId
    metadata := contents.entries (contents.values noted.1) noted.2 }

/-- The end of the function: the note in `metadata`, the next revision and its validation. -/
def finish (r : HeldRevision o) (p : HeldPatch) (l : Locals) :
    Heap Scalar × Except Fault Returned :=
  let noted := notePatch o l.metadata p.patchId
  match nextRevisionId fresh.nextRevision r.revision.revisionId with
  | .error e => (noted.1, .error e)
  | .ok revisionId =>
    let next := nextOf fresh o r p l.contents revisionId noted
    match validateTaskBoardRevision next with
    | .error e => (noted.1, .error e)
    | .ok () => (noted.1, .ok ⟨next, noted.2⟩)

def applyPatch (r : HeldRevision o) (p : HeldPatch) : Heap Scalar × Except Fault Returned :=
  if p.baseRevision ≠ r.revision.revisionId then
    (o.cells, raise ("TaskBoardPatch base_revision mismatch: expected '" ++ r.revision.revisionId ++
      "', got '" ++ p.baseRevision ++ "'."))
  else
    match (Locals.start o r).applyAll reprOf o p.operations with
    | .error e => (o.cells, .error e)
    | .ok l => finish fresh o r p l

def applyTaskBoardPatch (revision : RevisionArgument o) (patch : PatchArgument) :
    Heap Scalar × Except Fault Returned :=
  match revision.revision reprOf fresh.boardRevision with
  | .error e => (o.cells, .error e)
  | .ok r =>
    match validateTaskBoardRevision r.revision with
    | .error e => (o.cells, .error e)
    | .ok () =>
      match patch.patch reprOf fresh.patch o with
      | .error e => (o.cells, .error e)
      | .ok p => applyPatch reprOf fresh o r p

end Apply

end Agently.TaskBoard.Held
