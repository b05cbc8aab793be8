import Agently.Lib.NestedDict
import Agently.TriggerFlow.RuntimeData
import Agently.Utils.StateData

/-! # Gates that join signals

Source: `TriggerFlow/process/BaseProcess.py`, and the same gates in `TriggerFlow/BluePrint.py`. A
gate keeps what its signals have brought in the system data of the execution, below the layer of the
signal. Values are opaque: a gate only asks whether a cell is still empty. -/

namespace Agently.TriggerFlow

open Agently.Lib Agently.Utils

/-- What a cell of a gate holds: `EMPTY`, `None`, a flag or the value of a signal. -/
inductive Cell (V : Type) where
  | empty
  | none
  | flag (done : Bool)
  | value (v : V)
  deriving DecidableEq

abbrev GateNode (V : Type) := Node String (Cell V)

abbrev GateState (V : Type) := List (String × GateNode V)

/-- What a gate reads of its signal; `branchId` is the branch of a collecting handler. -/
structure HandlerData (V : Type) where
  triggerType : String := "event"
  triggerEvent : String := ""
  branchId : String := ""
  value : V
  layerMarks : List String := []
  signalMeta : Dict String Value := []

variable {V : Type}

def HandlerData.layerKey (d : HandlerData V) : String :=
  TriggerFlow.layerKey d.layerMarks d.signalMeta

inductive GateError where
  | keyError
  | typeError
  | attributeError
  deriving DecidableEq

/-- The steps in which the gates differ; `emptied` tells whether the state is deleted when the
emission is over. -/
structure JoinGate (V : Type) where
  base : String
  template : GateState V
  listens : HandlerData V → Bool
  put : HandlerData V → GateState V → Except GateError (GateState V)
  complete : GateState V → Except GateError Bool
  firing : GateState V → GateState V
  marksAfter : List String → List String
  emptied : Bool

namespace JoinGate

variable (g : JoinGate V)

def stateKey (d : HandlerData V) : String := g.base ++ "." ++ d.layerKey

def path (d : HandlerData V) : List String := StateData.pathOf (g.stateKey d)

/-- `_system_runtime_data.get(state_key)`, or the template when it is no dictionary. -/
def held (path : List String) (store : GateNode V) : GateState V :=
  match Node.get path store with
  | some (.dict state) => state
  | _ => g.template

/-- The handler up to its emission: what it leaves in the store, and what it emits. -/
def accept (d : HandlerData V) (store : GateNode V) :
    GateNode V × Except GateError (Option (GateState V)) :=
  if g.listens d then
    match g.put d (g.held (g.path d) store) with
    | .error e => (store, .error e)
    | .ok state =>
      match Node.set (g.path d) (.dict state) store with
      | none => (store, .error .typeError)
      | some store =>
        match g.complete state with
        | .error e => (store, .error e)
        | .ok false => (store, .ok none)
        | .ok true => (store, .ok (some (g.firing state)))
  else (store, .ok none)

def finish (d : HandlerData V) (store : GateNode V) : GateNode V :=
  if g.emptied then Node.del (g.path d) store else store

end JoinGate

def isEmptyCell : GateNode V → Bool
  | .leaf .empty => true
  | _ => false

def whenTemplate (values : List (String × List String)) : GateState V :=
  values.map fun p => (p.1, .dict (p.2.map fun event => (event, .leaf .empty)))

def whenPut (d : HandlerData V) (state : GateState V) : Except GateError (GateState V) :=
  match Dict.get? state d.triggerType with
  | none => .ok state
  | some (.leaf _) => .error .typeError
  | some (.dict events) =>
    match Dict.get? events d.triggerEvent with
    | none => .ok state
    | some _ => .ok (Dict.set state d.triggerType
        (.dict (Dict.set events d.triggerEvent (.leaf (.value d.value)))))

def whenComplete : GateState V → Except GateError Bool
  | [] => .ok true
  | (_, .leaf _) :: _ => .error .attributeError
  | (_, .dict events) :: rest =>
    if events.any fun p => isEmptyCell p.2 then .ok false else whenComplete rest

/-- The gate of `when` and of the operator `id` the loader compiles. -/
def whenGate (id : String) (values : List (String × List String)) : JoinGate V where
  base := "when_states." ++ id
  template := whenTemplate values
  listens _ := true
  put := whenPut
  complete := whenComplete
  firing state := state
  marksAfter marks := marks
  emptied := true

def batchTemplate (triggers : List (String × String)) : GateState V :=
  [("results", .dict (triggers.map fun p => (p.2, .leaf .none))),
    ("triggers", .dict (triggers.map fun p => (p.1, .leaf (.flag false))))]

def putIn (field key : String) (cell : Cell V) (state : GateState V) :
    Except GateError (GateState V) :=
  match Dict.get? state field with
  | none => .error .keyError
  | some (.leaf _) => .error .typeError
  | some (.dict entries) => .ok (Dict.set state field (.dict (Dict.set entries key (.leaf cell))))

def batchPut (triggers : List (String × String)) (d : HandlerData V) (state : GateState V) :
    Except GateError (GateState V) :=
  match putIn "results" ((Dict.get? triggers d.triggerEvent).getD "") (.value d.value) state with
  | .error e => .error e
  | .ok state => putIn "triggers" d.triggerEvent (.flag true) state

def isUndone : GateNode V → Bool
  | .leaf (.flag false) => true
  | _ => false

def entriesOf (state : GateState V) (field : String) : GateState V :=
  match Dict.get? state field with
  | some (.dict entries) => entries
  | _ => []

def batchComplete (state : GateState V) : Except GateError Bool :=
  .ok (!(entriesOf state "triggers").any fun p => isUndone p.2)

/-- The gate that waits for all chunks; `triggers` maps the event of a chunk to its name. -/
def batchGate (id : String) (triggers : List (String × String)) : JoinGate V where
  base := "batch_states." ++ id
  template := batchTemplate triggers
  listens d := (Dict.get? triggers d.triggerEvent).isSome
  put := batchPut triggers
  complete := batchComplete
  firing state := entriesOf state "results"
  marksAfter marks := marks.dropLast
  emptied := true

def collectTemplate (branchIds : List String) : GateState V :=
  branchIds.map fun b => (b, .leaf .empty)

def collectComplete (branchIds : List String) (state : GateState V) : Except GateError Bool :=
  .ok (branchIds.all fun b => match Dict.get? state b with
    | some node => !isEmptyCell node
    | none => false)

/-- The gate of `collect`; `thenEmpty` is the mode `"filled_then_empty"`. -/
def collectGate (id : String) (branchIds : List String) (thenEmpty : Bool) : JoinGate V where
  base := "collect_states." ++ id
  template := collectTemplate branchIds
  listens _ := true
  put d state := .ok (Dict.set state d.branchId (.leaf (.value d.value)))
  complete := collectComplete branchIds
  firing state := branchIds.filterMap fun b => (Dict.get? state b).map fun node => (b, node)
  marksAfter marks := marks
  emptied := thenEmpty

end Agently.TriggerFlow
