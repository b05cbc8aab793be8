import Agently.Lib.Machine
import Agently.TriggerFlow.Signal
import Mathlib.Data.List.Sort

/-! # The intervention ledger

Source: `TriggerFlow/Execution.py`, `TriggerFlow/ExecutionPersistence.py`. An intervention is
appended as pending, inserted at an intervention point, marked by its consumers and expired at
close. Every write happens under a lock whose body does not await, so it is one step; only a
custom policy is awaited between the look at the pending records and the insertion. -/

namespace Agently.TriggerFlow.Intervention

open Agently.Lib Agently.Utils

inductive Mode where
  | planned | auto
  deriving DecidableEq

inductive RecordStatus where
  | pending | inserted | expired
  deriving DecidableEq

structure Operator where
  id : String
  name : Option String := none
  kind : String
  groupId : Option String := none
  groupKind : Option String := none

structure Insertion where
  mode : Mode
  operator : Option Operator
  signal : Value
  insertedAt : Nat
  policy : Option String

inductive ConsumptionStatus where
  | applied | ignored
  deriving DecidableEq

structure Consumption where
  status : ConsumptionStatus
  note : Option String
  metaValue : Value
  consumedAt : Nat

structure Record where
  id : String
  version : Nat
  status : RecordStatus := .pending
  payload : Value
  target : Option String
  author : Option String
  note : Option String
  metaValue : Value
  createdAt : Nat
  insertedAt : Option Nat := none
  insertion : Option Insertion := none
  expiredAt : Option Nat := none
  consumers : Dict String Consumption := []

abbrev Records := Dict String Record

/-- The fields of an execution the ledger code reads and writes; a custom policy is a
callable the execution was given. -/
structure Ledger where
  mode : Option Mode
  customPolicy : Bool
  policyName : Option String
  lifecycleOpen : Bool
  version : Nat
  records : Records

inductive InterventionError where
  | disabled
  | lifecycle
  | notFound (interventionId : String)
  | emptyConsumer

def sortedInterventionRecords (records : Records) : List Record :=
  records.vals.insertionSort fun a b => a.version ≤ b.version

def getPendingInterventions (records : Records) : List Record :=
  (sortedInterventionRecords records).filter fun r => r.status = .pending

def interventionMatchesTarget (interventionTarget target : Option String) : Bool :=
  match target with
  | none => interventionTarget.isNone
  | some t => decide (interventionTarget = some t)

def strOf : Option String → String
  | some s => s
  | none => "None"

def operatorMatchesInterventionTarget (operator : Operator) (target : Option String) : Bool :=
  match target with
  | none => false
  | some t =>
    decide (t ∈ [operator.id, strOf operator.name, operator.kind, strOf operator.groupId,
      strOf operator.groupKind])

/-- A place where interventions are inserted: an intervention point of the flow, or an
operator about to be dispatched. -/
inductive Point where
  | planned (target : Option String)
  | auto (operator : Operator)

/-- The point takes an intervention addressed to `interventionTarget`. -/
def Point.selects : Point → Option String → Bool
  | .planned target, interventionTarget => interventionMatchesTarget interventionTarget target
  | .auto operator, interventionTarget =>
    operatorMatchesInterventionTarget operator interventionTarget ||
      (interventionTarget.isNone && decide (operator.kind = "chunk"))

/-- The ids `_async_insert_planned_interventions` and `_builtin_auto_intervention_ids` choose. -/
def selectedIds (records : Records) (point : Point) : List String :=
  ((getPendingInterventions records).filter fun r => point.selects r.target).map Record.id

structure InterveneArgs where
  payload : Value := .none
  author : Option String := none
  note : Option String := none
  target : Option String := none
  metaValue : Value := .dict []

def pendingRecord (l : Ledger) (args : InterveneArgs) (freshId : String) (now : Nat) : Record :=
  { id := freshId
    version := l.version + 1
    payload := args.payload.serializable
    target := args.target
    author := args.author
    note := args.note
    metaValue := args.metaValue.serializable
    createdAt := now }

def intervene (l : Ledger) (args : InterveneArgs) (freshId : String) (now : Nat) :
    Except InterventionError Ledger :=
  if l.mode = none then .error .disabled
  else if l.lifecycleOpen = false then .error .lifecycle
  else .ok { l with
    version := l.version + 1
    records := l.records.set freshId (pendingRecord l args freshId now) }

def Record.insert (insertion : Insertion) (r : Record) : Record :=
  { r with
    status := .inserted, insertedAt := some insertion.insertedAt, insertion := some insertion }

/-- The loop of `_async_insert_interventions`: the ledger and the ids it inserted. -/
def insertEach (insertion : Insertion) : List String → Records → Records × List String
  | [], records => (records, [])
  | id :: rest, records =>
    match records.get? id with
    | some r =>
      if r.status = .pending then
        let next := insertEach insertion rest (records.set id (r.insert insertion))
        (next.1, id :: next.2)
      else insertEach insertion rest records
    | none => insertEach insertion rest records

def Record.consume (consumer : String) (consumption : Consumption) (r : Record) : Record :=
  { r with consumers := r.consumers.set consumer consumption }

def markInterventionConsumed (l : Ledger) (interventionId consumer : String)
    (consumption : Consumption) : Except InterventionError Ledger :=
  if consumer = "" then .error .emptyConsumer
  else match l.records.get? interventionId with
    | none => .error (.notFound interventionId)
    | some r => .ok { l with records := l.records.set interventionId (r.consume consumer consumption) }

def Record.expire (now : Nat) (r : Record) : Record :=
  if r.status = .pending then { r with status := .expired, expiredAt := some now } else r

def expirePending (records : Records) (now : Nat) : Records :=
  records.map fun e => (e.1, e.2.expire now)

def restoredVersion (saved : Ledger) : Nat :=
  saved.records.vals.foldl (fun m r => max m r.version) saved.version

/-- `load`: a callable is not saved, so the policy is the one the loading execution was
given, and its name the saved one if it was given none. -/
def restore (saved : Ledger) (policy : Option String) : Ledger :=
  { saved with
    customPolicy := policy.isSome
    policyName := policy <|> saved.policyName
    version := restoredVersion saved }

structure Asked where
  operator : Operator
  signal : Value

inductive Event where
  | appended (id : String) (version : Nat) (target : Option String)
  | reached (point : Point) (inserted : List String)
  | answered (inserted : List String)
  | expired (ids : List String)

/-- The execution with its history, newest first, and the snapshots that were saved, each
with the history up to it. A load goes back to the history of its snapshot. -/
structure State where
  ledger : Ledger
  asked : List Asked
  log : List Event
  saved : List (Ledger × List Event)

inductive Action where
  | intervene (args : InterveneArgs) (freshId : String) (now : Nat)
  | reachPoint (target : Option String) (operator : Option Operator) (signal : Value) (now : Nat)
  | dispatch (operator : Option Operator) (signal : Value) (now : Nat)
  | answer (index : Nat) (ids : Option (List String)) (now : Nat)
  | consume (interventionId consumer : String) (consumption : Consumption)
  | expire (now : Nat)
  | setLifecycle (isOpen : Bool)
  | save
  | load (index : Nat) (policy : Option String)

def insertInterventions (s : State) (ids : List String) (insertion : Insertion)
    (event : List String → Event) : State :=
  let next := insertEach insertion ids s.ledger.records
  { s with
    ledger := { s.ledger with records := next.1 }
    log := event next.2 :: s.log }

def reachPoint (s : State) (target : Option String) (operator : Option Operator) (signal : Value)
    (now : Nat) : State :=
  if s.ledger.mode = some .planned then
    insertInterventions s (selectedIds s.ledger.records (.planned target))
      { mode := .planned, operator := operator, signal := signal, insertedAt := now, policy := none }
      (.reached (.planned target))
  else s

/-- `_async_apply_auto_interventions` up to the answer of a custom policy. -/
def applyAuto (s : State) (operator : Operator) (signal : Value) (now : Nat) : State :=
  if s.ledger.mode = some .auto then
    if s.ledger.customPolicy then
      if getPendingInterventions s.ledger.records = [] then s
      else { s with asked := s.asked ++ [⟨operator, signal⟩] }
    else
      insertInterventions s (selectedIds s.ledger.records (.auto operator))
        { mode := .auto, operator := some operator, signal := signal, insertedAt := now,
          policy := s.ledger.policyName }
        (.reached (.auto operator))
  else s

/-- The answer of a custom policy; `none` when it raised. -/
def answerPolicy (s : State) (index : Nat) (ids : Option (List String)) (now : Nat) :
    Option State :=
  match s.asked[index]? with
  | none => none
  | some asked =>
    let rest := { s with asked := s.asked.eraseIdx index }
    match ids with
    | none => some rest
    | some ids => some (insertInterventions rest ids
        { mode := .auto, operator := some asked.operator, signal := asked.signal,
          insertedAt := now, policy := s.ledger.policyName }
        .answered)

def State.after (s : State) (event : List Event) : Except InterventionError Ledger → State
  | .ok l => { s with ledger := l, log := event ++ s.log }
  | .error _ => s

def pendingIds (records : Records) : List String :=
  (records.filter fun e => e.2.status = .pending).map Prod.fst

def step (s : State) : Action → Option State
  | .intervene args freshId now =>
    if freshId ∈ s.ledger.records.keys then none
    else some (s.after [.appended freshId (s.ledger.version + 1) args.target]
      (intervene s.ledger args freshId now))
  | .reachPoint target operator signal now => some (reachPoint s target operator signal now)
  | .dispatch none _ _ => some s
  | .dispatch (some operator) signal now => some (applyAuto s operator signal now)
  | .answer index ids now => answerPolicy s index ids now
  | .consume interventionId consumer consumption =>
    some (s.after [] (markInterventionConsumed s.ledger interventionId consumer consumption))
  | .expire now => some
      { s with
        ledger := { s.ledger with records := expirePending s.ledger.records now }
        log := .expired (pendingIds s.ledger.records) :: s.log }
  | .setLifecycle isOpen => some { s with ledger := { s.ledger with lifecycleOpen := isOpen } }
  | .save => some { s with saved := s.saved ++ [(s.ledger, s.log)] }
  | .load index policy =>
    s.saved[index]?.map fun e => { s with ledger := restore e.1 policy, log := e.2 }

def machine : Machine State Action := ⟨step⟩

def resolvePolicyName (mode : Option Mode) (policy : Option String) : Option String :=
  match policy with
  | some name => some name
  | none => if mode = some .auto then some "builtin" else none

def start (mode : Option Mode) (policy : Option String) : State :=
  { ledger :=
      { mode := mode, customPolicy := policy.isSome, policyName := resolvePolicyName mode policy,
        lifecycleOpen := true, version := 0, records := [] }
    asked := []
    log := []
    saved := [] }

end Agently.TriggerFlow.Intervention
