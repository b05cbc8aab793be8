import Mathlib.Data.List.Sort
import Agently.Lib.Machine
import Agently.Storage.LocalRecordStore
import Agently.Utils.Conversions

/-! # The runtime events of executions

Source: `storage/LocalRecordStore.py` (`append_runtime_event`, `query_runtime_events`). A call
resolves its references with awaits, waits for the store's lock, and does the rest in one step
under the lock. -/

namespace Agently.Storage.RuntimeEvents

open Agently.Lib Agently.Utils Agently.Storage.LocalRecordStore

/-- The columns a call may name and `meta` of the event may fill in. -/
structure Lineage (α : Type) where
  parent_id : α
  causation_id : α
  parent_signal_id : α
  node_id : α
  operator_id : α
  interrupt_id : α
  resume_request_id : α
  actor_id : α
  lease_owner_id : α
  aggregation_scope : α

/-- A row of the table `runtime_events`; what is JSON text there is the value here. -/
structure EventRow where
  id : String
  execution_id : String
  sequence : Int
  event_id : String
  event_type : String
  state_version : Option Int
  idempotency_key : Option String
  lineage : Lineage (Option String)
  snapshot_ref : Option Json
  exchange_id : Option String
  artifact_refs : List Json
  event : List (String × Json)
  created_at : String
  persisted_at : Option String

structure Store extends Database where
  runtime_events : Option (List EventRow) := none

def Store.rows (s : Store) : List EventRow := s.runtime_events.getD []

/-- The arguments of a call; `Ref` are the references it passes. `event` is what
`model_dump` or `dict(event)` gives, with every leaf as JSON writes it. -/
structure Append (Ref : Type) where
  execution_id : String
  event : List (String × Json)
  sequence : Option Int := none
  expected_sequence : Option Int := none
  idempotency_key : Option String := none
  snapshot_ref : Option Ref := none
  artifact_refs : List Ref := []
  exchange_id : Option String := none
  state_version : Option Int := none
  lineage : Lineage (Option String)

structure Prepared where
  execution_id : String
  event_data : List (String × Json)
  sequence : Option Int
  expected_sequence : Option Int
  idempotency_key : Option String
  resolved_snapshot : Option Json
  resolved_artifacts : List Json
  exchange_id : Option String
  state_version : Option Int
  lineage : Lineage (Option String)

/-- What `uuid4` and the clock give under the lock. -/
structure Drawn where
  record_uuid : String
  event_uuid : String
  created_at : String
  persisted_at : String

/-- `_sanitize`: the value as it is written to JSON, with sorted keys, and read back. -/
def sanitize (event : List (String × Json)) : List (String × Json) :=
  Json.sortKeys (Json.normalEntries event)

/-- The call after its awaits; a reference that can not be found is dropped. -/
def prepare {Ref : Type} (call : Append Ref) (snapshot : Option Json)
    (artifacts : List (Option Json)) : Prepared :=
  { execution_id := call.execution_id
    event_data := sanitize call.event
    sequence := call.sequence
    expected_sequence := call.expected_sequence
    idempotency_key := call.idempotency_key
    resolved_snapshot := snapshot
    resolved_artifacts := artifacts.filterMap id
    exchange_id := call.exchange_id
    state_version := call.state_version
    lineage := call.lineage }

def nonempty (text : Option String) : Option String :=
  if text = some "" then none else text

def row_to_runtime_event (row : EventRow) : EventRow :=
  { row with
    idempotency_key := nonempty row.idempotency_key
    lineage :=
      { parent_id := nonempty row.lineage.parent_id
        causation_id := nonempty row.lineage.causation_id
        parent_signal_id := nonempty row.lineage.parent_signal_id
        node_id := nonempty row.lineage.node_id
        operator_id := nonempty row.lineage.operator_id
        interrupt_id := nonempty row.lineage.interrupt_id
        resume_request_id := nonempty row.lineage.resume_request_id
        actor_id := nonempty row.lineage.actor_id
        lease_owner_id := nonempty row.lineage.lease_owner_id
        aggregation_scope := nonempty row.lineage.aggregation_scope }
    exchange_id := nonempty row.exchange_id
    persisted_at := nonempty row.persisted_at }

section Host

-- Python's conversions, and the text SQLite stores for a float in a text column
variable (b : Builtins) (textOfFloat : FloatText → String)

def bind_text : Json → Except StoreError (Option String)
  | .null => .ok none
  | .bool x => .ok (some (if x then "1" else "0"))
  | .int n => (bind_int n).map fun n => some (toString n)
  | .float f => .ok (some (textOfFloat f))
  | .str s => .ok (some s)
  | .arr _ => .error .bindingError
  | .obj _ => .error .bindingError

def textOf : Option String → Json
  | none => .null
  | some s => .str s

def from_meta (argument : Option String) (meta_ : List (String × Json)) (key : String) : Json :=
  b.orElse (textOf argument) ((Dict.get? meta_ key).getD .null)

def lineage_values (args : Lineage (Option String)) (meta_ : List (String × Json)) :
    Lineage Json :=
  { parent_id := b.orElse (from_meta b args.parent_id meta_ "parent_event_id")
      ((Dict.get? meta_ "parent_id").getD .null)
    causation_id := from_meta b args.causation_id meta_ "causation_id"
    parent_signal_id := from_meta b args.parent_signal_id meta_ "parent_signal_id"
    node_id := from_meta b args.node_id meta_ "node_id"
    operator_id := from_meta b args.operator_id meta_ "operator_id"
    interrupt_id := from_meta b args.interrupt_id meta_ "interrupt_id"
    resume_request_id := from_meta b args.resume_request_id meta_ "resume_request_id"
    actor_id := from_meta b args.actor_id meta_ "actor_id"
    lease_owner_id := from_meta b args.lease_owner_id meta_ "lease_owner_id"
    aggregation_scope := from_meta b args.aggregation_scope meta_ "aggregation_scope" }

def bind_lineage (l : Lineage Json) : Except StoreError (Lineage (Option String)) := do
  let parent_id ← bind_text textOfFloat l.parent_id
  let causation_id ← bind_text textOfFloat l.causation_id
  let parent_signal_id ← bind_text textOfFloat l.parent_signal_id
  let node_id ← bind_text textOfFloat l.node_id
  let operator_id ← bind_text textOfFloat l.operator_id
  let interrupt_id ← bind_text textOfFloat l.interrupt_id
  let resume_request_id ← bind_text textOfFloat l.resume_request_id
  let actor_id ← bind_text textOfFloat l.actor_id
  let lease_owner_id ← bind_text textOfFloat l.lease_owner_id
  let aggregation_scope ← bind_text textOfFloat l.aggregation_scope
  pure { parent_id, causation_id, parent_signal_id, node_id, operator_id, interrupt_id,
         resume_request_id, actor_id, lease_owner_id, aggregation_scope }

def meta_of (event_data : List (String × Json)) : List (String × Json) :=
  match Dict.get? event_data "meta" with
  | some (.obj kvs) => kvs
  | _ => []

/-- `str(event_data.get(key) or default)`. -/
def text_field (event_data : List (String × Json)) (key default_ : String) : String :=
  b.pyStr (b.orElse ((Dict.get? event_data key).getD .null) (.str default_))

def bind_optional_int : Option Int → Except StoreError (Option Int)
  | none => .ok none
  | some n => (bind_int n).map some

def bind_row (call : Prepared) (sequence : Int) (drawn : Drawn) : Except StoreError EventRow := do
  let sequence ← bind_int sequence
  let state_version ← bind_optional_int call.state_version
  let lineage ← bind_lineage textOfFloat
    (lineage_values b call.lineage (meta_of call.event_data))
  pure
    { id := "evt_" ++ drawn.record_uuid
      execution_id := call.execution_id
      sequence := sequence
      event_id := text_field b call.event_data "event_id" drawn.event_uuid
      event_type := text_field b call.event_data "event_type" "runtime.event"
      state_version := state_version
      idempotency_key := call.idempotency_key
      lineage := lineage
      snapshot_ref := call.resolved_snapshot
      exchange_id := call.exchange_id
      artifact_refs := call.resolved_artifacts
      event := call.event_data
      created_at := drawn.created_at
      persisted_at := some drawn.persisted_at }

def clashes (row other : EventRow) : Bool :=
  row.id = other.id ||
    row.execution_id = other.execution_id &&
      (row.sequence = other.sequence ||
        row.idempotency_key.isSome && row.idempotency_key = other.idempotency_key)

def max_sequence (rows : List EventRow) (execution_id : String) : Int :=
  ((rows.filter fun row => row.execution_id = execution_id).map fun row => row.sequence).foldl
    max 0

def conflict (execution_id : String) (word : String) (given next : Int) : StoreError :=
  .runtimeError ("RecordStore runtime event sequence conflict for execution '" ++ execution_id ++
    "': " ++ word ++ " " ++ toString given ++ ", next sequence is " ++ toString next ++ ".")

/-- What the call does under the lock, over the rows of the table: the event it returns and
the row it adds, if any. -/
def append_rows (rows : List EventRow) (call : Prepared) (drawn : Drawn) :
    Except StoreError (EventRow × Option EventRow) :=
  match rows.find? fun row => call.idempotency_key.isSome &&
      row.execution_id = call.execution_id && row.idempotency_key = call.idempotency_key with
  | some duplicate => .ok (row_to_runtime_event duplicate, none)
  | none =>
    let next_sequence := max_sequence rows call.execution_id + 1
    if call.expected_sequence.any fun n => n ≠ next_sequence then
      .error (conflict call.execution_id "expected"
        (call.expected_sequence.getD 0) next_sequence)
    else
      let resolved_sequence := call.sequence.getD next_sequence
      if resolved_sequence ≠ next_sequence then
        .error (conflict call.execution_id "received" resolved_sequence next_sequence)
      else
        match bind_row b textOfFloat call resolved_sequence drawn with
        | .error e => .error e
        | .ok row =>
          if rows.any (clashes row) then .error .integrityError
          else .ok (row_to_runtime_event row, some row)

inductive Answer where
  | stored (event : EventRow)
  | failed (error : StoreError)

def append_runtime_event (s : Store) (call : Prepared) (drawn : Drawn) : Store × Answer :=
  match check_write s.toDatabase with
  | .error e => (s, .failed e)
  | .ok _ =>
    -- the file and the table are there from here on
    let opened := { s with db_exists := true, runtime_events := some s.rows }
    match append_rows b textOfFloat s.rows call drawn with
    | .error e => (opened, .failed e)
    | .ok (event, none) => (opened, .stored event)
    | .ok (event, some row) =>
      ({ opened with runtime_events := some (s.rows ++ [row]) }, .stored event)

structure Query where
  execution_id : String
  sequence_from : Option Int := none
  sequence_to : Option Int := none
  event_id : Option String := none
  limit : Option Int := none

def Query.selects (q : Query) (row : EventRow) : Bool :=
  row.execution_id = q.execution_id && q.sequence_from.all (fun n => n ≤ row.sequence) &&
    q.sequence_to.all (fun n => row.sequence ≤ n) && q.event_id.all fun id => row.event_id = id

def limited (limit : Option Int) (rows : List EventRow) : List EventRow :=
  match limit with
  | none => rows
  | some n => rows.take n.toNat

def query_runtime_events (s : Store) (q : Query) : Except StoreError (List EventRow) :=
  if q.limit.any fun n => n < 0 then .error (.valueError "limit must be non-negative.")
  else if !s.db_exists then .ok []
  else
    match s.runtime_events with
    | none => .ok []
    | some rows => do
        let _ ← bind_optional_int q.sequence_from
        let _ ← bind_optional_int q.sequence_to
        let _ ← bind_optional_int q.limit
        pure ((limited q.limit ((rows.filter q.selects).insertionSort
          fun r t => r.sequence ≤ t.sequence)).map row_to_runtime_event)

variable {Ref : Type}

/-- `answers` are the calls that have come back, the newest first. -/
structure State (Ref : Type) where
  store : Store
  resolving : List (Append Ref)
  waiting : List Prepared
  answers : List Answer

inductive Action (Ref : Type) where
  | call (call : Append Ref)
  | resolved (index : Nat) (snapshot : Option Json) (artifacts : List (Option Json))
  | unresolved (index : Nat) (error : StoreError)
  | serve (index : Nat) (drawn : Drawn)
  | cancel (index : Nat)

def step (s : State Ref) : Action Ref → Option (State Ref)
  | .call call => some { s with resolving := s.resolving ++ [call] }
  | .resolved index snapshot artifacts =>
    match s.resolving[index]? with
    | none => none
    | some call =>
      some { s with
        resolving := s.resolving.eraseIdx index
        waiting := s.waiting ++ [prepare call snapshot artifacts] }
  | .unresolved index error =>
    some { s with
      resolving := s.resolving.eraseIdx index
      answers := .failed error :: s.answers }
  | .serve index drawn =>
    match s.waiting[index]? with
    | none => none
    | some call =>
      let done := append_runtime_event b textOfFloat s.store call drawn
      some { s with
        store := done.1
        waiting := s.waiting.eraseIdx index
        answers := done.2 :: s.answers }
  | .cancel index => some { s with waiting := s.waiting.eraseIdx index }

def eventRun : Machine (State Ref) (Action Ref) := ⟨step b textOfFloat⟩

def start (database : Database) : State Ref :=
  { store := { toDatabase := database }, resolving := [], waiting := [], answers := [] }

end Host

end Agently.Storage.RuntimeEvents
