import Agently.TriggerFlow.SnapshotContract
import Agently.Utils.StateData

/-! # Loading a snapshot into an execution

Source: `TriggerFlow/ExecutionPersistence.py`, `TriggerFlow/SignalNet.py` and
`types/data/event.py`. A step that raises leaves what it and the steps before it assigned.
Executions and handlers are known by their identities. -/

namespace Agently.TriggerFlow.Persistence

open Agently.Lib Agently.Utils Agently.Utils.Json

structure RunContext where
  runId : String
  runKind : String
  rootRunId : Option String
  parentRunId : Option String
  agentId : Option String
  agentName : Option String
  sessionId : Option String
  responseId : Option String
  executionId : Option String
  info : Data

structure Binding where
  bindingId : String
  triggerType : String
  triggerEvent : String
  handler : Option Nat
  handlerRef : Json
  metadata : Json
  active : Bool

abbrev Bindings := Dict String (Dict String (Dict String Binding))

structure Flow where
  definition : FlowDefinition
  executions : Dict String Nat
  flowData : Data

structure Execution where
  ref : Nat
  id : String
  triggerFlow : Flow
  runContext : RunContext
  runtimeData : Data
  runtimeResources : Data
  result : Option Json
  interrupts : Json
  interventionMode : Json
  interventionPolicy : Option String
  interventionPolicyName : Option String
  interventionsVersion : Int
  interventions : Json
  subFlowFrames : Json
  lastSignal : Json
  handlerRegistry : Dict String (Nat × Json × Json)
  dynamicBindings : Bindings
  signalAttempts : Dict String Json
  acceptedSignalIds : List String
  durableSystemState : Data
  status : String
  autoClose : Bool
  autoCloseTimeout : Json
  lifecycleState : String
  createdAt : PyFloat
  startedAt : Json
  lastActivityAt : Json
  sealedAt : Json
  closedAt : Json
  closeReason : Json
  stateVersion : Int
  ownerId : Json
  leaseTtl : Json
  leaseUntil : Json
  heartbeatAt : Json
  executionResourceRequirements : List Data
  compaction : CompactionState
  snapshotProjectionPolicy : Json
  snapshotRetentionPolicy : Option (Option Int)
  runtimeStreamStopped : Bool
  closed : Bool
  closeStarted : Bool
  closeResult : Option Data
  started : Bool
  runtimeStartedEmitted : Bool
  runtimeCompletedEmitted : Bool
  runtimeFailedEmitted : Bool

/-- What `load` is called with beside the state. `resourceCheck` is what
`validate_resources` adds, `now` the time the call reads. -/
structure LoadArguments where
  now : ℚ
  resourceCheck : Execution → Data → Except PyError Unit := fun _ _ => .ok ()
  executionResources : List Data := []
  runtimeResources : Data := []

abbrev Load := EStateM PyError Execution

def orRaise {α : Type} (x : Except PyError α) : Load α :=
  match x with
  | .ok a => pure a
  | .error e => throw e

def durableSystemStateKeys : List String :=
  ["when_states", "batch_states", "collect_states", "for_each_results", "match_results"]

def signalTypes : List String := ["event", "runtime_data", "flow_data"]

def noBindings : Bindings := signalTypes.map fun t => (t, [])

def isClosedState (s : String) : Bool := s == "closed"

section Snapshot

variable (b : Builtins) (state : Data)

def executionIdOf (e : Execution) : String := b.pyStr (getOr state "execution_id" (.str e.id))

def interventionOf : Data := dictOf (get state "intervention")

def runtimeDataOf : Data := dictOf (get state "runtime_data")

def flowDataOf : Data := dictOf (get state "flow_data")

def interruptsOf : Json := getOr state "interrupts" (.obj [])

def resultOf : Option Json :=
  let result := dictOf (get state "result")
  if b.truthy (getOr result "ready" (.bool false)) then some (get result "value") else none

def statusOf : String := b.pyStr (getOr state "status" (.str "created"))

def lifecycleOf : String :=
  let s := b.pyStr (getOr state "lifecycle_state" (.str "open"))
  if s ∈ ["open", "sealed", "closed"] then s else "open"

def optionalText (context : Data) (k : String) : Except PyError (Option String) :=
  match get context k with
  | .null => .ok none
  | .str s => .ok (some s)
  | _ => .error (.builtin .validationError)

def requiredText (context : Data) (k : String) : Except PyError String :=
  match Dict.get? context k with
  | some (.str s) => .ok s
  | _ => .error (.builtin .validationError)

def contextInfo (context : Data) : Except PyError Data :=
  match getOr context "meta" (.obj []) with
  | .obj kvs => .ok kvs
  | _ => .error (.builtin .validationError)

def validateRunContext (context : Data) : Except PyError RunContext := do
  let runId ← requiredText context "run_id"
  let runKind ← requiredText context "run_kind"
  let rootRunId ← optionalText context "root_run_id"
  let parentRunId ← optionalText context "parent_run_id"
  let agentId ← optionalText context "agent_id"
  let agentName ← optionalText context "agent_name"
  let sessionId ← optionalText context "session_id"
  let responseId ← optionalText context "response_id"
  let executionId ← optionalText context "execution_id"
  let info ← contextInfo context
  return { runId := runId, runKind := runKind, rootRunId := some (rootRunId.getD runId)
           parentRunId := parentRunId, agentId := agentId, agentName := agentName
           sessionId := sessionId, responseId := responseId, executionId := executionId
           info := info }

def runContextOf (current : RunContext) : Except PyError RunContext :=
  match get state "run_context" with
  | .obj context => validateRunContext context
  | _ => .ok current

def normalMode (mode : Json) : Except PyError Json :=
  if mode.isNone then .ok .null
  else match memberOf ["planned", "auto"] mode with
    | .ok known => .ok (if known then mode else .null)
    | .error e => .error e

def policyNameOf (e : Execution) : Option String :=
  match e.interventionPolicy with
  | some name => some name
  | none =>
    match Dict.get? (interventionOf state) "policy" with
    | none => e.interventionPolicyName
    | some .null => none
    | some v => some (b.pyStr v)

def versionOrZero (v : Json) : Except PyError Int :=
  match b.pyInt v with
  | .ok n => .ok n
  | .error e => if e.kind = .typeError ∨ e.kind = .valueError then .ok 0 else .error e

def recordVersion (record : Data) : Except PyError Int :=
  b.pyInt (getOr record "version" (.int 0))

def maxVersion : List Int → Except PyError Int
  | [] => .error (.builtin .valueError)
  | n :: rest => .ok (rest.foldl max n)

/-- The version the records of a ledger raise `version` to. -/
def ledgerVersion (ledger : Data) (version : Int) : Except PyError Int :=
  if ledger = [] then .ok version
  else match (ledger.filterMap fun p => p.2.entries?).mapM (recordVersion b) with
    | .error e => .error e
    | .ok versions => (maxVersion versions).map (max version)

def restoredAttempt (attempt : Data) (pending : Bool) : Json :=
  .obj (if pending then
    Dict.set (Dict.set attempt "status" (.str "interrupted")) "reason"
      (.str "interrupted during TriggerFlow load")
    else attempt)

def restoreAttempts (attempts : Dict String Json) : List Data → Dict String Json × Option PyError
  | [] => (attempts, none)
  | attempt :: rest =>
    if b.truthy (get attempt "signal_id") then
      match memberOf ["accepted", "running"] (get attempt "status") with
      | .error e => (attempts, some e)
      | .ok pending =>
        restoreAttempts (Dict.set attempts (b.pyStr (get attempt "signal_id"))
          (restoredAttempt attempt pending)) rest
    else restoreAttempts attempts rest

def putBinding (bindings : Bindings) (x : Binding) : Bindings :=
  let events := (Dict.get? bindings x.triggerType).getD []
  let held := (Dict.get? events x.triggerEvent).getD []
  Dict.set bindings x.triggerType
    (Dict.set events x.triggerEvent (Dict.set held x.bindingId x))

def restoredBinding (registry : Dict String (Nat × Json × Json)) (binding : Data)
    (bindingId triggerType : String) : Binding :=
  let registered := Dict.get? registry bindingId
  { bindingId := bindingId, triggerType := triggerType
    triggerEvent := b.pyStr (b.orElse (get binding "trigger_event") (.str ""))
    handler := registered.map fun r => r.1
    handlerRef := (registered.map fun r => r.2.1).getD (b.orElse (get binding "handler_ref") (.obj []))
    metadata := (registered.map fun r => r.2.2).getD (b.orElse (get binding "metadata") (.obj []))
    active := registered.isSome }

def textIn (names : List String) (v : Json) : Option String :=
  match v with
  | .str s => if s ∈ names then some s else none
  | _ => none

def restoreBindings (registry : Dict String (Nat × Json × Json)) (bindings : Bindings) :
    List Data → Bindings × Option PyError
  | [] => (bindings, none)
  | binding :: rest =>
    let bindingId := b.pyStr (b.orElse (get binding "binding_id") (.str ""))
    let triggerType := getOr binding "trigger_type" (.str "event")
    match memberOf signalTypes triggerType with
    | .error e => (bindings, some e)
    | .ok _ =>
      match textIn signalTypes triggerType with
      | none => restoreBindings registry bindings rest
      | some triggerType =>
        if bindingId = "" then restoreBindings registry bindings rest
        else restoreBindings registry
          (putBinding bindings (restoredBinding b registry binding bindingId triggerType)) rest

def signalNetItems (key : String) : Except PyError (List Data) :=
  (b.iterate (get (dictOf (get state "signal_net")) key)).map fun xs => xs.filterMap entries?

def createdAtOf (current : PyFloat) : Except PyError PyFloat :=
  match Dict.get? state "created_at" with
  | none => .ok current
  | some v => if b.truthy v then b.pyFloat v else .ok current

def stateVersionOf (current : Int) : Except PyError Int :=
  b.pyInt (getOr state "state_version" (.int current))

def restoredDurable : Data :=
  durableSystemStateKeys.filterMap fun k =>
    match get (dictOf (get state "durable_system_state")) k with
    | .null => none
    | v => some (k, v)

def coerceResourceRequirements : Json → Except PyError (List Data)
  | .null => .ok []
  | .arr xs => normalize 0 xs
  | v => .error (.raised .typeError
      ("Can not inspect TriggerFlow execution snapshot resource requirements, " ++
        s!"expect list/None but got: {v.typeName}"))
where
  normalize : Nat → List Json → Except PyError (List Data)
    | _, [] => .ok []
    | i, .obj kvs :: rest => (normalize (i + 1) rest).map (kvs :: ·)
    | i, v :: _ => .error (.raised .typeError
        ("Can not inspect TriggerFlow execution snapshot resource requirement " ++
          s!"#{i}, expect dictionary but got: {v.typeName}"))

def requirementKey (dump : Json → String) (requirement : Data) : String :=
  let v := get requirement "requirement_id"
  let w := get requirement "resource_key"
  if b.truthy v then b.pyStr v
  else if b.truthy w then b.pyStr w
  else dump (.obj requirement)

def addRequirement (dump : Json → String) (resolved : List Data) (requirement : Data) :
    List Data :=
  if requirement = [] then resolved
  else if requirementKey b dump requirement ∈ resolved.map (requirementKey b dump) then resolved
  else resolved ++ [requirement]

def nestedRequirement (requirement : Data) : Option Data :=
  (get (dictOf (getOr requirement "metadata" (.obj []))) "requirement").entries?

def resolveExecutionResourceRequirements (dump : Json → String) (held given : List Data) :
    Except PyError (List Data) :=
  match coerceResourceRequirements (getOr state "resource_requirements" (.arr [])) with
  | .error e => .error e
  | .ok requirements =>
    .ok ((held ++ given ++ requirements.filterMap nestedRequirement).foldl
      (addRequirement b dump) [])

end Snapshot

section Steps

variable (b : Builtins) (state : Data)

def registered (executions : Dict String Nat) (oldId newId : String) (ref : Nat) :
    Dict String Nat :=
  if oldId = newId then executions else Dict.set (Dict.del executions oldId) newId ref

def takeIdentity : Load Unit := modify fun e =>
  let newId := executionIdOf b state e
  { e with
    id := newId
    triggerFlow := { e.triggerFlow with
      executions := registered e.triggerFlow.executions e.id newId e.ref } }

def RunContext.ofExecution (c : RunContext) (id : String) : RunContext :=
  { c with executionId := some (c.executionId.getD id) }

def restoreRunContext : Load Unit := do
  let e ← EStateM.get
  let context ← orRaise (runContextOf state e.runContext)
  modify fun e => { e with runContext := context.ofExecution e.id }

def restoreRuntimeData : Load Unit := do
  let (data, raised) := StateData.update b.floatValue [] (runtimeDataOf state)
  modify fun e => { e with runtimeData := data }
  orRaise (match raised with | some err => .error err | none => .ok ())

def Execution.withFlowData (e : Execution) (data : Data) : Execution :=
  { e with triggerFlow := { e.triggerFlow with flowData := data } }

def restoreFlowData : Load Unit := do
  let (data, raised) := StateData.update b.floatValue [] (flowDataOf state)
  modify fun e => e.withFlowData data
  orRaise (match raised with | some err => .error err | none => .ok ())

def restoreResult : Load Unit := modify fun e =>
  { e with result := resultOf b state, interrupts := interruptsOf state }

def restoreInterventionMode : Load Unit := do
  modify fun e => { e with
    interventionMode := getOr (interventionOf state) "mode" e.interventionMode }
  let e ← EStateM.get
  let mode ← orRaise (normalMode e.interventionMode)
  modify fun e => { e with
    interventionMode := mode, interventionPolicyName := policyNameOf b state e }

def ledgerData : Data := dictOf (ledgerOf state)

def restoreLedger : Load Unit := do
  let version ← orRaise (versionOrZero b (getOr (interventionOf state) "version" (.int 0)))
  modify fun e => { e with interventionsVersion := version }
  let version ← orRaise (ledgerVersion b (ledgerData state) version)
  modify fun e => { e with
    interventionsVersion := version
    interventions := .obj (ledgerData state)
    runtimeData := Dict.set e.runtimeData interventionsStateKey (.obj (ledgerData state))
    subFlowFrames := getOr state "sub_flow_frames" (.obj [])
    lastSignal := get state "last_signal" }

def restoreSignalAttempts : Load Unit := do
  modify fun e => { e with dynamicBindings := noBindings, signalAttempts := [] }
  let items ← orRaise (signalNetItems b state "signal_attempts")
  let (attempts, raised) := restoreAttempts b [] items
  modify fun e => { e with signalAttempts := attempts }
  orRaise (match raised with | some err => .error err | none => .ok ())
  modify fun e => { e with acceptedSignalIds := [] }

def restoreDynamicBindings : Load Unit := do
  let items ← orRaise (signalNetItems b state "bindings")
  let e ← EStateM.get
  let (bindings, raised) := restoreBindings b e.handlerRegistry e.dynamicBindings items
  modify fun e => { e with dynamicBindings := bindings }
  orRaise (match raised with | some err => .error err | none => .ok ())

def restoreLifecycle : Load Unit := modify fun e =>
  { e with
    durableSystemState := restoredDurable state
    status := statusOf b state
    autoClose := ((Dict.get? state "auto_close").map b.truthy).getD e.autoClose
    autoCloseTimeout := getOr state "auto_close_timeout" e.autoCloseTimeout
    lifecycleState := lifecycleOf b state }

def restoreCreatedAt : Load Unit := do
  let e ← EStateM.get
  let createdAt ← orRaise (createdAtOf b state e.createdAt)
  modify fun e => { e with
    createdAt := createdAt
    startedAt := getOr state "started_at" e.startedAt
    lastActivityAt := getOr state "last_activity_at" e.lastActivityAt
    sealedAt := getOr state "sealed_at" e.sealedAt
    closedAt := getOr state "closed_at" e.closedAt
    closeReason := getOr state "close_reason" e.closeReason }

def restoreStateVersion : Load Unit := do
  let e ← EStateM.get
  let version ← orRaise (stateVersionOf b state e.stateVersion)
  modify fun e => { e with
    stateVersion := version
    ownerId := getOr state "owner_id" e.ownerId
    leaseTtl := getOr state "lease_ttl" e.leaseTtl
    leaseUntil := getOr state "lease_until" e.leaseUntil
    heartbeatAt := getOr state "heartbeat_at" e.heartbeatAt }

def retentionOf : Except PyError (Option (Option Int)) :=
  match get state "snapshot_retention_policy" with
  | .null => .ok none
  | policy => (normalizeSnapshotRetentionPolicy policy).map some

def projectionPolicyOf (current : Json) : Json :=
  match get (dictOf (getOr state "snapshot_projection" (.obj []))) "policy" with
  | .obj policy => .obj policy
  | _ => current

/-- `_build_close_snapshot`, the final result among the runtime data. -/
def closeSnapshotOf (data : Data) (result : Option Json) : Data :=
  match Dict.get? data "$final_result", result with
  | none, some v => if v.isNone then data else Dict.set data "$final_result" v
  | _, _ => data

def restoreClosing (e : Execution) : Execution :=
  let closed := isClosedState e.lifecycleState
  let started := e.status ≠ "created" || b.truthy (.obj (runtimeDataOf state)) ||
    e.result.isSome || b.truthy (interruptsOf state)
  { e with
    runtimeStreamStopped := closed
    closed := closed
    closeStarted := closed
    closeResult := if closed then some (closeSnapshotOf e.runtimeData e.result) else none
    started := started
    runtimeStartedEmitted := started
    runtimeCompletedEmitted := e.status == "completed" && e.result.isSome
    runtimeFailedEmitted := e.status == "failed" }

def restoreRequirements (dump : Json → String) (args : LoadArguments) : Load Unit := do
  let e ← EStateM.get
  let requirements ← orRaise (resolveExecutionResourceRequirements b state dump
    e.executionResourceRequirements args.executionResources)
  modify fun e => { e with
    executionResourceRequirements := requirements
    compaction := snapshotCompactionState state
    snapshotProjectionPolicy := projectionPolicyOf state e.snapshotProjectionPolicy }

def restoreRetention : Load Unit := do
  let retention ← orRaise (retentionOf state)
  modify fun e => restoreClosing b state { e with snapshotRetentionPolicy := retention }

def updateRuntimeResources (args : LoadArguments) : Load Unit := do
  let e ← EStateM.get
  let (resources, raised) := StateData.setAll e.runtimeResources args.runtimeResources
  modify fun e => { e with runtimeResources := resources }
  orRaise (match raised with | some err => .error err | none => .ok ())

def rejected (fingerprint : Json → String) (args : LoadArguments) (e : Execution) :
    Except PyError Unit := do
  validateStateSections e.id state
  raiseForSnapshotContract b fingerprint e.triggerFlow.definition e.ownerId args.now state
  raiseForActiveFrames b state
  args.resourceCheck e state

/-- Everything `load` does after its checks. -/
def restore (dump : Json → String) (args : LoadArguments) : Load Unit := do
  takeIdentity b state
  restoreRunContext state
  restoreRuntimeData b state
  restoreFlowData b state
  restoreResult b state
  restoreInterventionMode b state
  restoreLedger b state
  restoreSignalAttempts b state
  restoreDynamicBindings b state
  restoreLifecycle b state
  restoreCreatedAt b state
  restoreStateVersion b state
  restoreRequirements b state dump args
  restoreRetention b state
  updateRuntimeResources args

def load (fingerprint dump : Json → String) (args : LoadArguments) : Load Unit := do
  let e ← EStateM.get
  orRaise (rejected b state fingerprint args e)
  restore b state dump args

end Steps

end Agently.TriggerFlow.Persistence
