import Agently.TriggerFlow.SnapshotProjection
import Agently.Utils.Conversions

/-! # The checks before a snapshot is loaded

Source: `TriggerFlow/ExecutionPersistence.py`, `TriggerFlow/Execution.py` and
`types/trigger_flow/runtime_keys.py`. `fingerprint` is the SHA-256 digest of a value's sorted
JSON text. -/

namespace Agently.TriggerFlow.Persistence

open Agently.Lib Agently.Utils Agently.Utils.Json
open SnapshotProjection (isStr isValueDigestProjection validateValueDigestProjection)

abbrev Data := List (String × Json)

def triggerFlowExecutionSnapshotKind : String := "triggerflow.execution_snapshot"
def triggerFlowSupportedSnapshotSchemaVersions : List Int := [1, 2]
def triggerFlowSnapshotProjectionVersion : Int := 1
def interventionsStateKey : String := "$interventions"

def getOr (d : Data) (k : String) (default : Json) : Json := (Dict.get? d k).getD default

def get (d : Data) (k : String) : Json := getOr d k .null

def dictOf (v : Json) : Data := v.entries?.getD []

inductive Severity where
  | error
  | warning
  deriving DecidableEq

structure Diagnostic where
  code : String
  severity : Severity := .error
  message : String
  details : Data := []

def requireDict (key : String) (v : Json) : Except PyError Data :=
  match v with
  | .obj kvs => .ok kvs
  | v => .error (.raised .typeError
      s!"Can not load key '{key}', expect dictionary but got: {v.typeName}")

/-- `None` stands for no entries where `none` is what the section may be. -/
def requireDictOrNone (key : String) (v : Json) : Except PyError Data :=
  match v with
  | .obj kvs => .ok kvs
  | .null => .ok []
  | v => .error (.raised .typeError
      s!"Can not load key '{key}', expect dictionary/None but got: {v.typeName}")

def normalizeSnapshotRetentionPolicy (policy : Json) : Except PyError (Option Int) :=
  match policy with
  | .obj kvs =>
    let unknown := ((Dict.keys kvs).filter (· ≠ "keep_last")).insertionSort (· ≤ ·)
    if unknown ≠ [] then
      .error (.raised .valueError ("snapshot retention policy contains unsupported keys: " ++
        String.intercalate ", " unknown ++ "."))
    else match get kvs "keep_last" with
      | .null => .ok none
      | .int n =>
        if n < 1 then
          .error (.raised .valueError
            "snapshot retention keep_last must be greater than or equal to 1.")
        else .ok (some n)
      | _ => .error (.raised .typeError
          "snapshot retention keep_last must be a positive integer or None.")
  | _ => .error (.raised .typeError "snapshot retention policy must be a dictionary.")

def ledgerOf (state : Data) : Json :=
  getOr (dictOf (get state "intervention")) "ledger"
    (getOr (dictOf (get state "runtime_data")) interventionsStateKey (.obj []))

/-- A ledger that is `None` is empty. -/
def requireLedger (v : Json) : Except PyError Unit :=
  match v with
  | .null => .ok ()
  | v => (requireDict "intervention.ledger" v).map fun _ => ()

def requireList (key : String) (v : Json) : Except PyError Unit :=
  match v with
  | .arr _ => .ok ()
  | .null => .ok ()
  | v => .error (.raised .typeError
      s!"Can not load key '{key}', expect list/None but got: {v.typeName}")

def requireStr (key : String) (v : Json) : Except PyError Unit :=
  match v with
  | .str _ => .ok ()
  | v => .error (.raised .typeError
      s!"Can not load key '{key}', expect string but got: {v.typeName}")

def validateStateSections (executionId : String) (state : Data) : Except PyError Unit := do
  let _ ← requireDict "runtime_data" (getOr state "runtime_data" (.obj []))
  let _ ← requireDict "flow_data" (getOr state "flow_data" (.obj []))
  let _ ← requireDict "interrupts" (getOr state "interrupts" (.obj []))
  let _ ← requireDictOrNone "intervention" (getOr state "intervention" (.obj []))
  requireLedger (ledgerOf state)
  let _ ← requireDict "sub_flow_frames" (getOr state "sub_flow_frames" (.obj []))
  let _ ← requireDictOrNone "last_signal" (get state "last_signal")
  let _ ← requireDict "result" (getOr state "result" (.obj []))
  let _ ← requireDictOrNone "durable_system_state" (getOr state "durable_system_state" (.obj []))
  requireList "resource_requirements" (getOr state "resource_requirements" (.arr []))
  requireStr "execution_id" (getOr state "execution_id" (.str executionId))
  let _ ← requireDictOrNone "run_context" (get state "run_context")
  match get state "snapshot_retention_policy" with
  | .null => pure ()
  | policy => (normalizeSnapshotRetentionPolicy policy).map fun _ => ()

structure FlowOperator where
  id : String
  kind : String
  mode : String := "and"
  listenSignals : List (String × String) := []

structure FlowDefinition where
  operators : List FlowOperator
  fingerprint : String

structure CompactionState where
  segments : List Data
  retainedLineageAnchors : List Data
  artifactRefs : List Data
  policy : Data
  loadPolicy : Data

def coerceDictList : Json → List Data
  | .arr xs => xs.filterMap entries?
  | _ => []

def snapshotCompactionState (state : Data) : CompactionState :=
  let compaction := dictOf (getOr state "compaction" (.obj []))
  { segments := coerceDictList (get compaction "segments")
    retainedLineageAnchors := coerceDictList (get compaction "retained_lineage_anchors")
    artifactRefs := coerceDictList (get compaction "artifact_refs")
    policy := dictOf (getOr compaction "policy" (.obj []))
    loadPolicy := dictOf (getOr compaction "load_policy" (.obj [])) }

def invalidProjection (code message : String) : Diagnostic :=
  { code := "triggerflow.snapshot.invalid_projection_" ++ code, message := message }

def require (ok : Bool) (d : Diagnostic) : List Diagnostic := if ok then [] else [d]

def isCount (v : Json) : Bool :=
  match v with
  | .int n => decide (0 ≤ n)
  | _ => false

def isStrList : Json → Bool
  | .arr xs => xs.all fun x => match x with | .str _ => true | _ => false
  | _ => false

def isStrOrNone : Json → Bool
  | .str _ => true
  | .null => true
  | _ => false

def projectionPolicyDiagnostics (policy : Json) : Except PyError (List Diagnostic) :=
  match policy with
  | .obj policy =>
    match memberOf ["full", "digest"] (get policy "terminal_value_mode") with
    | .error e => .error e
    | .ok known => .ok (
        require known (invalidProjection "policy"
          "TriggerFlow snapshot projection terminal_value_mode must be 'full' or 'digest'.") ++
        require (isCount (get policy "min_value_bytes")) (invalidProjection "policy"
          "TriggerFlow snapshot projection min_value_bytes must be a non-negative integer.") ++
        ["enabled", "project_terminal_signal_attempts"].flatMap fun key =>
          require (get policy key).isBool (invalidProjection "policy"
            s!"TriggerFlow snapshot projection policy '{key}' must be boolean."))
  | _ => .ok [invalidProjection "policy"
      "TriggerFlow snapshot projection policy must be a mapping."]

mutual

/-- `validate_projected_values` of a value that is no digest projection itself. -/
def projectedItemDiagnostics : Json → String → List Diagnostic
  | .obj kvs, path => projectedEntriesDiagnostics kvs path
  | .arr xs, path => projectedListDiagnostics xs path 0
  | _, _ => []

def projectedEntriesDiagnostics : Data → String → List Diagnostic
  | [], _ => []
  | (k, v) :: rest, path =>
    (if isValueDigestProjection v then
      match validateValueDigestProjection v with
      | .ok _ => []
      | .error message => [{ code := "triggerflow.snapshot.invalid_value_digest"
                             message := message, details := [("path", .str (path ++ "." ++ k))] }]
    else projectedItemDiagnostics v (path ++ "." ++ k)) ++
      projectedEntriesDiagnostics rest path

def projectedListDiagnostics : List Json → String → Nat → List Diagnostic
  | [], _, _ => []
  | v :: rest, path, i =>
    (if isValueDigestProjection v then
      match validateValueDigestProjection v with
      | .ok _ => []
      | .error message => [{ code := "triggerflow.snapshot.invalid_value_digest"
                             message := message
                             details := [("path", .str (path ++ "[" ++ toString i ++ "]"))] }]
    else projectedItemDiagnostics v (path ++ "[" ++ toString i ++ "]")) ++
      projectedListDiagnostics rest path (i + 1)

end

def validateProjectedValues (v : Json) (path : String) : List Diagnostic :=
  if isValueDigestProjection v then
    match validateValueDigestProjection v with
    | .ok _ => []
    | .error message => [{ code := "triggerflow.snapshot.invalid_value_digest"
                           message := message, details := [("path", .str path)] }]
  else projectedItemDiagnostics v path

section Contract

variable (b : Builtins) (fingerprint : Json → String)

def snapshotProjectionDiagnostics (state : Data) : Except PyError (List Diagnostic) :=
  match get state "snapshot_projection" with
  | .obj projection =>
    match projectionPolicyDiagnostics (get projection "policy") with
    | .error e => .error e
    | .ok ofPolicy => .ok (
        require ((get projection "version").pyEq b.floatValue
            (.int triggerFlowSnapshotProjectionVersion))
          { code := "triggerflow.snapshot.invalid_projection_version"
            message := "TriggerFlow snapshot projection version is not supported."
            details := [("expected", .int triggerFlowSnapshotProjectionVersion),
              ("actual", get projection "version")] } ++
        require (get projection "applied").isBool (invalidProjection "state"
          "TriggerFlow snapshot projection applied flag must be boolean.") ++
        require (isStrOrNone (get projection "deferred_reason")) (invalidProjection "state"
          "TriggerFlow snapshot projection deferred_reason must be a string or None.") ++
        require (isStrList (get projection "projected_terminal_interrupt_ids"))
          (invalidProjection "state" ("TriggerFlow snapshot projected_terminal_interrupt_ids " ++
            "must be a list of strings.")) ++
        (["projected_value_count", "original_value_bytes", "projected_value_bytes"].flatMap
          fun key => require (isCount (get projection key)) (invalidProjection "state"
            s!"TriggerFlow snapshot projection '{key}' must be a non-negative integer.")) ++
        ofPolicy ++ validateProjectedValues (.obj state) "$")
  | _ => .ok [{ code := "triggerflow.snapshot.missing_projection_state"
                message := "TriggerFlow execution snapshot schema_version 2 requires " ++
                  "snapshot_projection metadata." }]

def snapshotVersionDiagnostics (state : Data) : Except PyError (List Diagnostic) :=
  match get state "schema_version" with
  | .int n =>
    if n ∉ triggerFlowSupportedSnapshotSchemaVersions then .ok [invalidVersion (.int n)]
    else if 2 ≤ n then snapshotProjectionDiagnostics b state
    else .ok []
  | v => .ok [invalidVersion v]
where
  invalidVersion (v : Json) : Diagnostic :=
    { code := "triggerflow.snapshot.invalid_schema_version"
      message := "TriggerFlow execution snapshot schema_version is not supported. " ++
        "Supported versions: (1, 2)."
      details := [("expected", .arr [.int 1, .int 2]), ("actual", v)] }

def snapshotFingerprintDiagnostics (current : String) (state : Data) : List Diagnostic :=
  match get state "flow_definition_fingerprint" with
  | .null =>
    [{ code := "triggerflow.snapshot.missing_flow_definition_fingerprint"
       message := "TriggerFlow execution snapshot has no flow definition fingerprint."
       details := [("current", .str current)] }]
  | .str s =>
    require (s == current)
      { code := "triggerflow.snapshot.flow_definition_mismatch"
        message := "TriggerFlow execution snapshot flow definition fingerprint mismatch."
        details := [("expected", .str s), ("actual", .str current),
          ("flow_name", get state "flow_name")] }
  | v =>
    [{ code := "triggerflow.snapshot.invalid_flow_definition_fingerprint"
       message := "TriggerFlow execution snapshot flow definition fingerprint must be a string."
       details := [("actual", v)] }]

def ownersDiffer (owner other : Json) : Bool :=
  !owner.isNone && !other.isNone && b.pyStr owner != b.pyStr other

/-- `float(lease_until)`, with the diagnostic of a value that is no number. -/
def parseLeaseUntil (leaseUntil : Json) : Except PyError (Option PyFloat × List Diagnostic) :=
  match leaseUntil with
  | .null => .ok (none, [])
  | v =>
    match b.pyFloat v with
    | .ok x => .ok (some x, [])
    | .error e =>
      if e.kind = .typeError ∨ e.kind = .valueError then
        .ok (none, [{ code := "triggerflow.lease.invalid_metadata"
                      message := "TriggerFlow execution snapshot lease_until must be " ++
                        "numeric when present."
                      details := [("lease_until", v)] }])
      else .error e

def snapshotLeaseDiagnostics (currentOwnerId : Json) (now : ℚ) (state : Data) :
    Except PyError (List Diagnostic) :=
  let lease := dictOf (get state "lease")
  let ownerId := get state "owner_id"
  let leaseOwnerId := getOr lease "owner_id" ownerId
  let leaseUntil := getOr lease "lease_until" (get state "lease_until")
  let held : Data :=
    [("lease_until", leaseUntil), ("heartbeat_at", getOr lease "heartbeat_at" (get state "heartbeat_at")),
      ("lease_ttl", getOr lease "lease_ttl" (get state "lease_ttl"))]
  match parseLeaseUntil b leaseUntil with
  | .error e => .error e
  | .ok (parsed, invalid) => .ok (
      require (!ownersDiffer b ownerId leaseOwnerId)
        { code := "triggerflow.lease.owner_mismatch"
          message := "TriggerFlow execution snapshot owner does not match snapshot lease owner."
          details := [("owner_id", .str (b.pyStr ownerId)),
            ("lease_owner_id", .str (b.pyStr leaseOwnerId)), ("lease", .obj lease)] } ++
      invalid ++
      if (parsed.map (PyFloat.atMost now)).getD false then
        [{ code := "triggerflow.lease.expired"
           severity := .warning
           message := "TriggerFlow execution snapshot lease has expired and should be reclaimed " ++
             "before dispatch."
           details := ("owner_id", leaseOwnerId) :: held }]
      else
        require (!ownersDiffer b currentOwnerId leaseOwnerId)
          { code := "triggerflow.lease.owner_conflict"
            message := "TriggerFlow execution snapshot lease is still owned by another worker."
            details := ("owner_id", .str (b.pyStr currentOwnerId)) ::
              ("lease_owner_id", .str (b.pyStr leaseOwnerId)) :: held })

abbrev Expected := Dict String (List String)

def addSignal (expected : Expected) (signal : String × String) : Expected :=
  if signal.1 = "" ∨ signal.2 = "" then expected
  else
    let events := (Dict.get? expected signal.1).getD []
    Dict.set expected signal.1 (if signal.2 ∈ events then events else events ++ [signal.2])

def isWhenId (id : String) : Bool := "when-".toList.isPrefixOf id.toList

def addGate (expectations : Dict String Expected) (op : FlowOperator) : Dict String Expected :=
  if op.kind ≠ "signal_gate" ∨ op.mode ≠ "and" ∨ op.id = "" then expectations
  else
    let expected := op.listenSignals.foldl addSignal []
    let named := Dict.set expectations op.id expected
    if isWhenId op.id then Dict.set named (String.ofList (op.id.toList.drop 5)) expected else named

def andSignalGateExpectations (flow : FlowDefinition) : Dict String Expected :=
  flow.operators.foldl addGate []

def invalidJoin (code message operatorId : String) (details : Data := []) : Diagnostic :=
  { code := "triggerflow.when_join." ++ code, message := message
    details := ("operator_id", .str operatorId) :: details }

def strs (names : List String) : Json := .arr (names.map .str)

def joinTypeDiagnostics (gateId scope : String) (entry : Data) (triggerType : String)
    (expected : List String) : List Diagnostic :=
  let place : Data := [("scope", .str scope), ("trigger_type", .str triggerType)]
  match get entry triggerType with
  | .obj actual =>
    let missing := (expected.filter fun e => e ∉ Dict.keys actual).insertionSort (· ≤ ·)
    let unexpected := ((Dict.keys actual).filter fun e => e ∉ expected).insertionSort (· ≤ ·)
    require (missing == []) (invalidJoin "missing_event"
      "TriggerFlow execution snapshot join state is missing expected events." gateId
      (place ++ [("missing_events", strs missing)])) ++
    require (unexpected == []) (invalidJoin "unexpected_event"
      "TriggerFlow execution snapshot join state contains unexpected events." gateId
      (place ++ [("unexpected_events", strs unexpected)]))
  | _ => [invalidJoin "missing_trigger_type"
      "TriggerFlow execution snapshot join state is missing an expected trigger type." gateId place]

def joinScopeDiagnostics (gateId : String) (expected : Expected) (scope : String)
    (entry : Json) : List Diagnostic :=
  match entry with
  | .obj entry => expected.flatMap fun p => joinTypeDiagnostics gateId scope entry p.1 p.2
  | _ => [invalidJoin "invalid_state"
      "TriggerFlow execution snapshot when_states scoped entry must be a mapping." gateId
      [("scope", .str scope)]]

def joinGateDiagnostics (expectations : Dict String Expected) (gateId : String)
    (scopes : Json) : List Diagnostic :=
  match Dict.get? expectations gateId with
  | none => [invalidJoin "unknown_gate"
      "TriggerFlow execution snapshot contains a durable join gate not present in the flow." gateId]
  | some expected =>
    match scopes with
    | .obj scopes => scopes.flatMap fun p => joinScopeDiagnostics gateId expected p.1 p.2
    | _ => [invalidJoin "invalid_state"
        "TriggerFlow execution snapshot when_states gate entry must be a mapping." gateId]

def snapshotWhenJoinDiagnostics (flow : FlowDefinition) (state : Data) : List Diagnostic :=
  match get (dictOf (get state "durable_system_state")) "when_states" with
  | .null => []
  | .obj gates => gates.flatMap fun p => joinGateDiagnostics (andSignalGateExpectations flow) p.1 p.2
  | v => [{ code := "triggerflow.when_join.invalid_state"
            message := "TriggerFlow execution snapshot when_states must be a mapping."
            details := [("when_states", v)] }]

def taskDagSnapshotDiagnostics (state : Data) : List Diagnostic :=
  let runtimeData := dictOf (get state "runtime_data")
  let graph := get runtimeData "task_dag"
  let expected := get runtimeData "task_dag_graph_fingerprint"
  if graph.isNone || expected.isNone then []
  else
    require (isStr (some expected) (fingerprint graph))
      { code := "triggerflow.task_dag.graph_fingerprint_mismatch"
        message := "TaskDAG graph fingerprint does not match the execution snapshot graph payload."
        details := [("expected", expected), ("actual", .str (fingerprint graph)),
          ("graph_id", get (dictOf graph) "graph_id")] }

def lineageAnchorFingerprint (anchor : Data) : String :=
  fingerprint (.obj (anchor.filter fun p => p.1 ≠ "fingerprint"))

def anchorsById (anchors : List Data) : Dict String Data :=
  (anchors.filter fun a => !(get a "anchor_id").isNone).foldl
    (fun d a => Dict.set d (b.pyStr (get a "anchor_id")) a) []

def anchorDiagnostics (anchorId : String) (anchor : Data) : List Diagnostic :=
  let expected := get anchor "fingerprint"
  let actual := lineageAnchorFingerprint fingerprint anchor
  require (!b.truthy expected || isStr (some expected) actual)
    { code := "triggerflow.compaction.lineage_anchor_mismatch"
      message := "Retained lineage anchor fingerprint does not match snapshot anchor data."
      details := [("anchor_id", .str anchorId), ("expected", expected), ("actual", .str actual)] }

def invalidSegmentRange (segmentId message : String) (details : Data := []) : Diagnostic :=
  { code := "triggerflow.compaction.invalid_segment_range", message := message
    details := ("segment_id", .str segmentId) :: details }

def segmentDiagnostics (anchorIds : List String) (segment : Data) :
    Except PyError (List Diagnostic) :=
  let segmentId := b.pyStr (getOr segment "segment_id" (.str ""))
  match b.pyInt (get segment "sequence_from"), b.pyInt (get segment "sequence_to") with
  | .ok from_, .ok to_ =>
    match b.iterate (getOr segment "retained_anchor_ids" (.arr [])) with
    | .error e => .error e
    | .ok ids => .ok (
        require (decide (from_ ≤ to_)) (invalidSegmentRange segmentId
          "Compaction segment sequence_to is before sequence_from."
          [("sequence_from", .int from_), ("sequence_to", .int to_)]) ++
        ids.flatMap fun id => require (decide (b.pyStr id ∈ anchorIds))
          { code := "triggerflow.compaction.missing_lineage_anchor"
            message := "Compaction segment references a retained lineage anchor that is missing."
            details := [("segment_id", .str segmentId), ("anchor_id", .str (b.pyStr id))] })
  | _, _ => .ok [invalidSegmentRange segmentId "Compaction segment has invalid sequence bounds."]

def artifactRefHasIdentifier : Json → Bool
  | .str s => decide (s ≠ "")
  | .obj ref => ["record_id", "id", "uri", "path", "artifact_id"].any fun key =>
    match get ref key with
    | .str s => decide (s ≠ "")
    | _ => false
  | .null => false
  | _ => true

def artifactDiagnostics (artifactRef : Data) : List Diagnostic :=
  if b.truthy (getOr artifactRef "required" (.bool true)) then
    let status := (b.pyStr (getOr artifactRef "status" (.str "available"))).toLower
    require (decide (status ∉ ["missing", "not_found", "unavailable"]) &&
        artifactRefHasIdentifier (get artifactRef "ref"))
      { code := "triggerflow.compaction.missing_artifact"
        message := "Required snapshot artifact reference is missing or unresolved."
        details := [("artifact_ref", .obj artifactRef)] }
  else []

def readLimitDiagnostics (readLimit : Json) : List Diagnostic :=
  if readLimit.isNone then []
  else
    let ok := match b.pyInt readLimit with
      | .ok n => decide (0 ≤ n)
      | .error _ => false
    require ok
      { code := "triggerflow.compaction.invalid_load_read_limit"
        message := "Compaction load policy runtime_event_read_limit must be non-negative."
        details := [("runtime_event_read_limit", readLimit)] }

def compactionSnapshotDiagnostics (state : Data) : Except PyError (List Diagnostic) :=
  let compaction := snapshotCompactionState state
  let anchors := anchorsById b compaction.retainedLineageAnchors
  match compaction.segments.mapM (segmentDiagnostics b (Dict.keys anchors)) with
  | .error e => .error e
  | .ok ofSegments => .ok (
      (anchors.flatMap fun p => anchorDiagnostics b fingerprint p.1 p.2) ++ ofSegments.flatten ++
      compaction.artifactRefs.flatMap (artifactDiagnostics b) ++
      readLimitDiagnostics b (get compaction.loadPolicy "runtime_event_read_limit"))

def snapshotContractDiagnostics (flow : FlowDefinition) (currentOwnerId : Json) (now : ℚ)
    (state : Data) : Except PyError (List Diagnostic) := do
  let ofKind := require (isStr (Dict.get? state "kind") triggerFlowExecutionSnapshotKind)
    { code := "triggerflow.snapshot.invalid_kind"
      message := "TriggerFlow execution snapshot kind does not match " ++
        triggerFlowExecutionSnapshotKind ++ "."
      details := [("expected", .str triggerFlowExecutionSnapshotKind), ("actual", get state "kind")] }
  let ofVersion ← snapshotVersionDiagnostics b state
  let ofLease ← snapshotLeaseDiagnostics b currentOwnerId now state
  let ofCompaction ← compactionSnapshotDiagnostics b fingerprint state
  return ofKind ++ ofVersion ++ snapshotFingerprintDiagnostics flow.fingerprint state ++ ofLease ++
    snapshotWhenJoinDiagnostics flow state ++ taskDagSnapshotDiagnostics fingerprint state ++
    ofCompaction

def raiseForSnapshotContract (flow : FlowDefinition) (currentOwnerId : Json) (now : ℚ)
    (state : Data) : Except PyError Unit :=
  match snapshotContractDiagnostics b fingerprint flow currentOwnerId now state with
  | .error e => .error e
  | .ok diagnostics =>
    let errors := diagnostics.filter fun d => d.severity = .error
    if errors = [] then .ok ()
    else .error (.raised .valueError ("Can not load TriggerFlow execution snapshot. " ++
      String.intercalate " " (errors.map Diagnostic.message)))

def isActiveFrame (frame : Json) : Except PyError Bool :=
  match frame with
  | .obj kvs => memberOf ["running", "cancel_requested"] (get kvs "status")
  | _ => .ok false

def activeFrameIds : Data → Except PyError (List String)
  | [] => .ok []
  | (frameId, frame) :: rest =>
    match isActiveFrame frame with
    | .error e => .error e
    | .ok active =>
      (activeFrameIds rest).map fun ids => if active then frameId :: ids else ids

def raiseForActiveFrames (state : Data) : Except PyError Unit :=
  match activeFrameIds (dictOf (get state "sub_flow_frames")) with
  | .error e => .error e
  | .ok [] => .ok ()
  | .ok ids => .error (.raised .runtimeError
      ("Can not load TriggerFlow execution snapshot with active sub-flow frame(s) " ++
        b.pyStr (strs (ids.insertionSort (· ≤ ·))) ++
        ". Live child executions and tasks are process-local and are not restart-resumable; " ++
        "settle or cancel them before saving a resumable snapshot."))

end Contract

end Agently.TriggerFlow.Persistence
