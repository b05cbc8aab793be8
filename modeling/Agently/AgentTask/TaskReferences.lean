import Mathlib
import Agently.Storage.Identity.Encoding
import Agently.Utils.DataFormatter

/-! # The task reference catalog

Source: `application/AgentTask/TaskReferences.py` (`TaskReferenceCatalog`). A snapshot holds what
`snapshot` writes and `from_snapshot` reads; that it is a mapping of mappings is its type. -/

namespace Agently.AgentTask

open Agently.Utils Agently.Lib
open Agently.Storage.Identity (encode_base62 decodeDigits)
open Agently.TaskDAGValidation (strip strOf orElse get)

abbrev Item := List (String × Value)

/-- The host's functions: `str` and `repr`, `str.lower`, `json.dumps` with sorted keys and
`hexdigest`, whose text is never empty. -/
structure Host where
  strOf : Value → String
  reprOf : String → String
  lower : String → String
  dumps : Item → String
  sha256 : String → String
  sha256_ne : ∀ content, sha256 content ≠ ""

def TASK_REFERENCE_CATALOG_SCHEMA_VERSION : String := "agent_task_reference_catalog/v1"

def _IDENTITY_FIELDS : List String := ["cite_as", "evidence_id", "reference_id", "binding_id"]

def _IDENTITY_PREFIXES : List String := ["evd_", "ref_", "bnd_"]

def _SNAPSHOT_IDENTITY_FIELDS : List String :=
  ["snapshot_id", "content_version_id", "sha256", "content_fingerprint", "digest", "etag"]

def _LOSSY_PROJECTION_MARKERS : List String :=
  ["[...body truncated for evidence ledger view...]", "[truncated for verifier prompt]",
    "[truncated middle for verifier prompt]"]

structure EvidenceRecord where
  evidence_id : String
  reference_id : String
  task_id : String
  fingerprint : String
  source_role : String
  target : Item
  deriving DecidableEq

structure ReferenceRecord where
  reference_id : String
  evidence_id : String
  task_id : String
  source_role : String
  kind : String
  status : String
  body_state : String
  deriving DecidableEq

structure BindingRecord where
  binding_id : String
  task_id : String
  subject : String
  reference_ids : List String
  required_role : String
  deriving DecidableEq

structure TaskReferenceCatalog where
  task_id : String
  high_water : Nat := 0
  evidence : Dict String EvidenceRecord := []
  references : Dict String ReferenceRecord := []
  bindings : Dict String BindingRecord := []
  fingerprints : Dict String String := []
  leased_capacity : Nat := 0
  task_workspace_leases : List (Nat × Nat) := []
  deriving DecidableEq

abbrev Fault := String

def TaskReferenceCatalog.new (task_id : String) : Except Fault TaskReferenceCatalog :=
  if strip task_id = "" then .error "Task reference identity requires a task_id."
  else .ok { task_id := strip task_id }

abbrev Outcome (α : Type) := EStateM.Result Fault TaskReferenceCatalog α

variable (H : Host)

def text (v : Value) : String := strip (strOf H.strOf (orElse v (.str "")))

def blank (v : Value) : Bool :=
  v = .none || v = .str "" || v = .list [] || v = .dict []

/-- Python's `==`, which holds of one value and itself. -/
def same (v w : Value) : Bool := v = w || v.pyEq w

def contains (part whole : String) : Bool := decide (part.toList <:+: whole.toList)

def _snapshot_identity (target : Item) : Dict String String :=
  let own := _SNAPSHOT_IDENTITY_FIELDS.filterMap fun field =>
    if text H (get target field) = "" then none else some (field, text H (get target field))
  match get target "provenance" with
  | .dict provenance =>
    own ++ _SNAPSHOT_IDENTITY_FIELDS.filterMap fun field =>
      if (Dict.get? own field).isSome then none
      else if text H (get provenance field) = "" then none
      else some (field, text H (get provenance field))
  | _ => own

def _is_lossy_projection (target : Item) : Bool :=
  if text H (get target "cite_as") ≠ "" then true
  else if get target "body_truncated_for_view" = .bool true ∨
      get target "body_not_rendered" = .bool true then true
  else ["body", "content", "text", "snippet", "preview"].any fun field =>
    match get target field with
    | .str value => _LOSSY_PROJECTION_MARKERS.any fun marker => contains marker value
    | _ => false

def agrees (identity existing : Dict String String) : Bool :=
  let comparable := identity.filter fun p => (existing.get? p.1).isSome
  !comparable.isEmpty && comparable.all fun p => existing.get? p.1 = some p.2

def candidates (c : TaskReferenceCatalog) (target : Item) : List EvidenceRecord :=
  c.evidence.vals.filter fun record =>
    text H (get record.target "id") = text H (get target "id") &&
      (text H (get target "kind") = "" || text H (get record.target "kind") = "" ||
        text H (get record.target "kind") = text H (get target "kind"))

def _canonical_projection_target (c : TaskReferenceCatalog) (target : Item) :
    Option EvidenceRecord :=
  if text H (get target "id") = "" then none
  else
    let found := candidates H c target
    if found = [] then none
    else if _snapshot_identity H target ≠ [] then
      found.find? fun record =>
        agrees (_snapshot_identity H target) (_snapshot_identity H record.target)
    else if _is_lossy_projection H target ∧ found.length = 1 then found.head?
    else none

/-- `dict(DataFormatter.sanitize(item))`. -/
def sanitized (item : Item) : Item := Value.sanitizeEntries item

def _project_canonical_item (record : EvidenceRecord) (target : Item) : Item :=
  sanitized (Dict.set (Dict.set target "evidence_id" (.str record.evidence_id)) "reference_id"
    (.str record.reference_id))

def _evidence_fingerprint (item : Item) : String :=
  H.sha256 (H.dumps ((sanitized item).filter fun p => p.1 ∉ _IDENTITY_FIELDS))

def _source_role (item : Item) : String :=
  let kind := H.lower (text H (get item "kind"))
  let role := H.lower (text H (get item "role"))
  let source := H.lower (text H (get item "source"))
  if text H (get item "action_call_id") ≠ "" ∨ contains "action.result" kind ∨
      kind = "action_evidence" then "action"
  else if kind = "taskboard_action_artifact.readback" ∧
      H.lower (text H (get item "owner")) = "action_artifact" then "action"
  else if contains "delivery" kind ∨ contains "candidate" kind ∨ contains "acceptance" kind ∨
      contains "artifact.readback" kind ∨ contains "artifact.targeted_readback" kind ∨
      contains "verifier_readback" kind ∨
      ((kind = "taskboard_ref" ∨ kind = "taskboard_evidence_ref") ∧
        role = "task_workspace_artifact" ∧
        ((source.startsWith "agent_task.taskboard.card." ∧
            source.endsWith ".task_workspace_artifact") ∨
          source.startsWith "agent_task.task_workspace_artifact.")) then "transport"
  else if contains "readback" kind then "task_workspace_readback"
  else "source"

def _require_role (reference : ReferenceRecord) (required_role : Option String) :
    Except Fault Unit :=
  let role := strip (required_role.getD "")
  if role ≠ "" ∧ reference.source_role ≠ role then
    .error ("Task reference is not eligible for required role '" ++ role ++ "'.")
  else .ok ()

def retargetFields : List String :=
  ["id", "kind", "execution_block_id", "block_id", "source_id", "source_revision", "source_ref",
    "binding_id", "query", "range_start", "action_call_id", "action_id", "path", "record_id",
    "source_url", "url"]

def visibility_rank : String → Int
  | "ref_only" => 0
  | "truncated" => 1
  | "bounded" => 2
  | "full" => 3
  | _ => -1

def retargeted (field : String) : Fault :=
  "Task evidence identity cannot be retargeted after allocation (field=" ++ field ++ ")."

def retarget (target original : Item) : Except Fault Unit :=
  match retargetFields.find? fun field =>
      !blank (get target field) && !blank (get original field) &&
        !same (get target field) (get original field) with
  | some field => .error (retargeted field)
  | none =>
    let supplied_status := text H (get target "status")
    let original_status := text H (get original "status")
    if supplied_status ≠ "" ∧ original_status ≠ "" ∧ supplied_status ≠ original_status then
      .error (retargeted "status")
    else
      let supplied := text H (get target "body_state")
      let existing := text H (get original "body_state")
      if supplied ≠ "" ∧ existing ≠ "" ∧ supplied ≠ existing ∧
          (_is_lossy_projection H target = false ∨ visibility_rank supplied < 0 ∨
            visibility_rank existing < 0 ∨ visibility_rank existing < visibility_rank supplied)
      then .error (retargeted "body_state")
      else .ok ()

def _resolve_supplied_identity (c : TaskReferenceCatalog) (target : Item)
    (evidence_id reference_id : String) : Except Fault Item :=
  if evidence_id = "" ∨ reference_id = "" then
    .error "Task evidence and reference identities must be carried together."
  else
    match c.evidence.get? evidence_id, c.references.get? reference_id with
    | some evidence, some reference =>
      if evidence.reference_id ≠ reference_id ∨ reference.evidence_id ≠ evidence_id then
        .error "Task evidence/reference identity join is invalid."
      else
        match retarget H target evidence.target with
        | .error e => .error e
        | .ok () => .ok (_project_canonical_item evidence target)
    | _, _ => .error "Task evidence contains an unknown or stale identity."

def _allocate (c : TaskReferenceCatalog) (tag : String) : String × TaskReferenceCatalog :=
  (tag ++ "_" ++ encode_base62 (c.high_water + 1), { c with high_water := c.high_water + 1 })

def add_evidence (item : Item) (c : TaskReferenceCatalog) : Outcome Item :=
  let target := sanitized item
  let supplied_evidence_id := text H (get target "evidence_id")
  let supplied_reference_id := text H (get target "reference_id")
  if supplied_evidence_id ≠ "" ∨ supplied_reference_id ≠ "" then
    match _resolve_supplied_identity H c target supplied_evidence_id supplied_reference_id with
    | .error e => .error e c
    | .ok projected => .ok projected c
  else
    let fingerprint := _evidence_fingerprint H target
    match (c.fingerprints.get? fingerprint).filter (· ≠ "") with
    | some existing_id =>
      match c.evidence.get? existing_id with
      | some record => .ok (_project_canonical_item record target) c
      | none => .error ("KeyError: " ++ existing_id) c
    | none =>
      match _canonical_projection_target H c target with
      | some record => .ok (_project_canonical_item record target) c
      | none =>
        let (evidence_id, c) := _allocate c "evd"
        let (reference_id, c) := _allocate c "ref"
        let source_role := _source_role H target
        let evidence_record : EvidenceRecord :=
          ⟨evidence_id, reference_id, c.task_id, fingerprint, source_role, target⟩
        let reference_record : ReferenceRecord :=
          { reference_id := reference_id
            evidence_id := evidence_id
            task_id := c.task_id
            source_role := source_role
            kind := strOf H.strOf (orElse (get target "kind") (.str ""))
            status := strOf H.strOf (orElse (get target "status") (.str "ok"))
            body_state := strOf H.strOf (orElse (get target "body_state") (.str "ref_only")) }
        .ok (_project_canonical_item evidence_record target)
          { c with
            evidence := c.evidence.set evidence_id evidence_record
            references := c.references.set reference_id reference_record
            fingerprints := c.fingerprints.set fingerprint evidence_id }

def offer_reference (evidence_id : String) (required_role : Option String)
    (c : TaskReferenceCatalog) : Outcome ReferenceRecord :=
  match c.evidence.get? (strip evidence_id) with
  | none => .error "Task evidence identity is unknown or stale." c
  | some evidence =>
    match c.references.get? evidence.reference_id with
    | none => .error "Task reference target is stale." c
    | some reference =>
      if reference.evidence_id ≠ strip evidence_id then
        .error "Task reference target is stale." c
      else
        match _require_role reference required_role with
        | .error e => .error e c
        | .ok () => .ok reference c

def bindable (c : TaskReferenceCatalog) (required_role : Option String) (reference_id : String) :
    Except Fault Unit :=
  if reference_id.startsWith "ref_" = false then
    if _IDENTITY_PREFIXES.any fun tag => reference_id.startsWith tag then
      .error "Task binding cannot accept copied canonical identities in place of reference ids."
    else .error "Task binding accepts only offered reference ids."
  else
    match c.references.get? reference_id with
    | none => .error "Task binding contains a reference that was not offered by this task."
    | some reference =>
      if reference.task_id ≠ c.task_id then
        .error "Task binding contains a cross-task reference."
      else if reference.evidence_id ∉ c.evidence.keys then
        .error "Task binding contains a stale reference target."
      else _require_role reference required_role

def bindableAll (c : TaskReferenceCatalog) (required_role : Option String) :
    List String → Except Fault Unit
  | [] => .ok ()
  | reference_id :: rest =>
    match bindable c required_role reference_id with
    | .error e => .error e
    | .ok () => bindableAll c required_role rest

def bind (subject : String) (offered_reference_ids : List String) (required_role : Option String)
    (c : TaskReferenceCatalog) : Outcome BindingRecord :=
  let reference_ids := offered_reference_ids.map strip
  if strip subject = "" then .error "Task reference binding requires a subject." c
  else if reference_ids = [] ∨ "" ∈ reference_ids then
    .error "Task reference binding requires offered reference ids." c
  else if ¬ reference_ids.Nodup then
    .error "Task reference binding contains duplicate reference ids." c
  else
    match bindableAll c required_role reference_ids with
    | .error e => .error e c
    | .ok () =>
      let (binding_id, c) := _allocate c "bnd"
      let record : BindingRecord :=
        ⟨binding_id, c.task_id, strip subject, reference_ids, required_role.getD ""⟩
      .ok record { c with bindings := c.bindings.set binding_id record }

def resolve (reference_id : String) (task_id : Option String) (c : TaskReferenceCatalog) :
    Outcome (ReferenceRecord × Item) :=
  if task_id.isSome ∧ task_id ≠ some c.task_id then
    .error "Task reference cannot be resolved across task scopes." c
  else
    match c.references.get? (strip reference_id) with
    | none => .error "Task reference identity is unknown or stale." c
    | some reference =>
      if reference.task_id ≠ c.task_id then
        .error "Task reference belongs to a different task scope." c
      else
        match c.evidence.get? reference.evidence_id with
        | none => .error "Task reference target is stale." c
        | some evidence => .ok (reference, sanitized evidence.target) c

structure Snapshot where
  schema_version : String
  task_id : String
  high_water : String
  leased_capacity : String
  task_workspace_leases : List (Nat × Nat)
  evidence : Dict String EvidenceRecord
  references : Dict String ReferenceRecord
  bindings : Dict String BindingRecord
  fingerprints : Dict String String

def persistentFields : List String :=
  ["id", "kind", "status", "raw_status", "body_state", "execution_block_id", "block_id",
    "source_id", "source_revision", "source_ref", "binding_id", "query", "range_start",
    "action_id", "action_call_id", "path", "record_id", "selection_key", "artifact_id",
    "source_url", "selected_url", "requested_url", "canonical_url", "url", "href", "label",
    "title", "locator_id", "content_version_id", "role", "source"]

def _persistent_target (target : Item) : Item :=
  persistentFields.filterMap fun field =>
    if blank (get target field) then none else some (field, (get target field).sanitize)

def decimalText (n : Nat) : String := String.ofList (Nat.toDigits 10 n)

def snapshot (c : TaskReferenceCatalog) : Snapshot :=
  { schema_version := TASK_REFERENCE_CATALOG_SCHEMA_VERSION
    task_id := c.task_id
    high_water := decimalText c.high_water
    leased_capacity := decimalText c.leased_capacity
    task_workspace_leases := c.task_workspace_leases
    evidence := c.evidence.map fun p =>
      (p.1, { p.2 with target := sanitized (_persistent_target p.2.target) })
    references := c.references
    bindings := c.bindings
    fingerprints := c.fingerprints }

def _decimal_counter (value label : String) : Except Fault Nat :=
  if value = "" ∨ value.toList.all Char.isDigit = false ∨
      (1 < value.length ∧ value.toList.head? = some '0') then
    .error ("Task reference catalog " ++ label ++ " is invalid.")
  else .ok (Nat.ofDigitChars 10 value.toList 0)

/-- The checks of one record: its own id, its task, its prefix and its number, which no record
before it has. -/
def checkIdentity (c : TaskReferenceCatalog) (tag entity_id expected task_id : String)
    (seen : List Nat) : Except Fault (List Nat) :=
  if expected ≠ entity_id ∨ task_id ≠ c.task_id then
    .error "Task reference catalog contains a cross-task or mismatched record."
  else
    let chars := entity_id.toList
    if '_' ∉ chars ∨ String.ofList (chars.takeWhile (· ≠ '_')) ≠ tag then
      .error "Task reference catalog contains an invalid entity id."
    else
      match decodeDigits H.reprOf 0 ((chars.dropWhile (· ≠ '_')).drop 1) with
      | .error _ => .error "Task reference catalog contains an invalid entity id."
      | .ok sequence =>
        if sequence = 0 ∨ c.high_water < sequence ∨ sequence ∈ seen then
          .error "Task reference catalog identity sequence is invalid or duplicated."
        else .ok (sequence :: seen)

/-- The first loop, over `(prefix, id, expected id, task id)` in the order of the three maps. -/
def checkIdentities (c : TaskReferenceCatalog) :
    List (String × String × String × String) → List Nat → Except Fault Unit
  | [], _ => .ok ()
  | (tag, entity_id, expected, task_id) :: rest, seen =>
    match checkIdentity H c tag entity_id expected task_id seen with
    | .error e => .error e
    | .ok seen => checkIdentities c rest seen

def identities (c : TaskReferenceCatalog) : List (String × String × String × String) :=
  (c.evidence.map fun p => ("evd", p.1, p.2.evidence_id, p.2.task_id)) ++
    (c.references.map fun p => ("ref", p.1, p.2.reference_id, p.2.task_id)) ++
    c.bindings.map fun p => ("bnd", p.1, p.2.binding_id, p.2.task_id)

def checkEvidence (c : TaskReferenceCatalog) : List (String × EvidenceRecord) → Except Fault Unit
  | [] => .ok ()
  | (evidence_id, evidence) :: rest =>
    if (c.references.get? evidence.reference_id).map ReferenceRecord.evidence_id ≠
        some evidence_id then
      .error "Task reference catalog contains a stale reference target."
    else if evidence.fingerprint = "" ∨
        c.fingerprints.get? evidence.fingerprint ≠ some evidence_id then
      .error "Task reference catalog fingerprint join is invalid."
    else checkEvidence c rest

def checkBindings (c : TaskReferenceCatalog) : Except Fault Unit :=
  if c.bindings.any fun p => p.2.reference_ids.any fun id => id ∉ c.references.keys then
    .error "Task reference catalog binding contains a stale reference target."
  else .ok ()

def _validate_snapshot_graph (c : TaskReferenceCatalog) : Except Fault Unit :=
  match checkIdentities H c (identities c) [] with
  | .error e => .error e
  | .ok () =>
    match checkEvidence c c.evidence with
    | .error e => .error e
    | .ok () => checkBindings c

def Snapshot.catalog (value : Snapshot) (task_id : String) (high_water leased_capacity : Nat) :
    TaskReferenceCatalog :=
  { task_id := task_id
    high_water := high_water
    leased_capacity := leased_capacity
    evidence := value.evidence.map fun p => (p.1, { p.2 with target := sanitized p.2.target })
    references := value.references
    bindings := value.bindings
    fingerprints := value.fingerprints
    task_workspace_leases := value.task_workspace_leases }

def from_snapshot (task_id : String) (value : Snapshot) : Except Fault TaskReferenceCatalog :=
  if value.schema_version ≠ TASK_REFERENCE_CATALOG_SCHEMA_VERSION then
    .error "Task reference catalog snapshot schema is unsupported."
  else if value.task_id ≠ task_id then
    .error "Task reference catalog snapshot belongs to a different task."
  else
    match _decimal_counter value.high_water "high water" with
    | .error e => .error e
    | .ok high_water =>
      match _decimal_counter value.leased_capacity "leased capacity" with
      | .error e => .error e
      | .ok leased_capacity =>
        if strip task_id = "" then .error "Task reference identity requires a task_id."
        else
          let catalog := value.catalog (strip task_id) high_water leased_capacity
          match _validate_snapshot_graph H catalog with
          | .error e => .error e
          | .ok () => .ok catalog

inductive Operation where
  | add_evidence (item : Item)
  | bind (subject : String) (offered_reference_ids : List String) (required_role : Option String)
  | offer_reference (evidence_id : String) (required_role : Option String)
  | resolve (reference_id : String) (task_id : Option String)
  | reload

inductive Answer where
  | item (item : Item)
  | binding (record : BindingRecord)
  | offered (reference : ReferenceRecord)
  | resolved (reference : ReferenceRecord) (target : Item)
  | reloaded
  deriving DecidableEq

def mapOutcome {α : Type} (f : α → Answer) : Outcome α → Outcome Answer
  | .ok a c => .ok (f a) c
  | .error e c => .error e c

/-- One call; `reload` carries the catalog on as `from_snapshot(task_id, snapshot())`. -/
def perform (c : TaskReferenceCatalog) : Operation → Outcome Answer
  | .add_evidence item => mapOutcome .item (add_evidence H item c)
  | .bind subject ids role => mapOutcome .binding (bind subject ids role c)
  | .offer_reference id role => mapOutcome .offered (offer_reference id role c)
  | .resolve id task_id => mapOutcome (fun p => .resolved p.1 p.2) (resolve id task_id c)
  | .reload =>
    match from_snapshot H c.task_id (snapshot c) with
    | .error e => .error e c
    | .ok c' => .ok .reloaded c'

structure Transition where
  before : TaskReferenceCatalog
  operation : Operation
  answer : Except Fault Answer
  after : TaskReferenceCatalog

def take (c : TaskReferenceCatalog) (operation : Operation) : Transition :=
  match perform H c operation with
  | .ok a c' => ⟨c, operation, .ok a, c'⟩
  | .error e c' => ⟨c, operation, .error e, c'⟩

def history (c : TaskReferenceCatalog) : List Operation → List Transition
  | [] => []
  | operation :: rest => take H c operation :: history (take H c operation).after rest

end Agently.AgentTask
