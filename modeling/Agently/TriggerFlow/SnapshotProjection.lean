import Mathlib
import Agently.Utils.JsonEdit
import Agently.Utils.JsonText

/-! # Snapshot projection

Source: `TriggerFlow/SnapshotProjection.py`, `TriggerFlow/ExecutionInterrupts.py`. A saved snapshot
may hold the digest of a resume request's value in place of the value. `sha256` is the hexadecimal
digest of a text's UTF-8 bytes, `reprOf` what `str()` gives for values that are no strings: never
the empty text. -/

namespace Agently.TriggerFlow.SnapshotProjection

open Agently.Lib Agently.Utils Agently.Utils.Json

def triggerFlowValueProjectionKey : String := "$triggerflow_projection"
def triggerFlowValueDigestKind : String := "value_digest"
def triggerFlowValueDigestAlgorithm : String := "sha256"

abbrev Counts := Nat × Int × Nat

abbrev ProjectionEdit := JsonEdit String Counts

def isStr (v : Option Json) (s : String) : Bool :=
  match v with
  | some (.str t) => t == s
  | _ => false

def isNull : Json → Bool
  | .null => true
  | _ => false

def canonicalBytes (v : Json) : Nat := v.canonicalText.utf8ByteSize

def isValueDigestProjection (v : Json) : Bool :=
  isStr (v.get? triggerFlowValueProjectionKey) triggerFlowValueDigestKind

def isHexDigit (c : Char) : Bool := "0123456789abcdef".toList.contains c

def isSha256Hex (s : String) : Bool := s.length == 64 && s.toList.all isHexDigit

abbrev Sha256Hex := {s : String // isSha256Hex s = true}

def validateValueDigestProjection (v : Json) : Except String (String × Int) :=
  if isValueDigestProjection v = false then
    .error "TriggerFlow value is not a digest projection."
  else if isStr (v.get? "algorithm") triggerFlowValueDigestAlgorithm = false then
    .error "TriggerFlow value digest projection uses an unsupported algorithm."
  else match v.get? "sha256" with
    | some (.str digest) =>
      if isSha256Hex digest = false then
        .error "TriggerFlow value digest projection has an invalid sha256."
      else match v.get? "serialized_bytes" with
        | some (.int n) =>
          if n < 0 then
            .error "TriggerFlow value digest projection has an invalid serialized_bytes."
          else .ok (digest, n)
        | _ => .error "TriggerFlow value digest projection has an invalid serialized_bytes."
    | _ => .error "TriggerFlow value digest projection has an invalid sha256."

structure ProjectionPolicy where
  enabled : Bool := false
  terminalValueMode : String := "digest"
  minValueBytes : Int := 4096
  projectTerminalSignalAttempts : Bool := true

structure ProjectionState where
  version : Nat := 1
  policy : ProjectionPolicy
  applied : Bool
  deferredReason : Option String
  projectedTerminalInterruptIds : List String := []
  counts : Counts := 0

section Projection

variable (floatValue : FloatText → ℚ) (sha256 : String → Sha256Hex)
  (reprOf : Json → {s : String // s ≠ ""})

def valueMatchesDigestProjection (value projection : Json) : Except String Bool :=
  match validateValueDigestProjection projection with
  | .error e => .error e
  | .ok (digest, n) =>
    .ok ((canonicalBytes value : Int) == n && (sha256 value.canonicalText).val == digest)

def digestProjection (v : Json) : Json :=
  .obj [(triggerFlowValueProjectionKey, .str triggerFlowValueDigestKind),
    ("algorithm", .str triggerFlowValueDigestAlgorithm),
    ("sha256", .str (sha256 v.canonicalText).val),
    ("serialized_bytes", .int (canonicalBytes v))]

def projectValue (policy : ProjectionPolicy) : ProjectionEdit := fun v =>
  if isValueDigestProjection v then
    match validateValueDigestProjection v with
    | .error e => .error e
    | .ok (_, n) => .ok (v, (1, n, canonicalBytes v))
  else if policy.terminalValueMode ≠ "digest" then .ok (v, 0)
  else if (canonicalBytes v : Int) < policy.minValueBytes then .ok (v, 0)
  else .ok (digestProjection sha256 v,
    (1, (canonicalBytes v : Int), canonicalBytes (digestProjection sha256 v)))

def projectHeld (policy : ProjectionPolicy) : ProjectionEdit :=
  Edit.guarded (fun v => !isNull v) (projectValue sha256 policy)

def isCompletedRequest (record : Json) : Bool := isStr (record.get? "status") "completed"

def projectRequest (policy : ProjectionPolicy) : ProjectionEdit :=
  Edit.guarded isCompletedRequest (atKey "value" (projectHeld sha256 policy))

def isTerminalInterrupt (interrupt : Json) : Bool :=
  isStr (interrupt.get? "status") "resumed" || isStr (interrupt.get? "status") "cancelled"

def terminalInterruptEdits (policy : ProjectionPolicy) : List (String × ProjectionEdit) :=
  [("payload", projectHeld sha256 policy), ("response", projectHeld sha256 policy),
    ("resume_value", projectHeld sha256 policy),
    ("external_wait_request",
      atKey "audit_metadata" (atKey "payload" (projectHeld sha256 policy))),
    ("resume_requests", atValues (projectRequest sha256 policy))]

def projectTerminalInterrupt (policy : ProjectionPolicy) : ProjectionEdit :=
  atKeys (terminalInterruptEdits sha256 policy)

def isTerminalAttempt (attempt : Json) : Bool :=
  isStr (attempt.get? "status") "completed" || isStr (attempt.get? "status") "failed" ||
    isStr (attempt.get? "status") "interrupted"

def truthy : Json → Bool
  | .null => false
  | .bool b => b
  | .int n => decide (n ≠ 0)
  | .float f => decide (floatValue f ≠ 0)
  | .str s => decide (s ≠ "")
  | .arr xs => !xs.isEmpty
  | .obj kvs => !kvs.isEmpty

def pyStr : Json → String
  | .str s => s
  | v => (reprOf v).val

def textOr : List (Option Json) → String
  | [] => ""
  | none :: rest => textOr rest
  | some v :: rest => if truthy floatValue v then pyStr reprOf v else textOr rest

def summaryKeys : List String :=
  ["id", "status", "resume_request_id", "resumed_at", "cancelled_at", "source_execution_id",
    "source_operator_id"]

/-- The value `interrupt` holds under `k`, unless it is `None`. -/
def kept (interrupt : Json) (k : String) : Option Json :=
  (interrupt.get? k).filter fun v => !isNull v

def interruptSummary (interrupt : Json) : Json :=
  .obj (summaryKeys.filterMap fun k => (kept interrupt k).map fun v => (k, v))

def resumedInterruptId (signalMeta : Json) (resume : List (String × Json)) : String :=
  textOr floatValue reprOf [Dict.get? resume "interrupt_id", signalMeta.get? "interrupt_id"]

/-- The `resume` part a terminal attempt keeps. -/
def projectedResume (signalMeta : Json) (resume : List (String × Json)) (value : Json) :
    List (String × Json) :=
  [("interrupt_id", .str (resumedInterruptId floatValue reprOf signalMeta resume)),
    ("resume_request_id", (signalMeta.get? "resume_request_id").getD .null),
    ("actor_id", (signalMeta.get? "actor_id").getD .null),
    ("value", value),
    ("interrupt", interruptSummary ((Dict.get? resume "interrupt").getD .null))]

def projectResumeMeta (policy : ProjectionPolicy) (terminalIds : List String) : ProjectionEdit :=
  fun signalMeta =>
    match signalMeta.get? "resume" with
    | some (.obj resume) =>
      if resumedInterruptId floatValue reprOf signalMeta resume ∈ terminalIds then
        match projectValue sha256 policy ((Dict.get? resume "value").getD .null) with
        | .error e => .error e
        | .ok (value, m) =>
          .ok (setKey signalMeta "resume"
            (.obj (projectedResume floatValue reprOf signalMeta resume value)), m)
      else .ok (signalMeta, 0)
    | _ => .ok (signalMeta, 0)

def projectTerminalSignalAttempts (policy : ProjectionPolicy) (terminalIds : List String) :
    ProjectionEdit :=
  atKey "signal_attempts" (atItems (Edit.guarded isTerminalAttempt
    (atKey "meta" (projectResumeMeta floatValue sha256 reprOf policy terminalIds))))

def terminalInterruptIds : Json → List String
  | .obj kvs => (kvs.filter fun p => isTerminalInterrupt p.2).map Prod.fst
  | _ => []

def projectInterrupts (policy : ProjectionPolicy) : ProjectionEdit :=
  atValues (Edit.guarded isTerminalInterrupt (projectTerminalInterrupt sha256 policy))

def deferred (policy : ProjectionPolicy) (reason : String) : ProjectionState :=
  { policy := policy, applied := false, deferredReason := some reason }

def project (policy : ProjectionPolicy) (interrupts signalNet : Json) (executionIdle : Bool) :
    Except String (Json × Json × ProjectionState) :=
  if policy.enabled = false then .ok (interrupts, signalNet, deferred policy "disabled")
  else if executionIdle = false then
    .ok (interrupts, signalNet, deferred policy "execution_not_idle")
  else
    let ids := terminalInterruptIds interrupts
    match projectInterrupts sha256 policy interrupts with
    | .error e => .error e
    | .ok (projected, m) =>
      match Edit.guarded (fun _ => policy.projectTerminalSignalAttempts)
          (projectTerminalSignalAttempts floatValue sha256 reprOf policy ids) signalNet with
      | .error e => .error e
      | .ok (net, n) =>
        .ok (projected, net,
          { policy := policy, applied := true, deferredReason := none
            projectedTerminalInterruptIds := ids, counts := m + n })

/-- `_same_resume_request_value`; a value of JSON type is its own serialisation. -/
def sameResumeRequestValue (record value : Json) : Except String Bool :=
  let stored := (record.get? "value").getD .null
  if isValueDigestProjection stored then valueMatchesDigestProjection sha256 value stored
  else .ok (stored.pyEq floatValue value)

end Projection

end Agently.TriggerFlow.SnapshotProjection
