import Agently.TaskDAG.TaskDAGData
import Agently.Utils.Value

/-! # Dispatching the commands of a round

Source: `operation/Action/ActionNormalization.py`, `operation/Action/ActionDispatcher.py`,
`TriggerFlowActionFlow.py`, `AgentlyActionRuntime.py`. A round ends in the approvals it asked for
and the executors it called, each with the position of its command. -/

namespace Agently.Action

open Agently.Lib
open Agently.Utils (Value)
open Agently.TaskDAGValidation (strip)

structure Decision where
  status : String
  reason : String
  policy_override : Dict String Value
  deriving DecidableEq

def Decision.approved (d : Decision) : Bool := decide (d.status = "approved")

inductive PolicyValue where
  | value (v : Value)
  | decision (d : Decision)
  deriving DecidableEq

abbrev Policy := Dict String PolicyValue

/-- `policy.update(other)`. -/
def update (policy other : Policy) : Policy := other.foldl (fun d p => d.set p.1 p.2) policy

def ofValues (d : Dict String Value) : Policy := d.map fun p => (p.1, .value p.2)

structure ActionCall where
  purpose : String
  action_id : String
  action_input : Dict String Value
  policy_override : Policy
  source_protocol : String
  todo_suggestion : String
  deriving DecidableEq

/-- The spec of an action; `kwargs` are its declared inputs, if it declares any. -/
structure ActionSpec where
  name : String
  approval_required : Bool
  default_policy : Dict String Value
  kwargs : Option (List String)
  host_only_input_keys : List String
  required_input_keys : List String
  side_effect_level : String

/-- What a dynamic approval predicate asks for: the subject and the risk of the approval. -/
structure ApprovalContext where
  subject : String
  risk : String

/-- What the host brings: the registry, the settings, the dynamic approval predicates, the approvals
of the gate and of the dispatcher by position, and whether sandbox and execution resources let an
executor be called. -/
structure Host where
  spec : String → Option ActionSpec
  has_executor : String → Bool
  global_policy : Dict String Value
  agent_policy : Dict String Value
  auto_allow : Bool
  policy_approval_handler : Option String
  single_action_id_cohort : Bool
  approval_required_when : String → Dict String Value → Option ApprovalContext
  gate : Nat → Decision
  resolve : Nat → Decision
  admits : String → Policy → Bool

def textOf : Option Value → Option String
  | some (.str s) => if strip s = "" then none else some s
  | _ => none

def dictOf : Option Value → Dict String Value
  | some (.dict kvs) => kvs
  | _ => []

/-- `str` of a value that is no text. -/
def protocolOf (str : Value → String) : Option Value → String
  | none => "structured_plan"
  | some (.str s) => s
  | some v => str v

def normalize_action_call (str : Value → String) (fallback_next : Option String) :
    Value → Option ActionCall
  | .dict command =>
    let get := Dict.get? command
    match (textOf (get "action_id")).or (textOf (get "tool_name")) with
    | none => none
    | some action_id =>
      some
        { purpose := (textOf (get "purpose")).getD ("Use " ++ action_id)
          action_id
          action_input := dictOf ((get "action_input").or (get "tool_kwargs"))
          policy_override := ofValues (dictOf (get "policy_override"))
          source_protocol := protocolOf str (get "source_protocol")
          todo_suggestion :=
            ((textOf (get "todo_suggestion")).or (textOf (get "next"))).getD
              ((textOf (fallback_next.map .str)).getD "") }
  | _ => none

/-- `apply_action_decision_round_dispatch_policy`: only calls of the first call's action. -/
def cohort (H : Host) (calls : List ActionCall) : List ActionCall :=
  if H.single_action_id_cohort then
    match calls with
    | [] => []
    | c :: _ => calls.filter fun d => d.action_id = c.action_id
  else calls

def HOST_ONLY_POLICY_KEYS : List String :=
  ["auto_allow", "policy_approval_granted", "policy_approval_decision", "policy_approval_handler",
    "approval_mode", "task_workspace_roots", "path_allowlist", "path_denylist",
    "allowed_cmd_prefixes", "network_mode", "read_only", "allow_create", "allow_update",
    "allow_delete", "timeout_seconds", "max_output_bytes", "sandbox_required"]

def MODEL_PLANNING_PROTOCOLS : List String := ["structured_plan", "native_tool_calls"]

def planned (source_protocol : String) : Bool :=
  decide (source_protocol ∈ MODEL_PLANNING_PROTOCOLS)

def sanitizedOverride (policy_override : Policy) : Policy :=
  policy_override.filter fun p => p.1 ∉ HOST_ONLY_POLICY_KEYS

def _sanitize_policy_override (policy_override : Policy) (source_protocol : String) : Policy :=
  if planned source_protocol then sanitizedOverride policy_override else policy_override

def sanitizedInput (spec : ActionSpec) (action_input : Dict String Value) : Dict String Value :=
  action_input.filter fun p =>
    p.1 ∉ spec.host_only_input_keys ∧ spec.kwargs.all fun declared => p.1 ∈ declared

def _sanitize_action_input (spec : ActionSpec) (action_input : Dict String Value)
    (source_protocol : String) : Dict String Value :=
  if planned source_protocol then sanitizedInput spec action_input else action_input

variable (H : Host)

def bool (b : Bool) : PolicyValue := .value (.bool b)

def truthy : PolicyValue → Bool
  | .value v => v.truthy
  | .decision _ => true

def merge_access_control_policy (merged : Policy) : Policy :=
  match merged.get? "auto_allow" with
  | some v => merged.set "auto_allow" (bool (truthy v))
  | none => merged.set "auto_allow" (bool H.auto_allow)

def _merge_policy (spec : ActionSpec) (policy_override : Policy) : Policy :=
  merge_access_control_policy H
    (update (update (update (ofValues H.global_policy) (ofValues H.agent_policy))
      (ofValues spec.default_policy)) policy_override)

def withHandler (policy : Policy) : Policy :=
  match H.policy_approval_handler with
  | none => policy
  | some handler =>
    if (policy.get? "policy_approval_handler").any truthy then policy
    else policy.set "policy_approval_handler" (.value (.str handler))

def always (policy : Policy) : Bool :=
  decide (policy.get? "approval_mode" = some (.value (.str "always")))

def granted (policy : Policy) : Bool :=
  decide (policy.get? "policy_approval_granted" = some (bool true))

def trustedOverride (d : Decision) : Policy :=
  [("policy_approval_granted", bool true), ("policy_approval_decision", .decision d)]

def ActionCall.approve (c : ActionCall) (d : Decision) : ActionCall :=
  { c with policy_override := update (sanitizedOverride c.policy_override) (trustedOverride d) }

/-- An approval asked for, by the gate or by the dispatcher, or an executor's call. -/
inductive Event where
  | gateAsked (position : Nat) (action_id subject risk : String) (policy : Policy)
  | approvalAsked (position : Nat) (action_id subject risk : String) (policy : Policy)
  | called (position : Nat) (action_id : String) (action_input : Dict String Value)
      (policy : Policy)
  deriving DecidableEq

def subject (first second : String) : String := if first = "" then second else first

def gatePolicy (c : ActionCall) : Option (ActionSpec × Policy) :=
  match H.spec c.action_id with
  | none => none
  | some spec =>
    let policy := withHandler H (_merge_policy H spec (sanitizedOverride c.policy_override))
    if spec.approval_required || always policy then some (spec, policy) else none

/-- The gate: the approvals asked for, and unless one is denied the commands, with the decision
each was granted by. -/
def gate : Nat → List ActionCall → List Event × Option (List (ActionCall × Option Decision))
  | _, [] => ([], some [])
  | position, c :: rest =>
    match gatePolicy H c with
    | none =>
      ((gate (position + 1) rest).1, (gate (position + 1) rest).2.map ((c, none) :: ·))
    | some (spec, policy) =>
      let ask := Event.gateAsked position c.action_id (subject spec.name c.action_id)
        spec.side_effect_level policy
      if (H.gate position).approved then
        (ask :: (gate (position + 1) rest).1, (gate (position + 1) rest).2.map
          ((c.approve (H.gate position), some (H.gate position)) :: ·))
      else ([ask], none)

def async_execute (position : Nat) (c : ActionCall) (trusted : Option Policy) : List Event :=
  match H.spec c.action_id with
  | none => []
  | some spec =>
    if H.has_executor c.action_id = false then []
    else
      let sanitized_override := _sanitize_policy_override c.policy_override c.source_protocol
      let action_input := _sanitize_action_input spec c.action_input c.source_protocol
      if planned c.source_protocol ∧
          spec.required_input_keys.any (fun key => key ∉ action_input.keys) then []
      else
        let policy := withHandler H
          (update (_merge_policy H spec sanitized_override) (trusted.getD []))
        let dynamic := H.approval_required_when c.action_id action_input
        if spec.approval_required || always policy || dynamic.isSome then
          if granted policy then
            if H.admits c.action_id policy then
              [.called position c.action_id action_input policy]
            else []
          else
            let ask := Event.approvalAsked position c.action_id
              (subject (dynamic.elim "" (·.subject)) (subject spec.name c.action_id))
              (subject (dynamic.elim "" (·.risk)) spec.side_effect_level) policy
            let decision := H.resolve position
            if decision.approved then
              let policy := update (update policy (ofValues decision.policy_override))
                (trustedOverride decision)
              if H.admits c.action_id policy then
                [ask, .called position c.action_id action_input policy]
              else [ask]
            else [ask]
        else if H.admits c.action_id policy then
          [.called position c.action_id action_input policy]
        else []

def trustedOf (gated : List (ActionCall × Option Decision)) (c : ActionCall) : Option Policy :=
  match gated[(gated.map Prod.fst).idxOf c]? with
  | some (_, some decision) => if decision.approved then some (trustedOverride decision) else none
  | _ => none

def dispatchFrom (gated : List (ActionCall × Option Decision)) :
    Nat → List (ActionCall × Option Decision) → List Event
  | _, [] => []
  | position, (c, _) :: rest =>
    async_execute H position c (trustedOf gated c) ++ dispatchFrom gated (position + 1) rest

def execute_step (calls : List ActionCall) : List Event :=
  match gate H 0 (cohort H calls) with
  | (asked, none) => asked
  | (asked, some gated) => asked ++ dispatchFrom H gated 0 gated

def round (str : Value → String) (fallback_next : Option String) (commands : List Value) :
    List Event :=
  execute_step H (commands.filterMap (normalize_action_call str fallback_next))

end Agently.Action
