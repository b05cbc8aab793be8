import Agently.TaskDAG.TaskDAGRuntime
import Agently.TaskDAG.TaskDAGValidation

/-! # Compiling a plan into a graph of execution blocks

Source: `Blocks/AgentlyBlocks.py`, `types/data/blocks.py`, `types/data/execution_plan.py`. What a
graph carries besides its blocks and edges is left out. -/

namespace Agently.Blocks

open Agently.Lib Agently.Utils Agently.TaskDAGValidation

inductive CompileError where
  | valueError (message : String)
  | permissionError (message : String)

/-- `dag` is what `_extract_dag_validation` makes of the bound inputs, where it does not raise. -/
structure PlanBlockInstance where
  id : String
  planBlockId : String
  kind : Option String := none
  boundInputs : Value := .dict []
  capabilityRequirements : List (List (String × Value)) := []
  dag : Option DynamicTask.TaskDAG := none

structure ExecutionPlanEdge where
  fromPlanBlock : String
  toPlanBlock : String

structure CapabilityResolution where
  allowedCapabilities : List String := []
  deniedCapabilities : List String := []
  pendingApprovals : List (List (String × Value)) := []
  scopedActionCandidates : List (List (String × Value)) := []

structure BlockCompileRequest where
  executionId : Option String := none
  planId : Option String := none
  planBlocks : List PlanBlockInstance
  edges : List ExecutionPlanEdge := []
  capabilityResolution : Option CapabilityResolution := none

structure ExecutionBlock where
  id : String
  kind : String
  sourcePlanBlockId : String
  sourceTaskDagNodeId : Option String := none
  boundInputs : Value := .none
  resourceRequirements : List (List (String × Value)) := []

structure ExecutionBlockEdge where
  fromExecutionBlock : String
  toExecutionBlock : String

structure ExecutionBlockGraph where
  graphId : String
  executionBlocks : List ExecutionBlock
  edges : List ExecutionBlockEdge
  startBlocks : List String
  terminalBlocks : List String

def checkAll {α : Type} (check : α → Except CompileError Unit) : List α → Except CompileError Unit
  | [] => .ok ()
  | x :: rest =>
    match check x with
    | .error e => .error e
    | .ok _ => checkAll check rest

def planBlockKinds : List String :=
  ["model_request", "action_call", "mcp_tool_call", "script_action", "context_read", "approval_wait",
    "external_wait", "validation", "observation", "dag_segment", "flow_segment", "emit", "agent_step"]

def actionLikePlanBlockKinds : List String := ["action_call", "mcp_tool_call", "script_action"]

def executionKindForPlanKind (kind : String) : String :=
  if kind ∈ actionLikePlanBlockKinds then "action_call"
  else if kind = "dag_segment" then "dag_node"
  else if kind = "observation" then "snapshot"
  else if kind ∈ ["model_request", "action_call", "context_read", "validation", "approval_wait",
    "external_wait", "flow_segment", "emit", "agent_step"] then kind
  else "emit"

/-- `str(plan_block.kind or plan_block.plan_block_id)`. -/
def PlanBlockInstance.kindText (b : PlanBlockInstance) : String :=
  match b.kind with
  | some kind => textOr kind b.planBlockId
  | none => b.planBlockId

section Capabilities

variable (reprOf : Value → String)

def capabilityNamesFromRequirement (requirement : List (String × Value)) : List String :=
  ["capability", "capability_id", "need", "required_capability", "action_id"].filterMap fun key =>
    let value := get requirement key
    if value = .none ∨ strip (strOf reprOf value) = "" then none
    else some (strip (strOf reprOf value))

/-- `_pending_capability_names` and `_scoped_capability_names`. -/
def capabilityNames (requirements : List (List (String × Value))) : List String :=
  requirements.flatMap (capabilityNamesFromRequirement reprOf)

def isApprovalWait (b : PlanBlockInstance) : Bool := decide (b.kindText = "approval_wait")

def approvalWaitNames (boundInputs : Value) : List String :=
  match boundInputs with
  | .dict kvs =>
    (match get kvs "request" with
      | .dict request => capabilityNamesFromRequirement reprOf request
      | _ => []) ++ capabilityNamesFromRequirement reprOf kvs
  | _ => []

def approvalWaitCapabilityNames (planBlocks : List PlanBlockInstance) : List String :=
  (planBlocks.filter isApprovalWait).flatMap fun b => approvalWaitNames reprOf b.boundInputs

structure Gates where
  denied : List String
  allowed : List String
  pending : List String
  inScope : List String
  approvals : List String

def Gates.of (r : CapabilityResolution) (planBlocks : List PlanBlockInstance) : Gates :=
  { denied := r.deniedCapabilities
    allowed := r.allowedCapabilities
    pending := capabilityNames reprOf r.pendingApprovals
    inScope := capabilityNames reprOf r.scopedActionCandidates
    approvals := approvalWaitCapabilityNames reprOf planBlocks }

/-- `bool(allowed or scoped or pending)`. -/
def Gates.allowlistActive (g : Gates) : Bool :=
  !g.allowed.isEmpty || !g.inScope.isEmpty || !g.pending.isEmpty

def refusal (b : PlanBlockInstance) (what : String) (names : List String) : CompileError :=
  .permissionError ("PlanBlockInstance '" ++ b.id ++ "' requires " ++ what ++ ": " ++
    sortedIds names ++ ".")

def enforceRequirement (g : Gates) (b : PlanBlockInstance) (requirement : List (String × Value)) :
    Except CompileError Unit :=
  let names := capabilityNamesFromRequirement reprOf requirement
  let denied := names.filter fun n => n ∈ g.denied
  let unresolvedPending := names.filter fun n => n ∈ g.pending ∧ n ∉ g.approvals
  let unresolved := names.filter fun n => n ∉ g.allowed ∧ n ∉ g.inScope ∧ n ∉ g.approvals
  if denied ≠ [] then .error (refusal b "denied capability" denied)
  else if unresolvedPending ≠ [] then
    .error (refusal b "capability pending approval" unresolvedPending)
  else if names ≠ [] ∧ g.allowlistActive ∧ unresolved ≠ [] then
    .error (refusal b "unresolved capability" unresolved)
  else .ok ()

def enforceBlock (g : Gates) (b : PlanBlockInstance) : Except CompileError Unit :=
  if isApprovalWait b then .ok ()
  else checkAll (enforceRequirement reprOf g b) b.capabilityRequirements

def enforceCapabilityResolution (resolution : Option CapabilityResolution)
    (planBlocks : List PlanBlockInstance) : Except CompileError Unit :=
  match resolution with
  | none => .ok ()
  | some r => checkAll (enforceBlock reprOf (Gates.of reprOf r planBlocks)) planBlocks

end Capabilities

structure Lowered where
  planBlock : String
  blocks : List ExecutionBlock
  edges : List ExecutionBlockEdge

def dagNodeId (plan task : String) : String := plan ++ ":dag_node:" ++ task

def compileDagSegment (b : PlanBlockInstance) : Except CompileError Lowered :=
  match b.dag with
  | none => .error (.valueError
      "dag_segment PlanBlockInstance requires bound_inputs.task_dag or bound_inputs.graph.")
  | some dag => .ok
      { planBlock := b.id
        blocks := dag.tasks.map fun task =>
          { id := dagNodeId b.id task.id
            kind := "dag_node"
            sourcePlanBlockId := b.id
            sourceTaskDagNodeId := some task.id
            resourceRequirements := b.capabilityRequirements }
        edges := dag.tasks.flatMap fun task =>
          task.dependsOn.map fun d => ⟨dagNodeId b.id d, dagNodeId b.id task.id⟩ }

/-- `_compile_plan_block`; `registered` are the plan blocks of the registry. -/
def compilePlanBlock (registered : List String) (b : PlanBlockInstance) :
    Except CompileError Lowered :=
  let kind := strip b.kindText
  if kind ∉ planBlockKinds ∧ b.planBlockId ∉ registered then
    .error (.valueError ("PlanBlockInstance '" ++ b.id ++
      "' references unknown PlanBlock kind or id: " ++ kind ++ "."))
  else if kind = "dag_segment" then compileDagSegment b
  else .ok
    { planBlock := b.id
      blocks := [{
        id := b.id ++ ":" ++ executionKindForPlanKind kind
        kind := executionKindForPlanKind kind
        sourcePlanBlockId := b.id
        boundInputs := b.boundInputs
        resourceRequirements := b.capabilityRequirements }]
      edges := [] }

def compilePlanBlocks (registered : List String) :
    List PlanBlockInstance → Except CompileError (List Lowered)
  | [] => .ok []
  | b :: rest =>
    match compilePlanBlock registered b with
    | .error e => .error e
    | .ok lowered =>
      match compilePlanBlocks registered rest with
      | .error e => .error e
      | .ok others => .ok (lowered :: others)

def checkPlanEdge (ids : List String) (edge : ExecutionPlanEdge) : Except CompileError Unit :=
  if edge.fromPlanBlock ∉ ids then
    .error (.valueError ("ExecutionPlan edge references missing from_plan_block: " ++
      edge.fromPlanBlock ++ "."))
  else if edge.toPlanBlock ∉ ids then
    .error (.valueError ("ExecutionPlan edge references missing to_plan_block: " ++
      edge.toPlanBlock ++ "."))
  else .ok ()

/-- `plan_to_execution.get(..)`: the last plan block of an id counts. -/
def planToExecution (lowered : List Lowered) (plan : String) : List String :=
  (Dict.get? (lowered.foldl
    (fun found l => Dict.set found l.planBlock (l.blocks.map ExecutionBlock.id)) []) plan).getD []

def crossEdges (lowered : List Lowered) (edge : ExecutionPlanEdge) : List ExecutionBlockEdge :=
  (planToExecution lowered edge.fromPlanBlock).flatMap fun a =>
    (planToExecution lowered edge.toPlanBlock).map fun b => ⟨a, b⟩

def graphIdOf (request : BlockCompileRequest) : String :=
  "blocks:" ++ textOr ((request.planId).getD "") (textOr ((request.executionId).getD "") "plan")

def assembleGraph (request : BlockCompileRequest) (lowered : List Lowered) : ExecutionBlockGraph :=
  let blocks := lowered.flatMap Lowered.blocks
  let edges := lowered.flatMap Lowered.edges ++ request.edges.flatMap (crossEdges lowered)
  let ids := blocks.map ExecutionBlock.id
  { graphId := graphIdOf request
    executionBlocks := blocks
    edges := edges.filter fun e => e.fromExecutionBlock ∈ ids ∧ e.toExecutionBlock ∈ ids
    startBlocks := ids.filter fun b => b ∉ edges.map ExecutionBlockEdge.toExecutionBlock
    terminalBlocks := ids.filter fun b => b ∉ edges.map ExecutionBlockEdge.fromExecutionBlock }

def compile (reprOf : Value → String) (registered : List String) (request : BlockCompileRequest) :
    Except CompileError ExecutionBlockGraph :=
  match checkAll (checkPlanEdge (request.planBlocks.map PlanBlockInstance.id)) request.edges with
  | .error e => .error e
  | .ok _ =>
    match enforceCapabilityResolution reprOf request.capabilityResolution request.planBlocks with
    | .error e => .error e
    | .ok _ =>
      match compilePlanBlocks registered request.planBlocks with
      | .error e => .error e
      | .ok lowered => .ok (assembleGraph request lowered)

theorem compile_eq_ok {reprOf : Value → String} {registered : List String}
    {request : BlockCompileRequest} {graph : ExecutionBlockGraph}
    (h : compile reprOf registered request = .ok graph) :
    enforceCapabilityResolution reprOf request.capabilityResolution request.planBlocks = .ok () ∧
      ∃ lowered, compilePlanBlocks registered request.planBlocks = .ok lowered ∧
        graph = assembleGraph request lowered := by
  unfold compile at h
  split at h
  · cases h
  · split at h
    · cases h
    · rename_i henforced
      split at h
      · cases h
      · rename_i lowered hlowered
        exact ⟨henforced, lowered, hlowered, (Except.ok.inj h).symm⟩

namespace ExecutionBlockGraph

variable (graph : ExecutionBlockGraph)

def blockIds : List String := graph.executionBlocks.map ExecutionBlock.id

def incoming (block : String) : List String :=
  (graph.edges.filter fun e => e.toExecutionBlock = block).map
    ExecutionBlockEdge.fromExecutionBlock

def children (block : String) : List String :=
  (graph.edges.filter fun e => e.fromExecutionBlock = block).map
    ExecutionBlockEdge.toExecutionBlock

end ExecutionBlockGraph

end Agently.Blocks
