import Agently.Lib.Reachable
import Agently.Lib.TopologicalSort
import Agently.TaskDAG.TaskDAGData
import Mathlib.Data.List.Dedup
import Mathlib.Data.List.Sort

/-! # Validating a task graph

Source: `TaskDAG/TaskDAGValidation.py`, `TaskDAG/TaskDAGResolver.py` and
`TaskDAG/TaskDAGHelpers.py`. `isCallable` is `callable`, and `call` what a resolver factory
answers for a node. -/

namespace Agently.TaskDAGValidation

open Agently.Lib Agently.Utils

def isIdHead (c : Char) : Bool := c.isAlpha || c == '_'

def isIdChar (c : Char) : Bool := c.isAlphanum || c == '_' || c == '.' || c == '-'

def matchesTaskId (s : String) : Bool :=
  match s.toList with
  | [] => false
  | c :: cs => isIdHead c && cs.all isIdChar

abbrev TaskDAGResolver := Dict String Value

def TaskDAGResolver.register (r : TaskDAGResolver) (key : String) (value : Value) :
    Except Fault TaskDAGResolver :=
  let normalizedKey := strip key
  if normalizedKey = "" then
    .error (.valueError "TaskDAGResolver.register() requires a non-empty key.")
  else if matchesTaskId normalizedKey = false then
    .error (.valueError ("TaskDAG resolver key '" ++ normalizedKey ++
      "' is invalid. Use letters, digits, underscore, dot, or dash."))
  else .ok (Dict.set r normalizedKey value)

def registerAll : List (String × Value) → TaskDAGResolver → Except Fault TaskDAGResolver
  | [], r => .ok r
  | (k, v) :: rest, r =>
    match r.register k v with
    | .error e => .error e
    | .ok r => registerAll rest r

def defaultValidateTask : Value := .object "_default_validate_task" []

def defaultEmitTask : Value := .object "_default_emit_task" []

def newResolver (entries : List (String × Value)) : Except Fault TaskDAGResolver :=
  registerAll entries [("validate", defaultValidateTask), ("emit", defaultEmitTask)]

/-- What the `resolver` argument may be. -/
inductive ResolverArg where
  | none
  | mapping (entries : List (String × Value))
  | resolver (r : TaskDAGResolver)

def coerceResolver : ResolverArg → Except Fault TaskDAGResolver
  | .none => newResolver []
  | .mapping entries => newResolver entries
  | .resolver r => .ok r

def isTaskResolverFactory : Value → Bool
  | .object _ attrs => (get attrs "task_dag_resolver_factory").truthy
  | _ => false

section Validation

variable (isCallable : Value → Bool) (call : Value → TaskDAGNode → Value)

def resolveRegistered (value : Value) (task : TaskDAGNode) : Value :=
  if isTaskResolverFactory value then call value task else value

def TaskDAGResolver.resolve (r : TaskDAGResolver) (task : TaskDAGNode) : Value :=
  if task.binding ≠ .none ∧ isCallable task.binding then task.binding
  else
    match task.binding with
    | .str binding =>
      match Dict.get? r binding with
      | some value => resolveRegistered call value task
      | none =>
        if task.kind ∈ ["model", "action", "skill"] then
          match Dict.get? r task.kind with
          | some value => resolveRegistered call value task
          | none => .none
        else .none
    | _ =>
      match Dict.get? r task.id with
      | some value => resolveRegistered call value task
      | none =>
        match Dict.get? r task.kind with
        | some value => resolveRegistered call value task
        | none => .none

def isUnresolved (r : TaskDAGResolver) (task : TaskDAGNode) : Bool :=
  !isApprovalTask task && decide (TaskDAGResolver.resolve isCallable call r task = .none)

def raise (message : String) : Except Fault Unit := .error (.valueError message)

def checkEach {α : Type} (check : α → Except Fault Unit) : List α → Except Fault Unit
  | [] => .ok ()
  | x :: rest =>
    match check x with
    | .error e => .error e
    | .ok _ => checkEach check rest

def checkTaskId (task : TaskDAGNode) : Except Fault Unit :=
  if task.id = "" then raise "Dynamic task id must be non-empty."
  else if matchesTaskId task.id = false then
    raise ("Dynamic task id '" ++ task.id ++
      "' is invalid. Use letters, digits, underscore, dot, or dash.")
  else .ok ()

def duplicates : List String → List String → List String
  | _, [] => []
  | seen, id :: rest =>
    if id ∈ seen then id :: duplicates seen rest else duplicates (id :: seen) rest

def sortedIds (ids : List String) : String :=
  ", ".intercalate (ids.dedup.insertionSort fun a b => a ≤ b)

def checkDuplicates (ids : List String) : Except Fault Unit :=
  if duplicates [] ids = [] then .ok ()
  else raise ("Duplicate dynamic task id(s): " ++ sortedIds (duplicates [] ids) ++ ".")

def TaskDAG.ids (graph : TaskDAG) : List String := graph.tasks.map TaskDAGNode.id

def checkDependency (ids : List String) (task : TaskDAGNode) (dependency : String) :
    Except Fault Unit :=
  if dependency ∈ ids then .ok ()
  else raise ("Dynamic task '" ++ task.id ++ "' depends on missing task '" ++ dependency ++ "'.")

def checkDependencies (graph : TaskDAG) : Except Fault Unit :=
  checkEach (fun task => checkEach (checkDependency graph.ids task) task.dependsOn) graph.tasks

def TaskDAG.taskById (graph : TaskDAG) (id : String) : Option TaskDAGNode :=
  graph.tasks.find? fun task => decide (task.id = id)

def TaskDAG.dependsOn (graph : TaskDAG) (id : String) : List String :=
  ((graph.taskById id).map TaskDAGNode.dependsOn).getD []

def TaskDAG.adjacency (graph : TaskDAG) (id : String) : List String :=
  graph.tasks.flatMap fun task => (task.dependsOn.filter fun d => d = id).map fun _ => task.id

def TaskDAG.roots (graph : TaskDAG) : List String :=
  (graph.tasks.filter fun task => task.dependsOn.isEmpty).map TaskDAGNode.id

def TaskDAG.unsorted (graph : TaskDAG) : TopologicalSort.State String :=
  { queue := graph.roots
    ordered := []
    indegree := fun id => (graph.dependsOn id).length }

def TaskDAG.sorted (graph : TaskDAG) : TopologicalSort.State String :=
  TopologicalSort.rounds graph.adjacency graph.ids.length graph.unsorted

def checkOrder (graph : TaskDAG) : Except Fault Unit :=
  if graph.roots = [] then raise "Task DAG must contain at least one root task."
  else if graph.sorted.ordered.length ≠ graph.tasks.length then
    raise ("Task DAG contains a dependency cycle: " ++
      sortedIds (graph.ids.filter fun id => decide (0 < graph.sorted.indegree id)) ++ ".")
  else .ok ()

variable (reprOf : Value → String)

def TaskDAG.outputTasks (graph : TaskDAG) : List String :=
  (Dict.vals (semanticOutputTaskRefs reprOf graph.semanticOutputs)).dedup

def semanticRequiredTaskIds (graph : TaskDAG) : List String :=
  let required := graph.outputTasks reprOf
  (Reachable.rounds graph.dependsOn (required ++ graph.ids).length
    { queue := required, seen := required }).seen

structure Pruning where
  pruned : List String
  diagnostics : List (List (String × Value))
  changed : Bool

def noResolverEntry (task : TaskDAGNode) : String :=
  "Dynamic task '" ++ task.id ++ "' kind '" ++ task.kind ++ "' has no executor resolver entry."

def failOrPrune (required : List String) (p : Pruning) (task : TaskDAGNode) (reason : String) :
    Except Fault Pruning :=
  if task.id ∈ required then .error (.valueError (noResolverEntry task))
  else
    match approvalRequired task with
    | .error e => .error e
    | .ok true => .error (.valueError (noResolverEntry task))
    | .ok false =>
      if task.sideEffectPolicy ≠ [] then .error (.valueError (noResolverEntry task))
      else .ok { p with
        pruned := p.pruned ++ [task.id]
        diagnostics := p.diagnostics ++ [[("level", .str "warning"), ("code", .str reason),
          ("task_id", .str task.id), ("kind", .str task.kind), ("binding", task.binding)]] }

def pruneUnresolved (r : TaskDAGResolver) (required : List String) :
    List TaskDAGNode → Pruning → Except Fault Pruning
  | [], p => .ok p
  | task :: rest, p =>
    if isUnresolved isCallable call r task then
      match failOrPrune required p task "dynamic_task.unknown_optional_binding_skipped" with
      | .error e => .error e
      | .ok p => pruneUnresolved r required rest p
    else pruneUnresolved r required rest p

def prunePass (required : List String) : List TaskDAGNode → Pruning → Except Fault Pruning
  | [], p => .ok p
  | task :: rest, p =>
    if task.id ∈ p.pruned then prunePass required rest p
    else
      let missing := task.dependsOn.filter fun d => d ∈ p.pruned
      if missing = [] then prunePass required rest p
      else if task.id ∈ required then
        .error (.valueError ("Dynamic task '" ++ task.id ++
          "' depends on skipped optional task(s): " ++ ", ".intercalate missing ++ "."))
      else prunePass required rest
        { pruned := p.pruned ++ [task.id]
          diagnostics := p.diagnostics ++ [[("level", .str "warning"),
            ("code", .str "dynamic_task.optional_dependent_skipped"),
            ("task_id", .str task.id), ("dependencies", .list (missing.map .str))]]
          changed := true }

def prunePasses (required : List String) (tasks : List TaskDAGNode) :
    Nat → Pruning → Except Fault Pruning
  | 0, p => .ok p
  | n + 1, p =>
    if p.changed then
      match prunePass required tasks { p with changed := false } with
      | .error e => .error e
      | .ok p => prunePasses required tasks n p
    else .ok p

structure Ordered where
  graph : TaskDAG
  roots : List String
  ordered : List String

def keptGraph (graph : TaskDAG) (p : Pruning) : TaskDAG :=
  { graph with
    tasks := graph.tasks.filter fun task => task.id ∉ p.pruned
    diagnostics := p.diagnostics }

def keptTasks (graph : TaskDAG) (p : Pruning) : Except Fault Ordered :=
  let kept := keptGraph graph p
  if p.pruned = [] then .ok ⟨graph, graph.roots, graph.sorted.ordered⟩
  else if kept.tasks = [] then
    .error (.valueError "Task DAG has no executable tasks after pruning unresolved optional tasks.")
  else if kept.roots = [] then
    .error (.valueError "Task DAG has no root task after pruning unresolved optional tasks.")
  else .ok ⟨kept, kept.roots, graph.sorted.ordered.filter fun id => id ∈ kept.ids⟩

def pruneUnresolvedOptionalTasks (r : TaskDAGResolver) (graph : TaskDAG) :
    Except Fault Ordered :=
  let required := semanticRequiredTaskIds reprOf graph
  let start : Pruning := { pruned := [], diagnostics := graph.diagnostics, changed := true }
  match pruneUnresolved isCallable call r required graph.tasks start with
  | .error e => .error e
  | .ok p =>
    match prunePasses required graph.tasks (graph.tasks.length + 1) p with
    | .error e => .error e
    | .ok p => keptTasks graph p

def checkResolver (r : TaskDAGResolver) (task : TaskDAGNode) : Except Fault Unit :=
  if isUnresolved isCallable call r task then raise (noResolverEntry task) else .ok ()

def checkOutput (ids : List String) (output : String × String) : Except Fault Unit :=
  if output.2 ∈ ids then .ok ()
  else raise ("Task DAG semantic output '" ++ output.1 ++ "' references missing task '" ++
    output.2 ++ "'.")

def validateSemanticOutputs (graph : TaskDAG) : Except Fault Unit :=
  checkEach (checkOutput graph.ids) (semanticOutputTaskRefs reprOf graph.semanticOutputs)

def approvalPolicy (graph : TaskDAG) : String :=
  strOf reprOf ((Dict.get? graph.policies "approval").getD
    ((Dict.get? graph.policies "side_effect_approval").getD (.str "allow")))

def declaresSideEffects (task : TaskDAGNode) : Bool :=
  ["external_write", "credential_usage", "local_write", "network"].any fun k =>
    (get task.sideEffectPolicy k).truthy

def checkSideEffects (task : TaskDAGNode) : Except Fault Unit :=
  if declaresSideEffects task then
    match approvalRequired task with
    | .error e => .error e
    | .ok true => .ok ()
    | .ok false => raise ("Dynamic task '" ++ task.id ++
        "' declares side effects but has no approval policy.")
  else .ok ()

def requiresApprovals (graph : TaskDAG) : Bool :=
  ["require", "required", "fail_closed"].contains (approvalPolicy reprOf graph)

def validateSideEffects (graph : TaskDAG) : Except Fault Unit :=
  if requiresApprovals reprOf graph then checkEach checkSideEffects graph.tasks else .ok ()

structure Validation where
  graph : TaskDAG
  taskIds : List String
  rootTaskIds : List String
  topologicalTaskIds : List String
  diagnostics : List (List (String × Value))
  deriving DecidableEq

/-- The checks in their order; each goes on from what the ones before it accepted. -/
def validateGraph (r : TaskDAGResolver) (graph : TaskDAG) : Except Fault Validation := do
  if graph.tasks = [] then
    throw (.valueError "Task DAG must contain at least one task.")
  checkEach checkTaskId graph.tasks
  checkDuplicates graph.ids
  checkDependencies graph
  checkOrder graph
  let kept ← pruneUnresolvedOptionalTasks isCallable call reprOf r graph
  checkEach (checkResolver isCallable call r) kept.graph.tasks
  validateSemanticOutputs reprOf kept.graph
  validateSideEffects reprOf kept.graph
  return {
    graph := kept.graph
    taskIds := kept.graph.ids
    rootTaskIds := kept.roots
    topologicalTaskIds := kept.ordered
    diagnostics := kept.graph.diagnostics }

variable (nodeOf : Value → Option TaskDAGNode) (graphOf : Value → Option TaskDAG)

def validateTaskDag (freshId : String) (candidate : Value) (resolver : ResolverArg) :
    Except Fault Validation := do
  let graph ← graphFromValue reprOf nodeOf graphOf freshId candidate
  let r ← coerceResolver resolver
  validateGraph isCallable call reprOf r graph

end Validation

end Agently.TaskDAGValidation
