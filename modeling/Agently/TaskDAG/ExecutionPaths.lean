import Agently.Blocks.ReplanSignals
import Agently.Lib.Machine
import Agently.TaskDAG.Placeholders

/-! # The two paths that execute a task graph

Source: `TaskDAG/TaskDAGExecutor.py`, `TaskDAG/TaskDAGRuntime.py`, `TaskDAG/TaskDAGHelpers.py`,
`Blocks/AgentlyBlocks.py`. A step is what one party does between two suspensions; whatever the
surroundings bring comes with the step. -/

namespace Agently.TaskDAGValidation

open Agently.Lib Agently.Utils Agently.DataLocator

/-- What a handler is a function of: the task with its inputs, the graph input and the results
of the dependencies. -/
structure TaskCall where
  task : TaskDAGNode
  graphInput : Value
  dependencyResults : List (String × Value)

/-- `answer` is what a callable returns, or the text of what it raises; `intOf` is `int()` of a
value, where it does not raise. -/
structure TaskDAGExecutor where
  isCallable : Value → Bool
  call : Value → TaskDAGNode → Value
  reprOf : Value → String
  intOf : Value → Option Int
  answer : Value → TaskCall → Except String Value
  resolver : TaskDAGResolver

def Fault.message : Fault → String
  | .typeError message | .valueError message => message

/-- Where a task is. `gating` and `raising` are the direct path's; `cancelling` and `dropped` that
through blocks: the recorded block's replan signals cancel blocks, or it was cancelled before it
began. -/
inductive TaskPhase where
  | gating
  | calling
  | raising (reason : String)
  | returned (output : Value)
  | cancelling (output : Value) (ids : List String)
  | dropped
  | recorded (output : Value)
  | failed (reason : String)
  deriving DecidableEq

structure TaskRun where
  call : TaskCall
  approvals : List String := []
  attempts : Nat := 0
  phase : TaskPhase

def TaskPhase.outcome : TaskPhase → Option (Except String Value)
  | .returned output | .cancelling output _ | .recorded output => some (.ok output)
  | .raising reason | .failed reason => some (.error reason)
  | .gating | .calling | .dropped => none

abbrev SemanticOutputs := Dict String Value

def resultOutput (task : String) (result : Value) : Value :=
  .dict [("task_id", .str task), ("result", result)]

section Paths

variable (ex : TaskDAGExecutor)

def TaskDAGExecutor.validate (graph : TaskDAG) : Except Fault Validation :=
  validateGraph ex.isCallable ex.call ex.reprOf ex.resolver graph

def TaskDAGExecutor.resolve (task : TaskDAGNode) : Value :=
  TaskDAGResolver.resolve ex.isCallable ex.call ex.resolver task

def noHandler (task : TaskDAGNode) : String :=
  "Dynamic task '" ++ task.id ++ "' kind '" ++ task.kind ++ "' has no executable handler."

def fallbackAction (task : TaskDAGNode) : Option String :=
  match task.fallback with
  | .str s => some s
  | .dict kvs => strOrNone ex.reprOf (orElse (get kvs "on_error") (get kvs "action"))
  | _ => none

/-- `str(_fallback_action(task) or "").strip().lower() == "retry"`; no letter outside ASCII
becomes one of these. -/
def asksRetry (task : TaskDAGNode) : Bool :=
  decide ((strip ((fallbackAction ex task).getD "")).map Char.toLower = "retry")

def fallbackConfig (task : TaskDAGNode) : List (String × Value) :=
  match task.fallback with
  | .dict kvs => kvs
  | _ => []

def coercePositiveInt (value : Value) (default : Nat) : Nat :=
  match ex.intOf value with
  | some n => if 1 ≤ n then n.toNat else default
  | none => default

def fallbackRetryConfig (task : TaskDAGNode) : Option Nat :=
  if asksRetry ex task then
    some (max 1 (coercePositiveInt ex (get (fallbackConfig task) "max_attempts") 3))
  else none

def fallbackTerminalAction (task : TaskDAGNode) : Option String :=
  if asksRetry ex task then
    match task.fallback with
    | .dict kvs => some (strOf ex.reprOf (orElse (get kvs "then") (.str "fail")))
    | _ => some "fail"
  else fallbackAction ex task

def approvalType (task : TaskDAGNode) : String :=
  match task.approval with
  | .dict kvs =>
    if (get kvs "type").truthy then strOf ex.reprOf (get kvs "type") else "dynamic_task_approval"
  | _ => "dynamic_task_approval"

inductive ApprovalAnswer where
  | approved
  | denied (reason : String)

/-- The output of an approval task; `resume` is what the paused execution was resumed with. -/
def approvalOutput (resume : Value) : Value :=
  if resume = .none then
    .dict [("status", .str "approved"), ("approved", .bool true),
      ("reason", .str "Task DAG approval passed.")]
  else resume

def produceRole : Value → Option String
  | .str s => some s
  | .dict kvs => strOrNone ex.reprOf (orElse (get kvs "role") (get kvs "name"))
  | _ => none

def extractArtifactRefs : Value → Option Value
  | .dict kvs =>
    let refs := get kvs "artifact_refs"
    let refs := if refs = .none then get kvs "artifacts" else refs
    if refs.truthy then some refs else none
  | _ => none

def collected (taskResults artifactRefs : Dict String Value) (task : String) : Option Value :=
  match Dict.get? artifactRefs task with
  | some refs => some (.dict [("task_id", .str task), ("artifact_refs", refs)])
  | none => (Dict.get? taskResults task).map (resultOutput task)

def collectRef (taskResults artifactRefs : Dict String Value) (outputs : SemanticOutputs)
    (ref : String × String) : SemanticOutputs :=
  match collected taskResults artifactRefs ref.2 with
  | some x => Dict.set outputs ref.1 x
  | none => outputs

def collectProduced (taskResults artifactRefs : Dict String Value) (task : String)
    (outputs : SemanticOutputs) (item : Value) : SemanticOutputs :=
  match produceRole ex item with
  | none => outputs
  | some role =>
    if role ≠ "" ∧ role ∉ Dict.keys outputs ∧ task ∈ Dict.keys taskResults then
      match collected taskResults artifactRefs task with
      | some x => Dict.set outputs role x
      | none => outputs
    else outputs

def collectSemanticOutputs (graph : TaskDAG) (taskResults artifactRefs : Dict String Value) :
    SemanticOutputs :=
  graph.tasks.foldl
    (fun outputs task =>
      task.produces.foldl (collectProduced ex taskResults artifactRefs task.id) outputs)
    ((semanticOutputTaskRefs ex.reprOf graph.semanticOutputs).foldl
      (collectRef taskResults artifactRefs) [])

structure DirectRun where
  graphInput : Value
  runs : Dict String TaskRun
  taskResults : Dict String Value
  taskFailures : Dict String String
  artifactRefs : Dict String Value
  semanticOutputs : Option SemanticOutputs

def DirectRun.initial (graphInput : Value) : DirectRun :=
  { graphInput := graphInput, runs := [], taskResults := [], taskFailures := []
    artifactRefs := [], semanticOutputs := none }

inductive DirectAction where
  | start (task : TaskDAGNode) (triggerPayload executionState : Value)
  | answer (task : String) (answer : ApprovalAnswer)
  | resume (task : String) (value triggerPayload executionState : Value)
  | execute (task : String)
  | fail (task : String)
  | record (task : String)
  | finalize

/-- `run_task` up to the approval gate or the handler. What resolving a placeholder raises is
caught by nobody. -/
def beginTask (task : TaskDAGNode) (d : PlaceholderData) : TaskRun :=
  match resolvePlaceholders (fun s => ex.intOf (.str s)) d task.inputs with
  | .error e => { call := ⟨task, d.initialInput, d.dependencyResults⟩, phase := .failed e.message }
  | .ok inputs =>
    let resolved := { task with inputs := inputs }
    { call := ⟨resolved, d.initialInput, d.dependencyResults⟩
      phase := match approvalRequired resolved with
        | .error e => .raising e.message
        | .ok true => .gating
        | .ok false => .calling }

def passedGate (task : TaskDAGNode) (resume : Value) : TaskPhase :=
  if isApprovalTask task then .returned (approvalOutput resume) else .calling

def answerGate (run : TaskRun) (a : ApprovalAnswer) : TaskRun :=
  { run with
    approvals := run.approvals ++ [approvalType ex run.call.task]
    phase := match a with
      | .denied reason => .raising reason
      | .approved => passedGate run.call.task .none }

/-- `run_task` of a resumed execution: it reads everything again and does not ask again. -/
def resumeTask (approvals : List String) (begun : TaskRun) (resume : Value) : TaskRun :=
  { begun with
    approvals := approvals ++ [approvalType ex begun.call.task]
    phase := match begun.phase with
      | .failed reason => .failed reason
      | _ => passedGate begun.call.task resume }

def executeHandler (c : TaskCall) : Except String Value :=
  if ex.isCallable (ex.resolve c.task) then ex.answer (ex.resolve c.task) c
  else .error (noHandler c.task)

/-- One attempt of `_execute_node_handler`. -/
def executeNodeHandler (run : TaskRun) : TaskRun :=
  { run with
    attempts := run.attempts + 1
    phase := match executeHandler ex run.call with
      | .ok output => .returned output
      | .error reason =>
        match fallbackRetryConfig ex run.call.task with
        | none => .raising reason
        | some maxAttempts => if maxAttempts ≤ run.attempts + 1 then .raising reason else .calling }

def skippedOutput (reason : String) : Value :=
  .dict [("status", .str "skipped"), ("reason", .str reason)]

/-- What happens to a task that is in a phase `next` is about. -/
def DirectRun.advance (r : DirectRun) (id : String) (next : TaskRun → Option DirectRun) :
    Option DirectRun :=
  (r.runs.get? id).bind next

def DirectRun.setRun (r : DirectRun) (id : String) (run : TaskRun) : DirectRun :=
  { r with runs := r.runs.set id run }

/-- `_record_task_failure`, and what the terminal action makes of the error. -/
def recordTaskFailure (r : DirectRun) (id : String) (run : TaskRun) (reason : String) : DirectRun :=
  { r with
    taskFailures := r.taskFailures.set id reason
    runs := r.runs.set id { run with
      phase := if fallbackTerminalAction ex run.call.task = some "skip" then
        .returned (skippedOutput reason) else .failed reason } }

def recordTaskSuccess (r : DirectRun) (id : String) (run : TaskRun) (output : Value) : DirectRun :=
  { r with
    taskResults := r.taskResults.set id output
    artifactRefs := match extractArtifactRefs output with
      | some refs => r.artifactRefs.set id refs
      | none => r.artifactRefs
    runs := r.runs.set id { run with phase := .recorded output } }

def startTask (graph : TaskDAG) (r : DirectRun) (task : TaskDAGNode)
    (triggerPayload executionState : Value) : Option DirectRun :=
  if task ∈ graph.tasks ∧ r.runs.get? task.id = none then
    (dependencyResults r.taskResults task.dependsOn []).map fun deps =>
      r.setRun task.id
        (beginTask ex task ⟨triggerPayload, r.graphInput, executionState, deps, task.id⟩)
  else none

def directStep (graph : TaskDAG) (r : DirectRun) : DirectAction → Option DirectRun
  | .start task triggerPayload executionState =>
    startTask ex graph r task triggerPayload executionState
  | .answer id a => r.advance id fun run =>
    if run.phase = .gating then some (r.setRun id (answerGate ex run a)) else none
  | .resume id value triggerPayload executionState => r.advance id fun run =>
    if run.phase = .gating then
      (graph.taskById id).bind fun task =>
        (dependencyResults r.taskResults task.dependsOn []).map fun deps =>
          r.setRun id (resumeTask ex run.approvals
            (beginTask ex task ⟨triggerPayload, r.graphInput, executionState, deps, id⟩) value)
    else none
  | .execute id => r.advance id fun run =>
    if run.phase = .calling then some (r.setRun id (executeNodeHandler ex run)) else none
  | .fail id => r.advance id fun run =>
    match run.phase with
    | .raising reason => some (recordTaskFailure ex r id run reason)
    | _ => none
  | .record id => r.advance id fun run =>
    match run.phase with
    | .returned output => some (recordTaskSuccess r id run output)
    | _ => none
  | .finalize =>
    if r.taskResults.length = graph.tasks.length ∧ r.semanticOutputs = none then
      some { r with
        semanticOutputs := some (collectSemanticOutputs ex graph r.taskResults r.artifactRefs) }
    else none

/-- `TaskDAGExecutor.async_run` on a validated graph, which validating again keeps. -/
def asyncRun (graph : TaskDAG) : Machine DirectRun DirectAction := ⟨directStep ex graph⟩

def blockId (graph : TaskDAG) (task : String) : String :=
  graph.graphId ++ ":dag_node:" ++ task

structure BlockResult where
  executionBlockId : String
  sourceTaskDagNodeId : String
  output : Value

/-- The state of the bound graph's execution; `completed` are the blocks whose completed event
has been emitted. -/
structure BlocksRun where
  graphInput : Option Value
  runs : Dict String TaskRun
  executionBlockResults : List BlockResult
  cancelledExecutionBlockIds : List String
  completed : List String
  semanticOutputs : Option SemanticOutputs

def BlocksRun.initial : BlocksRun :=
  { graphInput := none, runs := [], executionBlockResults := []
    cancelledExecutionBlockIds := [], completed := [], semanticOutputs := none }

inductive BlocksAction where
  | start (task : TaskDAGNode) (input : Value)
  | execute (task : String)
  | record (task : String)
  | cancel (task : String)
  | finalize

def outputsByTask (results : List BlockResult) : Dict String Value :=
  results.foldl (fun outputs x => Dict.set outputs x.sourceTaskDagNodeId x.output) []

def outputsByBlock (results : List BlockResult) : Dict String Value :=
  results.foldl (fun outputs x => Dict.set outputs x.executionBlockId x.output) []

def dependencyResultsForBlock (results : List BlockResult) (dependsOn : List String) :
    List (String × Value) :=
  dependsOn.foldl
    (fun deps d =>
      match Dict.get? (outputsByTask results) d with
      | some x => Dict.set deps d x
      | none => deps) []

def blocksTaskHandler (c : TaskCall) : Except String Value :=
  let handler := ex.resolve c.task
  if handler = .none then .error (noHandler c.task)
  else if ex.isCallable handler then ex.answer handler c
  else .error ("'" ++ typeName handler ++ "' object is not callable")

def blockChildren (graph : TaskDAG) (block : String) : List String :=
  graph.tasks.flatMap fun task =>
    (task.dependsOn.filter fun d => blockId graph d = block).map fun _ => blockId graph task.id

def blockIds (graph : TaskDAG) : List String := graph.ids.map (blockId graph)

def cancelledOutput : Value :=
  .dict [("cancelled", .bool true), ("reason", .str "Cancelled by structured ReplanSignal.")]

def terminalBlocks (graph : TaskDAG) : List String :=
  (blockIds graph).filter fun b => (blockChildren graph b).isEmpty

def taskDagSemanticOutputs (graph : TaskDAG) (results : List BlockResult) : SemanticOutputs :=
  (semanticOutputTaskRefs ex.reprOf graph.semanticOutputs).foldl
    (fun outputs ref =>
      match Dict.get? (outputsByTask results) ref.2 with
      | some x => Dict.set outputs ref.1 (resultOutput ref.2 x)
      | none => outputs) []

def semanticOutputsFromSnapshot (graph : TaskDAG) (results : List BlockResult) : SemanticOutputs :=
  if taskDagSemanticOutputs ex graph results ≠ [] then taskDagSemanticOutputs ex graph results
  else (terminalBlocks graph).foldl
    (fun outputs block =>
      match Dict.get? (outputsByBlock results) block with
      | some x => Dict.set outputs block x
      | none => outputs) []

def BlocksRun.advance (b : BlocksRun) (id : String) (next : TaskRun → Option BlocksRun) :
    Option BlocksRun :=
  (b.runs.get? id).bind next

def BlocksRun.setRun (b : BlocksRun) (id : String) (run : TaskRun) : BlocksRun :=
  { b with runs := b.runs.set id run }

def recordBlockResult (graph : TaskDAG) (b : BlocksRun) (id : String) (output : Value)
    (run : TaskRun) : BlocksRun :=
  { b with
    executionBlockResults := b.executionBlockResults ++ [⟨blockId graph id, id, output⟩]
    runs := b.runs.set id run }

def completeBlock (graph : TaskDAG) (b : BlocksRun) (id : String) (run : TaskRun) : BlocksRun :=
  { b with
    completed := b.completed ++ [blockId graph id]
    runs := b.runs.set id run }

/-- `run_block` up to its handler. A root is started with the graph input, the others with the
event of a dependency or with a gate's value. -/
def startBlock (graph : TaskDAG) (graphInput : Value) (b : BlocksRun) (task : TaskDAGNode)
    (input : Value) : Option BlocksRun :=
  if task ∈ graph.tasks ∧ b.runs.get? task.id = none ∧
      ∀ d ∈ task.dependsOn, blockId graph d ∈ b.completed then
    let value := if task.dependsOn = [] then graphInput else input
    let known := b.graphInput.getD value
    let deps := dependencyResultsForBlock b.executionBlockResults task.dependsOn
    some { b with
      graphInput := some known
      runs := b.runs.set task.id
        { call := ⟨task, known, deps⟩
          phase := if blockId graph task.id ∈ b.cancelledExecutionBlockIds then .dropped
            else .calling } }
  else none

def executeBlock (run : TaskRun) : TaskRun :=
  { run with
    attempts := run.attempts + 1
    phase := match blocksTaskHandler ex run.call with
      | .ok output => .returned output
      | .error reason => .failed reason }

def blocksStep (graph : TaskDAG) (graphInput : Value) (b : BlocksRun) :
    BlocksAction → Option BlocksRun
  | .start task input => startBlock graph graphInput b task input
  | .execute id => b.advance id fun run =>
    if run.phase = .calling then some (b.setRun id (executeBlock ex run)) else none
  | .record id => b.advance id fun run =>
    match run.phase with
    | .returned output => some (recordBlockResult graph b id output { run with
        phase := .cancelling output
          (Blocks.cancelledIdsForReplanSignals (blockIds graph) (blockChildren graph) (blockId graph id)
            (Blocks.replanSignalsFromOutput ex.reprOf output)) })
    | .dropped => some (recordBlockResult graph b id cancelledOutput { run with
        phase := .cancelling cancelledOutput [] })
    | _ => none
  | .cancel id => b.advance id fun run =>
    match run.phase with
    | .cancelling output (c :: rest) => some { b with
        cancelledExecutionBlockIds :=
          if c ∈ b.cancelledExecutionBlockIds then b.cancelledExecutionBlockIds
          else b.cancelledExecutionBlockIds ++ [c]
        runs := b.runs.set id { run with phase := .cancelling output rest } }
    | .cancelling output [] =>
      some (completeBlock graph b id { run with phase := .recorded output })
    | _ => none
  | .finalize =>
    if (∀ x ∈ terminalBlocks graph, x ∈ b.completed) ∧ b.semanticOutputs = none then
      some { b with
        semanticOutputs := some (semanticOutputsFromSnapshot ex graph b.executionBlockResults) }
    else none

def asyncRunBlocks (graph : TaskDAG) (graphInput : Value) : Machine BlocksRun BlocksAction :=
  ⟨blocksStep ex graph graphInput⟩

end Paths

end Agently.TaskDAGValidation
