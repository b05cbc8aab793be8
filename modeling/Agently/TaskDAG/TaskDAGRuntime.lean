import Agently.Operation.PolicyApproval
import Agently.TriggerFlow.RuntimeData

/-! # Running a task graph

Source: `TaskDAG/TaskDAGRuntime.py`, `TaskDAG/TaskDAGHelpers.py`, `TaskDAG/TaskDAGValidation.py`,
`TriggerFlow/Chunk.py` and `TriggerFlow/process/BaseProcess.py`. Task runners are coroutines over
the execution of the compiled flow. -/

namespace Agently.DynamicTask

open Agently.Lib Agently.Utils Agently.TriggerFlow Agently.Operation

/-- `approvalRequired` and `skipOnFailure` are `_approval_required` and
`_fallback_terminal_action(..) == "skip"` of the node. -/
structure TaskDAGNode where
  id : String
  kind : String := "task"
  dependsOn : List String := []
  approvalRequired : Bool := false
  skipOnFailure : Bool := false

/-- A graph `validate_task_dag` accepts. -/
structure TaskDAG where
  graphId : String
  tasks : List TaskDAGNode
  nonempty : tasks ≠ []
  ids_nodup : (tasks.map TaskDAGNode.id).Nodup
  known : ∀ task ∈ tasks, ∀ d ∈ task.dependsOn, d ∈ tasks.map TaskDAGNode.id
  acyclic : ∃ rank : String → Nat, ∀ task ∈ tasks, ∀ d ∈ task.dependsOn, rank d < rank task.id

inductive DagHandler where
  | kickoff
  | run (task : String)
  | join (dependencies : List String)
  | finalize
  deriving DecidableEq

/-- `joined` is the `When-` event of a gate, whose id is made from its sorted signals;
`returned` the event a chunk emits when its handler returns. -/
inductive DagEvent where
  | flowStart
  | start (task : String)
  | done (task : String)
  | failed (task : String)
  | joined (dependencies : List String)
  | doneGraph
  | returned (handler : DagHandler)
  deriving DecidableEq

def gateOf (dependsOn : List String) : List String := dependsOn.insertionSort fun a b => a ≤ b

def taskTrigger (task : TaskDAGNode) : DagEvent :=
  match task.dependsOn with
  | [] => .start task.id
  | [d] => .done d
  | _ => .joined (gateOf task.dependsOn)

/-- The handlers compiling the task registers on `event`. -/
def registers (event : DagEvent) (task : TaskDAGNode) : List DagHandler :=
  (if taskTrigger task = event then [.run task.id] else []) ++
    match event with
    | .done d =>
      if 2 ≤ task.dependsOn.length ∧ d ∈ task.dependsOn then [.join (gateOf task.dependsOn)] else []
    | _ => []

def registered : List DagHandler → List DagHandler
  | [] => []
  | h :: rest => h :: (registered rest).filter fun x => x ≠ h

/-- `compile_task_dag`: the handlers of each event; `chunkId` gives the drawn ids. -/
def compileTaskDag (graph : TaskDAG) (chunkId : DagHandler → String) : Flow DagEvent DagHandler where
  handlers := fun type event =>
    match type, event with
    | .event, .flowStart => [.kickoff]
    | .event, .doneGraph => [.finalize]
    | .event, _ => registered (graph.tasks.flatMap (registers event))
    | _, _ => []
  operatorId := fun h => some (chunkId h)
  continuationEvent := fun h => some (.returned h)

def TaskDAG.task? (graph : TaskDAG) (id : String) : Option TaskDAGNode :=
  graph.tasks.find? fun task => decide (task.id = id)

def TaskDAG.approvalRequired (graph : TaskDAG) (id : String) : Bool :=
  (graph.task? id).any TaskDAGNode.approvalRequired

def approvalInterruptId (graph : TaskDAG) (task : String) : String :=
  "task:" ++ graph.graphId ++ ":" ++ task

/-- What a suspended handler does next. `executing` runs the node handler, `recording` has
its output, `suspended` has returned the pause signal. -/
inductive RunnerPhase where
  | kickoff (roots : List String)
  | joining
  | joined (key : List String × String)
  | finalizing
  | starting
  | gating
  | pausing (decision : PolicyApprovalDecision)
  | paused (serial task : Nat)
  | executing
  | recording (output : Value)
  | announced (output : Value)
  | failing
  | failed
  | returning (output : Value)
  | suspended (serial : Nat)
  | over
  deriving DecidableEq

inductive DagNotice where
  | gated (task : String) (serial : Nat)
  | continued (serial : Nat) (value : Value)
  | ran (task : String)
  | completed (task : String)
  deriving DecidableEq

structure DagRun where
  execution : Execution DagEvent DagHandler
  phases : Dict Nat RunnerPhase
  joins : Dict (List String × String) (List String)
  results : Dict String Value
  log : List DagNotice

/-- What the surroundings of a handler give it: the value its await returns, or that it
raises, the clock, and fresh identifiers. -/
structure RunnerInput where
  value : Value := .none
  raised : Bool := false
  now : Nat := 0
  freshId : String := ""

/-- `engine` is a step of the execution that no handler takes: a dispatch goes on or fails, an
interrupt call goes on, `continue_with` is called, pending interrupts are cancelled, the
execution is sealed or closed. -/
inductive DagAction where
  | engine (a : ExecutionAction DagEvent DagHandler)
  | runner (invocation : Nat) (input : RunnerInput)

section Steps

variable (graph : TaskDAG)

def roots : List String :=
  (graph.tasks.filter fun task => task.dependsOn.isEmpty).map TaskDAGNode.id

def initialPhase : DagHandler → RunnerPhase
  | .kickoff => .kickoff (roots graph)
  | .run _ => .starting
  | .join _ => .joining
  | .finalize => .finalizing

def phaseOf (r : DagRun) (n : Nat) (inv : Invocation DagEvent DagHandler) : RunnerPhase :=
  (r.phases.get? n).getD (initialPhase graph inv.handler)

def setRunner (r : DagRun) (n : Nat) (phase : RunnerPhase) : DagRun :=
  { r with phases := r.phases.set n phase }

def emitDag (r : DagRun) (s : Signal DagEvent) : DagRun :=
  { r with execution := { r.execution with
      dispatches := r.execution.dispatches ++ [emitted r.execution s false] } }

def approvalRequest (task : TaskDAGNode) : List (String × Value) :=
  [("source", .str "task_dag"), ("risk", .str "task_dag_approval"),
   ("lineage", .dict [("graph_id", .str graph.graphId), ("task_id", .str task.id)])]

def approvalPause (task : TaskDAGNode) (d : PolicyApprovalDecision) : PauseArgs DagEvent :=
  GateCall.pauseArgs
    { gate := task.id, interruptId := some (approvalInterruptId graph task.id)
      request := approvalRequest graph task : GateCall String DagEvent } d

/-- The gate of a runner that is not a resume: the policy handler's answer decides. -/
def gateAnswer (resolved : Value) : RunnerPhase :=
  match normalizeDecision "" resolved with
  | none => .failing
  | some d =>
    match d.status with
    | .approved => .executing
    | .denied => .failing
    | .pending => .pausing d

def execute (r : DagRun) (n : Nat) (task : String) : DagRun :=
  setRunner { r with log := .ran task :: r.log } n .executing

def complete (r : DagRun) (n : Nat) (task : String) (output : Value) : DagRun :=
  setRunner { r with log := .completed task :: r.log } n (.recording output)

def approvalOutput (s : Signal DagEvent) : Value :=
  let resumed := match s.signalMeta.get? "resume" with
    | some (.dict kvs) => (Dict.get? kvs "value").getD .none
    | _ => .none
  if s.isResume ∧ resumed ≠ .none then resumed
  else .dict [("status", .str "approved"), ("approved", .bool true),
    ("reason", .str "Task DAG approval passed.")]

def stepRunTask (flow : Flow DagEvent DagHandler) (r : DagRun) (n : Nat)
    (inv : Invocation DagEvent DagHandler) (task : TaskDAGNode) (c : RunnerInput) :
    RunnerPhase → Option DagRun
  | .starting =>
    if c.raised then some (setRunner r n .over)
    else if task.approvalRequired ∧ inv.signal.isResume = false then some (setRunner r n .gating)
    else some (execute r n task.id)
  | .gating =>
    if c.raised then some (setRunner r n .failing)
    else match gateAnswer c.value with
      | .executing => some (execute r n task.id)
      | phase => some (setRunner r n phase)
  | .pausing d =>
    let serial := r.execution.raises.length
    (pauseFrom flow r.execution inv (approvalPause graph task d) c.now c.freshId).map fun e =>
      if serial < e.raises.length then
        setRunner { r with execution := e, log := .gated task.id serial :: r.log } n
          (.paused serial r.execution.pool.tasks.length)
      else setRunner { r with execution := e } n .failing
  | .paused serial index =>
    match r.execution.pool.tasks[index]? with
    | some (.pauseFor (.finished raised)) =>
      some (setRunner r n (if raised then .failing else .suspended serial))
    | _ => none
  | .executing =>
    if task.kind = "approval" then some (complete r n task.id (approvalOutput inv.signal))
    else if c.raised then some (setRunner r n .failing)
    else some (complete r n task.id c.value)
  | .recording output =>
    let results := r.results.set task.id output
    let value := Value.dict [("task_id", .str task.id), ("result", output)]
    some (setRunner
      (emitDag { r with results := results }
        (emitFrom inv.signal c.freshId (.done task.id) value inv.signal.layerMarks))
      n (.announced output))
  | .announced output =>
    if c.raised then some (setRunner r n .over)
    else if r.results.length = graph.tasks.length then
      some (setRunner
        (emitDag r (emitFrom inv.signal c.freshId .doneGraph (.dict r.results) inv.signal.layerMarks))
        n (.returning output))
    else some (setRunner r n (.returning output))
  | .failing =>
    some (setRunner
      (emitDag r
        (emitFrom inv.signal c.freshId (.failed task.id) c.value inv.signal.layerMarks))
      n .failed)
  | .failed =>
    if c.raised = false ∧ task.skipOnFailure then
      some (setRunner r n (.recording (.dict [("status", .str "skipped"), ("reason", c.value)])))
    else some (setRunner r n .over)
  | _ => none

def filledBy (dependencies : List String) (s : Signal DagEvent) (filled : List String) : List String :=
  match s.triggerEvent with
  | .done d => if d ∈ dependencies ∧ d ∉ filled then filled ++ [d] else filled
  | _ => filled

def stepJoin (r : DagRun) (n : Nat) (inv : Invocation DagEvent DagHandler)
    (dependencies : List String) (c : RunnerInput) : RunnerPhase → Option DagRun
  | .joining =>
    let key := (dependencies, inv.signal.layerKey)
    let filled := filledBy dependencies inv.signal ((r.joins.get? key).getD [])
    let r := { r with joins := r.joins.set key filled }
    if dependencies.all fun d => decide (d ∈ filled) then
      some (setRunner
        (emitDag r (emitFrom inv.signal c.freshId (.joined dependencies) c.value
          inv.signal.layerMarks))
        n (.joined key))
    else some (setRunner r n .over)
  | .joined key => some (setRunner { r with joins := r.joins.del key } n .over)
  | _ => none

def stepKickoff (r : DagRun) (n : Nat) (inv : Invocation DagEvent DagHandler) (c : RunnerInput) :
    RunnerPhase → Option DagRun
  | .kickoff (t :: rest) =>
    let s := emitFrom inv.signal c.freshId (.start t)
      (.dict [("task_id", .str t), ("graph_id", .str graph.graphId)]) inv.signal.layerMarks
    let e := if acceptsSignal r.execution s false then
        { r.execution with dispatches := r.execution.dispatches ++ [emitted r.execution s true] }
      else r.execution
    some (setRunner { r with execution := e } n (.kickoff rest))
  | .kickoff [] => some (setRunner r n (.returning .none))
  | _ => none

def stepReturn (r : DagRun) (n : Nat) (inv : Invocation DagEvent DagHandler) (c : RunnerInput) :
    RunnerPhase → Option DagRun
  | .returning output =>
    if isWaiting r.execution.pool.state then some (setRunner r n .over)
    else some (setRunner
      (emitDag r
        (emitFrom inv.signal c.freshId (.returned inv.handler) output inv.signal.layerMarks))
      n .over)
  | _ => none

def endRunner (r : DagRun) (n : Nat) (inv : Invocation DagEvent DagHandler) :
    RunnerPhase → Option DagRun
  | .over | .suspended _ => some { r with execution := { r.execution with
      invocations := r.execution.invocations.set n { inv with running := false } } }
  | _ => none

def stepHandler (flow : Flow DagEvent DagHandler) (r : DagRun) (n : Nat)
    (inv : Invocation DagEvent DagHandler) (c : RunnerInput) (phase : RunnerPhase) : Option DagRun :=
  (endRunner r n inv phase <|> stepReturn r n inv c phase) <|>
    match inv.handler with
    | .kickoff => stepKickoff graph r n inv c phase
    | .run t => (graph.task? t).bind fun task => stepRunTask graph flow r n inv task c phase
    | .join dependencies => stepJoin r n inv dependencies c phase
    | .finalize => if phase = .finalizing then some (setRunner r n (.returning c.value)) else none

end Steps

def engineAllowed : ExecutionAction DagEvent DagHandler → Bool
  | .advanceDispatch _ | .failDispatch _ | .continueWith _ | .advance _ _ _ | .cancel _ | .sealExecution | .close => true
  | _ => false

def continuedNotice (e : Execution DagEvent DagHandler) : ExecutionAction DagEvent DagHandler →
    List DagNotice
  | .advance index .ok _ =>
    match e.pool.tasks[index]? with
    | some (.continueWith (.resuming .streamPut x)) => [.continued x.interrupt.serial x.args.value]
    | _ => []
  | _ => []

def dagStep (graph : TaskDAG) (chunkId : DagHandler → String) (r : DagRun) :
    DagAction → Option DagRun
  | .engine a =>
    if engineAllowed a then
      (executionStep (compileTaskDag graph chunkId) r.execution a).map fun e =>
        { r with execution := e, log := continuedNotice r.execution a ++ r.log }
    else none
  | .runner n c =>
    r.execution.invocations[n]?.bind fun inv =>
      if inv.running then
        stepHandler graph (compileTaskDag graph chunkId) r n inv c (phaseOf graph r n inv)
      else none

def taskDagRun (graph : TaskDAG) (chunkId : DagHandler → String) : Machine DagRun DagAction :=
  ⟨dagStep graph chunkId⟩

def DagRun.initial (graphInput : Value) : DagRun :=
  { execution := { (Execution.initial : Execution DagEvent DagHandler) with
      dispatches := [{ signal := { id := "start", triggerEvent := .flowStart, value := graphInput }
                       cause := .emitted, phase := .entering false, origin := 0 }] }
    phases := []
    joins := []
    results := []
    log := [] }

end Agently.DynamicTask
