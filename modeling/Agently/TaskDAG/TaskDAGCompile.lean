import Agently.TaskDAG.ValidGraphs

/-! # Compiling task graphs into a flow

Source: `TaskDAG/TaskDAGRuntime.py`, `TaskDAG/TaskDAGHelpers.py`, `TaskDAG/TaskDAGExecutor.py`,
`TriggerFlow/BluePrint.py`, `TriggerFlow/Definition.py`, `TriggerFlow/process/BaseProcess.py`.
A handler is known by what it was built from; chunk and gate ids by the names they digest. -/

namespace Agently.TaskDAGCompile

open Agently.Lib Agently.Utils Agently.TaskDAGValidation

/-- One task in `_graph_signature`. -/
structure SignatureEntry where
  id : String
  kind : String
  dependsOn : List String
  binding : Option String
  approval : Value
  fallback : Value

def bindingName : Value → Option String
  | .str s => some s
  | _ => none

def graphSignature (graph : TaskDAG) : List SignatureEntry :=
  graph.tasks.map fun task =>
    { id := task.id, kind := task.kind, dependsOn := task.dependsOn
      binding := bindingName task.binding, approval := task.approval, fallback := task.fallback }

def sameEntry (a b : SignatureEntry) : Bool :=
  decide (a.id = b.id) && decide (a.kind = b.kind) && decide (a.dependsOn = b.dependsOn) &&
    decide (a.binding = b.binding) && Value.pyEq a.approval b.approval &&
    Value.pyEq a.fallback b.fallback

def sameSignature : List SignatureEntry → List SignatureEntry → Bool
  | [], [] => true
  | a :: as, b :: bs => sameEntry a b && sameSignature as bs
  | _, _ => false

inductive Closure where
  | kickoff (graph : TaskDAG) (rootTaskIds : List String)
  | runTask (graph : TaskDAG) (task : TaskDAGNode) (resolver : TaskDAGResolver)
  | finalize (graph : TaskDAG)

inductive Phase where
  | kickoff
  | run
  | finalize
  deriving DecidableEq

/-- `_chunk_name` and the key of the handler cache. -/
structure HandlerKey where
  graphId : String
  phase : Phase
  taskId : String
  deriving DecidableEq

inductive FlowEvent where
  | start
  | startTask (task : String)
  | doneTask (task : String)
  | joined (signals : List String)
  | doneGraph (graphId : String)
  deriving DecidableEq

inductive HandlerId where
  | chunk (key : HandlerKey)
  | gate (signals : List String)
  deriving DecidableEq

/-- What compiling changes of a flow. `gates` has the listen signals of each gate operator. -/
structure TaskFlow where
  signatures : Dict String (List SignatureEntry)
  closures : Dict HandlerKey Closure
  registered : List (FlowEvent × HandlerId)
  gates : Dict (List String) (List String)

def TaskFlow.fresh : TaskFlow := { signatures := [], closures := [], registered := [], gates := [] }

def TaskFlow.cachedHandler (f : TaskFlow) (key : HandlerKey) (closure : Closure) : TaskFlow :=
  match Dict.get? f.closures key with
  | some _ => f
  | none => { f with closures := Dict.set f.closures key closure }

def TaskFlow.addHandler (f : TaskFlow) (event : FlowEvent) (id : HandlerId) : TaskFlow :=
  if (event, id) ∈ f.registered then f else { f with registered := f.registered ++ [(event, id)] }

def TaskFlow.addHandlers (f : TaskFlow) (id : HandlerId) : List FlowEvent → TaskFlow
  | [] => f
  | event :: rest => (f.addHandler event id).addHandlers id rest

def gateOf (dependsOn : List String) : List String := dependsOn.insertionSort fun a b => a ≤ b

def listenSignals (dependsOn : List String) : List String := dependsOn.eraseDups

def taskEvent (task : TaskDAGNode) : FlowEvent :=
  match task.dependsOn with
  | [] => .startTask task.id
  | [d] => .doneTask d
  | _ => .joined (gateOf task.dependsOn)

def operatorExists (signals : List String) : String :=
  "TriggerFlow operator 'when-" ++ ", ".intercalate signals ++
    "' already exists with a different definition."

def TaskFlow.addGate (f : TaskFlow) (dependsOn : List String) :
    Except (Fault × TaskFlow) TaskFlow :=
  let signals := gateOf dependsOn
  let f := f.addHandlers (.gate signals) ((listenSignals dependsOn).map .doneTask)
  match Dict.get? f.gates signals with
  | none => .ok { f with gates := Dict.set f.gates signals (listenSignals dependsOn) }
  | some listening =>
    if listening = listenSignals dependsOn then .ok f
    else .error (.valueError (operatorExists signals), f)

def TaskFlow.taskTrigger (f : TaskFlow) (task : TaskDAGNode) : Except (Fault × TaskFlow) TaskFlow :=
  if task.dependsOn.length < 2 then .ok f else f.addGate task.dependsOn

def runKey (graph : TaskDAG) (task : TaskDAGNode) : HandlerKey := ⟨graph.graphId, .run, task.id⟩

def kickoffKey (graph : TaskDAG) : HandlerKey := ⟨graph.graphId, .kickoff, "*"⟩

def finalizeKey (graph : TaskDAG) : HandlerKey := ⟨graph.graphId, .finalize, "*"⟩

def TaskFlow.compileTask (f : TaskFlow) (graph : TaskDAG) (r : TaskDAGResolver)
    (task : TaskDAGNode) : Except (Fault × TaskFlow) TaskFlow :=
  match (f.cachedHandler (runKey graph task) (.runTask graph task r)).taskTrigger task with
  | .error e => .error e
  | .ok f => .ok (f.addHandler (taskEvent task) (.chunk (runKey graph task)))

def TaskFlow.compileTasks (graph : TaskDAG) (r : TaskDAGResolver) :
    List TaskDAGNode → TaskFlow → Except (Fault × TaskFlow) TaskFlow
  | [], f => .ok f
  | task :: rest, f =>
    match f.compileTask graph r task with
    | .error e => .error e
    | .ok f => compileTasks graph r rest f

/-- The signature check lets `graph` through. -/
def TaskFlow.allows (f : TaskFlow) (graph : TaskDAG) : Bool :=
  match Dict.get? f.signatures graph.graphId with
  | none => true
  | some existing => sameSignature existing (graphSignature graph)

def TaskFlow.noteSignature (f : TaskFlow) (graph : TaskDAG) : TaskFlow :=
  { f with signatures := Dict.set f.signatures graph.graphId (graphSignature graph) }

def TaskFlow.compileKickoff (f : TaskFlow) (v : Validation) : TaskFlow :=
  ((f.noteSignature v.graph).cachedHandler (kickoffKey v.graph)
    (.kickoff v.graph v.rootTaskIds)).addHandler .start (.chunk (kickoffKey v.graph))

def TaskFlow.compileFinalize (f : TaskFlow) (graph : TaskDAG) : TaskFlow :=
  (f.cachedHandler (finalizeKey graph) (.finalize graph)).addHandler (.doneGraph graph.graphId)
    (.chunk (finalizeKey graph))

def TaskFlow.compileGraph (f : TaskFlow) (v : Validation) (r : TaskDAGResolver) :
    Except (Fault × TaskFlow) TaskFlow :=
  if f.allows v.graph = false then
    .error (.valueError ("Task DAG '" ++ v.graph.graphId ++
      "' was already compiled with a different definition."), f)
  else
    match (f.compileKickoff v).compileTasks v.graph r v.graph.tasks with
    | .error e => .error e
    | .ok f => .ok (f.compileFinalize v.graph)

def leftFlow : Except (Fault × TaskFlow) TaskFlow → TaskFlow
  | .ok f => f
  | .error e => e.2

def mergeResolver (own : TaskDAGResolver) (resolver : ResolverArg) :
    Except Fault TaskDAGResolver :=
  match resolver with
  | .none => .ok own
  | resolver =>
    match newResolver own, coerceResolver resolver with
    | .error e, _ => .error e
    | _, .error e => .error e
    | .ok merged, .ok r => registerAll r merged

/-- A call: the graph, and the resolver it comes to. An executor has its validator accept the
graph before it is compiled, and validated again. -/
structure Call where
  candidate : Value
  resolver : Except Fault TaskDAGResolver
  freshId : String
  byExecutor : Bool

def compileCall (candidate : Value) (resolver : ResolverArg) (freshId : String) : Call :=
  { candidate := candidate, resolver := coerceResolver resolver, freshId := freshId
    byExecutor := false }

/-- `TaskDAGExecutor.compile`, and with it `async_run`. -/
def executorCall (own : TaskDAGResolver) (candidate : Value) (resolver : ResolverArg)
    (freshId : String) : Call :=
  { candidate := candidate, resolver := mergeResolver own resolver, freshId := freshId
    byExecutor := true }

section Calls

variable (isCallable : Value → Bool) (call : Value → TaskDAGNode → Value)
  (reprOf : Value → String) (nodeOf : Value → Option TaskDAGNode)
  (graphOf : Value → Option TaskDAG)

def Call.validated (c : Call) : Except Fault (Validation × TaskDAGResolver) :=
  match c.resolver with
  | .error e => .error e
  | .ok r =>
    match graphFromValue reprOf nodeOf graphOf c.freshId c.candidate with
    | .error e => .error e
    | .ok graph =>
      match validateGraph isCallable call reprOf r graph with
      | .error e => .error e
      | .ok v =>
        if c.byExecutor then
          match validateGraph isCallable call reprOf r v.graph with
          | .error e => .error e
          | .ok w => .ok (w, r)
        else .ok (v, r)

/-- A call to `compile` or `async_run`, of an executor that has a flow already or gets one from
its first call that succeeds. -/
def callStep (host : Option TaskFlow) (c : Call) : Except Fault Validation × Option TaskFlow :=
  match c.validated isCallable call reprOf nodeOf graphOf with
  | .error e => (.error e, host)
  | .ok (v, r) =>
    match (host.getD TaskFlow.fresh).compileGraph v r with
    | .ok f => (.ok v, some f)
    | .error (e, f) => (.error e, host.map fun _ => f)

def runCalls : Option TaskFlow → List Call → Option TaskFlow
  | host, [] => host
  | host, c :: rest => runCalls (callStep isCallable call reprOf nodeOf graphOf host c).2 rest

inductive Behaviour where
  | kickoff (graph : TaskDAG) (rootTaskIds : List String)
  | runTask (graph : TaskDAG) (task : TaskDAGNode) (handlerOf : Value → Value)
  | finalize (graph : TaskDAG)
  | gate (signals : List String)

def handlerOf (r : TaskDAGResolver) (task : TaskDAGNode) (inputs : Value) : Value :=
  if isApprovalTask task then .none
  else TaskDAGResolver.resolve isCallable call r { task with inputs := inputs }

def behaviourOf : Closure → Behaviour
  | .kickoff graph roots => .kickoff graph roots
  | .runTask graph task r => .runTask graph task (handlerOf isCallable call r task)
  | .finalize graph => .finalize graph

def TaskFlow.behaviour (f : TaskFlow) : HandlerId → Option Behaviour
  | .chunk key => (Dict.get? f.closures key).map (behaviourOf isCallable call)
  | .gate signals => some (.gate signals)

def TaskFlow.listeners (f : TaskFlow) (event : FlowEvent) : List Behaviour :=
  (f.registered.filter fun p => decide (p.1 = event)).filterMap fun p =>
    f.behaviour isCallable call p.2

inductive Given (v : Validation) (r : TaskDAGResolver) : FlowEvent → Behaviour → Prop where
  | kickoff : Given v r .start (.kickoff v.graph v.rootTaskIds)
  | runTask (task : TaskDAGNode) (mem : task ∈ v.graph.tasks) :
      Given v r (taskEvent task) (.runTask v.graph task (handlerOf isCallable call r task))
  | gate (task : TaskDAGNode) (mem : task ∈ v.graph.tasks) (d : String) (dep : d ∈ task.dependsOn)
      (several : 2 ≤ task.dependsOn.length) :
      Given v r (.doneTask d) (.gate (gateOf task.dependsOn))
  | finalize : Given v r (.doneGraph v.graph.graphId) (.finalize v.graph)

def RunsAsGiven (f : TaskFlow) (v : Validation) (r : TaskDAGResolver) : Prop :=
  ∀ event b, b ∈ f.listeners isCallable call event ↔ Given isCallable call v r event b

end Calls

def GatesAgree (graph : TaskDAG) : Prop :=
  ∀ a ∈ graph.tasks, ∀ b ∈ graph.tasks, 2 ≤ a.dependsOn.length → 2 ≤ b.dependsOn.length →
    gateOf a.dependsOn = gateOf b.dependsOn → listenSignals a.dependsOn = listenSignals b.dependsOn

instance (graph : TaskDAG) : Decidable (GatesAgree graph) := by
  unfold GatesAgree
  infer_instance

end Agently.TaskDAGCompile
