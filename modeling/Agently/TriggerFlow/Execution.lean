import Agently.TriggerFlow.PoolRecords

/-! # Dispatching signals to handlers

Source: `TriggerFlow/Execution.py`, `TriggerFlow/SignalNet.py`. A dispatch is a coroutine over
the interrupt pool: it resumes the interrupts that wait for its event, becomes the last signal of
the execution, and is handed to every handler listening on its event. -/

namespace Agently.TriggerFlow

open Agently.Lib Agently.Utils

/-- What a flow fixes before it runs: its static handlers in the order of registration,
and the operator and continuation event of a handler. -/
structure Flow (ε η : Type) where
  handlers : TriggerType → ε → List η
  operatorId : η → Option String
  continuationEvent : η → Option ε

structure DynamicBinding (ε η : Type) where
  bindingId : η
  triggerType : TriggerType
  triggerEvent : ε
  deriving DecidableEq

/-- What a suspended dispatch awaits. `handing` awaits the notice of the next handler and,
with none left, the handlers. -/
inductive DispatchPhase (η : Type) where
  | entering (preaccepted : Bool)
  | resuming
  | remembered
  | handing (remaining : List η)
  | finished
  | failed
  | rejected
  deriving DecidableEq

/-- Who awaits a dispatch: nobody known, or the `continue_with` call at this place of the
pool, for the pause with this serial. -/
inductive DispatchCause where
  | emitted
  | resumed (call serial : Nat)

/-- `handlers` keeps the handlers found when the signal was handed out, `origin` the
dispatch whose signal is being processed: its own, or that of the paused handler. -/
structure Dispatch (ε η : Type) where
  signal : Signal ε
  cause : DispatchCause
  phase : DispatchPhase η
  handlers : List η := []
  origin : Nat

structure Invocation (ε η : Type) where
  dispatch : Nat
  handler : η
  signal : Signal ε
  origin : Nat
  running : Bool := true

/-- What was the case when a handler paused. No function of the engine reads it. -/
structure Raise (ε η : Type) where
  handler : η
  signal : Signal ε
  lastSignal : Option (Signal ε)
  interrupt : Interrupt ε
  origin : Nat

structure Execution (ε η : Type) where
  pool : Pool ε
  closeStarted : Bool
  lastSignal : Option (Signal ε)
  dispatches : List (Dispatch ε η)
  invocations : List (Invocation ε η)
  bindings : List (DynamicBinding ε η)
  raises : List (Raise ε η)

inductive ExecutionAction (ε η : Type) where
  | emit (s : Signal ε)
  | emitNowait (s : Signal ε)
  | advanceDispatch (index : Nat)
  | failDispatch (index : Nat)
  | pauseFor (invocation : Nat) (args : PauseArgs ε) (now : Nat) (freshId : String)
  | endHandler (invocation : Nat)
  | continueWith (args : ContinueArgs)
  | advance (index : Nat) (result : AwaitResult) (freshId : String)
  | cancel (reason : String)
  | bind (binding : DynamicBinding ε η)
  | unbind (bindingId : η) (triggerType : Option TriggerType) (triggerEvent : Option ε)
  | sealExecution
  | close

variable {ε η : Type}

def acceptsSignal (e : Execution ε η) (s : Signal ε) (preaccepted : Bool) : Bool :=
  e.pool.state.lifecycleOpen || preaccepted ||
    (e.closeStarted && ["chunk", "runtime_data", "flow_data", "interrupt"].contains s.source)

def emitted (e : Execution ε η) (s : Signal ε) (preaccepted : Bool) : Dispatch ε η :=
  { signal := s, cause := .emitted, phase := .entering preaccepted, origin := e.dispatches.length }

def resumeDispatches (e : Execution ε η) (index : Nat) (freshId : String) (o : AwaitResult) :
    List (Dispatch ε η) :=
  match e.pool.tasks[index]?, o with
  | some (.continueWith (.resuming .streamPut r)), .ok =>
    match resumeDispatch r freshId with
    | .signal s =>
      [{ signal := s, cause := .resumed index r.interrupt.serial, phase := .entering false
         origin := (e.raises[r.interrupt.serial]?.map Raise.origin).getD e.dispatches.length }]
    | _ => []
  | _, _ => []

def Dispatch.done (d : Dispatch ε η) : Bool :=
  match d.phase with
  | .finished | .failed | .rejected => true
  | _ => false

def Dispatch.returned (d : Dispatch ε η) : Bool :=
  match d.phase with
  | .finished | .rejected => true
  | _ => false

def Dispatch.awaitedBy (index : Nat) (d : Dispatch ε η) : Bool :=
  match d.cause with
  | .resumed call _ => decide (call = index)
  | .emitted => false

def awaitsDispatch (e : Execution ε η) (index : Nat) (o : AwaitResult) : Bool :=
  match e.pool.tasks[index]?, o with
  | some (.continueWith (.resuming .dispatching _)), .ok =>
    e.dispatches.any fun d => d.awaitedBy index && !d.returned
  | _, _ => false

def raiseOf (e : Execution ε η) (inv : Invocation ε η) (i : Interrupt ε) : Raise ε η :=
  { handler := inv.handler, signal := inv.signal, lastSignal := e.lastSignal, interrupt := i
    origin := inv.origin }

/-- `pause_for` called by a running handler. -/
def pauseFrom (flow : Flow ε η) (e : Execution ε η) (inv : Invocation ε η) (args : PauseArgs ε)
    (now : Nat) (freshId : String) : Option (Execution ε η) :=
  let c : PauseContext ε :=
    { lastSignal := e.lastSignal
      sourceOperatorId := flow.operatorId inv.handler
      continuationEvent := flow.continuationEvent inv.handler
      now := now
      freshId := freshId
      serial := e.pool.pauses }
  (startPause e.pool args c).map fun pool =>
    { e with
      pool := pool
      raises := e.raises ++ ((planInterrupt args c).map (raiseOf e inv)).toList }

def setPhase (e : Execution ε η) (index : Nat) (d : Dispatch ε η) (phase : DispatchPhase η) :
    Execution ε η :=
  { e with dispatches := e.dispatches.set index { d with phase := phase } }

def stopHandler (index : Nat) (inv : Invocation ε η) : Invocation ε η :=
  if inv.dispatch = index then { inv with running := false } else inv

/-- A handler of the dispatch has raised: the others are cancelled and the execution fails. -/
def abandonDispatch (e : Execution ε η) (index : Nat) (d : Dispatch ε η) : Option (Execution ε η) :=
  match d.phase with
  | .handing [] =>
    some (setPhase
      { e with
        pool := { e.pool with state := { e.pool.state with status := .failed } }
        invocations := e.invocations.map (stopHandler index) }
      index d .failed)
  | _ => none

variable [DecidableEq ε]

def DynamicBinding.listensTo (s : Signal ε) (b : DynamicBinding ε η) : Bool :=
  decide (b.triggerType = s.triggerType ∧ b.triggerEvent = s.triggerEvent)

def DynamicBinding.matches [DecidableEq η] (b : DynamicBinding ε η) (bindingId : η)
    (triggerType : Option TriggerType) (triggerEvent : Option ε) : Bool :=
  decide (b.bindingId = bindingId) && triggerType.all (fun t => decide (b.triggerType = t)) &&
    triggerEvent.all fun event => decide (b.triggerEvent = event)

def iterHandlers (flow : Flow ε η) (e : Execution ε η) (s : Signal ε) : List η :=
  flow.handlers s.triggerType s.triggerEvent ++
    (e.bindings.filter (DynamicBinding.listensTo s)).map DynamicBinding.bindingId

def advanceDispatch (flow : Flow ε η) (e : Execution ε η) (index : Nat) (d : Dispatch ε η) :
    Option (Execution ε η) :=
  match d.phase with
  | .entering preaccepted =>
    if acceptsSignal e d.signal preaccepted then
      (poolStep e.pool (.signal d.signal)).map fun pool =>
        setPhase { e with pool := pool } index d .resuming
    else some (setPhase e index d .rejected)
  | .resuming => some (setPhase { e with lastSignal := some d.signal } index d .remembered)
  | .remembered =>
    let handlers := iterHandlers flow e d.signal
    some (setPhase e index { d with handlers := handlers } (.handing handlers))
  | .handing (h :: rest) =>
    some (setPhase
      { e with invocations := e.invocations ++
          [{ dispatch := index, handler := h, signal := d.signal, origin := d.origin }] }
      index d (.handing rest))
  | .handing [] =>
    if e.invocations.any fun inv => decide (inv.dispatch = index) && inv.running then none
    else some (setPhase e index d .finished)
  | .finished | .failed | .rejected => none

variable [DecidableEq η]

def executionStep (flow : Flow ε η) (e : Execution ε η) :
    ExecutionAction ε η → Option (Execution ε η)
  | .emit s => some { e with dispatches := e.dispatches ++ [emitted e s false] }
  | .emitNowait s =>
    if acceptsSignal e s false then
      some { e with dispatches := e.dispatches ++ [emitted e s true] }
    else some e
  | .advanceDispatch index => e.dispatches[index]?.bind (advanceDispatch flow e index)
  | .failDispatch index => e.dispatches[index]?.bind (abandonDispatch e index)
  | .pauseFor n args now freshId =>
    e.invocations[n]?.bind fun inv =>
      if inv.running then pauseFrom flow e inv args now freshId else none
  | .endHandler n =>
    e.invocations[n]?.map fun inv =>
      { e with invocations := e.invocations.set n { inv with running := false } }
  | .continueWith args => (poolStep e.pool (.continueWith args)).map fun pool => { e with pool := pool }
  | .advance index o freshId =>
    if awaitsDispatch e index o then none
    else (poolStep e.pool (.advance index o)).map fun pool =>
      { e with
        pool := pool
        dispatches := e.dispatches ++ resumeDispatches e index freshId o }
  | .cancel reason => (poolStep e.pool (.cancel reason)).map fun pool => { e with pool := pool }
  | .bind b => some
      { e with bindings := if b ∈ e.bindings then e.bindings else e.bindings ++ [b] }
  | .unbind id type event => some
      { e with bindings := e.bindings.filter fun b => !b.matches id type event }
  | .sealExecution => (poolStep e.pool .sealExecution).map fun pool => { e with pool := pool }
  | .close => (poolStep e.pool .sealExecution).map fun pool =>
    { e with pool := pool, closeStarted := true }

def execution (flow : Flow ε η) : Machine (Execution ε η) (ExecutionAction ε η) :=
  ⟨executionStep flow⟩

omit [DecidableEq ε] [DecidableEq η] in
def Execution.initial : Execution ε η :=
  { pool := Pool.initial
    closeStarted := false
    lastSignal := none
    dispatches := []
    invocations := []
    bindings := []
    raises := [] }

end Agently.TriggerFlow
