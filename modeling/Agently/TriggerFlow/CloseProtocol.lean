import Agently.Lib.Machine
import Agently.TriggerFlow.Interrupts
import Agently.Utils.StateData

/-! # Closing an execution

Source: `TriggerFlow/Execution.py`, `ExecutionInterrupts.py`, `ExecutionRuntimeIO.py`,
`ExecutionRetention.py` and `TriggerFlow.py`. A close is a coroutine: the phases below are its
awaits, and `advanceClose` runs it from one to the next. -/

namespace Agently.TriggerFlow.Close

open Agently.Lib Agently.Utils
open Agently.Utils.StateData (Data)

variable {ε : Type}

def compatFinalResultKey : String := "$final_result"

def interventionsStateKey : String := "$interventions"

inductive Lifecycle where
  | opened | sealed | closed
  deriving DecidableEq

inductive PendingInterruptClosePolicy where
  | error | cancel | unknown
  deriving DecidableEq

/-- `ownTasks` are the managed tasks the drain leaves out: the one that calls and the emits
around it. -/
structure CloseArgs where
  reason : String := "manual"
  timed : Bool := false
  sealing : Bool := true
  pendingInterrupts : PendingInterruptClosePolicy := .error
  ownTasks : Nat := 0

inductive TaskError where
  | cancelled | failed
  deriving DecidableEq

inductive RetentionStatus where
  | applied | noop | deferred
  deriving DecidableEq

def RetentionStatus.text : RetentionStatus → String
  | .applied => "applied"
  | .noop => "noop"
  | .deferred => "deferred"

structure ClosedEvent where
  reason : String
  retentionStatus : String
  stateVersion : Nat

structure TerminalRetention where
  closeResult : Data
  completedEventId : String
  completedEventStateVersion : Nat
  closedEventId : String
  closedEvent : Option ClosedEvent := none
  result : Option RetentionStatus := none

inductive TerminalEvent where
  | completed (eventId : String) (stateVersion : Nat)
  | closed (eventId : String) (event : ClosedEvent)

/-- The fields a close reads and writes. `built` are the close snapshots that were built and
`emitted` the terminal events that were delivered, newest first. -/
structure CloseState (ε : Type) where
  id : String
  lifecycle : Lifecycle
  status : Status
  stateVersion : Nat
  interrupts : Ledger ε
  interventions : Data
  runtimeData : Data
  result : Option Json
  flowData : Data
  now : Json
  tasks : Nat
  retainedFailures : List TaskError
  skipExceptions : Bool
  recordStore : Bool
  resourceHandles : Nat
  runtimeStreamStopped : Bool
  taskStageCloseStarted : Bool
  registered : Bool
  closeStarted : Bool
  closeReason : Option String
  terminalStateFrozen : Bool
  terminalRetention : Option TerminalRetention
  runtimeCompletedEmitted : Bool
  runtimeFailedEmitted : Bool
  closeResult : Option Data
  closedEventSet : Bool
  built : List Data
  emitted : List TerminalEvent

def setLifecycleState (s : CloseState ε) (l : Lifecycle) : CloseState ε :=
  if s.lifecycle = l then s else { s with lifecycle := l, stateVersion := s.stateVersion + 1 }

def ensureTerminalStateMutable (s : CloseState ε) : Except PyError Unit :=
  if s.terminalStateFrozen = true ∧ s.lifecycle ≠ .closed then
    .error (.raised .runtimeError
      (s!"TriggerFlow execution {s.id} can not mutate state because its " ++
        "terminal close snapshot is frozen. Retry async_close() with the existing terminal unit."))
  else .ok ()

inductive StateOperation where
  | set | append | del
  deriving DecidableEq

/-- The change of one key; `del` of a missing key changes nothing. -/
def changeData (floatValue : FloatText → ℚ) (data : Data) (operation : StateOperation)
    (key : String) (value : Json) : Except PyError (Option Data) :=
  match operation with
  | .set => (StateData.set data key value).map some
  | .append => (StateData.append floatValue data key value).map some
  | .del => .ok (if StateData.contains data key then some (StateData.delete data key) else none)

/-- `_async_change_runtime_data` up to its signals. -/
def changeRuntimeData (floatValue : FloatText → ℚ) (s : CloseState ε) (operation : StateOperation)
    (key : String) (value : Json) : Except PyError (CloseState ε) :=
  match ensureTerminalStateMutable s with
  | .error e => .error e
  | .ok () =>
    match changeData floatValue s.runtimeData operation key value with
    | .error e => .error e
    | .ok none => .ok s
    | .ok (some data) => .ok { s with runtimeData := data, stateVersion := s.stateVersion + 1 }

def setResult (validateResult : Json → Except PyError Json) (s : CloseState ε) (result : Json) :
    Except PyError (CloseState ε) :=
  match ensureTerminalStateMutable s with
  | .error e => .error e
  | .ok () =>
    match validateResult result with
    | .error e => .error e
    | .ok result =>
      .ok
        { s with
          runtimeData := Dict.set s.runtimeData compatFinalResultKey result
          result := some result
          stateVersion := s.stateVersion + 1 }

def changeFlowData (floatValue : FloatText → ℚ) (s : CloseState ε) (operation : StateOperation)
    (key : String) (value : Json) : Except PyError (CloseState ε) :=
  match changeData floatValue s.flowData operation key value with
  | .error e => .error e
  | .ok none => .ok s
  | .ok (some data) => .ok { s with flowData := data }

def writeInterventionRecords (s : CloseState ε) (records : Data) : CloseState ε :=
  { s with
    interventions := records
    runtimeData := Dict.set s.runtimeData interventionsStateKey (.obj records)
    stateVersion := s.stateVersion + 1 }

def writeBack (s : CloseState ε) (runtimeData flowData : Data) : CloseState ε :=
  let written := StateData.setAll s.runtimeData runtimeData
  match written.2 with
  | some _ => { s with runtimeData := written.1 }
  | none =>
    { s with
      runtimeData := written.1
      flowData := (StateData.setAll s.flowData flowData).1 }

def asyncSeal (s : CloseState ε) : CloseState ε :=
  if s.lifecycle = .closed then s else setLifecycleState s .sealed

def asyncUnseal (s : CloseState ε) : Except PyError (CloseState ε) :=
  if s.lifecycle = .closed then .ok s
  else match ensureTerminalStateMutable s with
    | .error e => .error e
    | .ok () => .ok (setLifecycleState s .opened)

def acceptsSignal (s : CloseState ε) (source : String) (preaccepted : Bool) : Bool :=
  decide (s.lifecycle = .opened) || preaccepted ||
    (s.closeStarted && ["chunk", "runtime_data", "flow_data", "interrupt"].contains source)

def managedTaskDone (s : CloseState ε) (retained : Option TaskError) : CloseState ε :=
  let left := s.tasks - 1
  { s with
    tasks := left
    retainedFailures := s.retainedFailures ++ retained.toList
    taskStageCloseStarted :=
      s.taskStageCloseStarted || (decide (s.lifecycle = .closed) && decide (left = 0)) }

/-- What a close awaits while it holds the lock. A phase after the freeze keeps the terminal
unit, which is the stored one. -/
inductive ClosePhase where
  | rejecting
  | cancelling (drained : Bool)
  | sealing
  | draining (collected : List TaskError)
  | failing
  | expiring (left : Nat)
  | preparing (result : Data)
  | completing (unit : TerminalRetention)
  | stopping (unit : TerminalRetention)
  | releasing (unit : TerminalRetention)
  | notifying (unit : TerminalRetention)
  | renotifying (unit : TerminalRetention)
  | applying (unit : TerminalRetention) (cancelled : Bool)
  | retaining (unit : TerminalRetention) (cancelled : Bool)
  | staging (cancelled : Bool)
  | unsealing

inductive CloseCall where
  | waiting (args : CloseArgs)
  | closing (args : CloseArgs) (sealedForClose : Bool) (phase : ClosePhase)
  | returned (result : Option Data)
  | raised

/-- How an await ends. A drain that times out cancels the tasks that are left, which may not settle.
An emission that raises may have delivered its event; `cancelled` is the cancellation of a call
whose event is emitted by a task of its own, which may still run. -/
inductive CloseOutcome where
  | ok
  | timedOut
  | unsettled
  | prepared (completedEventId closedEventId : String)
  | retained (status : RetentionStatus)
  | raised (delivered : Bool)
  | cancelled (delivered : Option Bool)

def CloseCall.isFinished : CloseCall → Bool
  | .returned _ => true
  | .raised => true
  | _ => false

def CloseState.interruptState (s : CloseState ε) : InterruptState ε :=
  ⟨s.interrupts, s.status, decide (s.lifecycle = .opened)⟩

inductive InterruptCheck (ε : Type) where
  | clear
  | cancelled (s : CloseState ε)
  | rejected

/-- `handle_pending_interrupts_before_close` up to its event. -/
def handlePendingInterrupts (s : CloseState ε) (args : CloseArgs) : InterruptCheck ε :=
  let pending := s.interruptState
  if hasPendingInterrupts pending = false then .clear
  else if args.pendingInterrupts = .cancel then
    if s.interrupts.vals.any cancellable then
      let left := cancelPendingInterrupts pending args.reason
      .cancelled
        { s with
          interrupts := left.interrupts, status := left.status, stateVersion := s.stateVersion + 1 }
    else .clear
  else .rejected

def terminalStatus (s : CloseState ε) : Bool :=
  decide (s.status = .failed ∨ s.status = .cancelled)

def failClose (s : CloseState ε) (args : CloseArgs) (sealedForClose : Bool) :
    CloseState ε × CloseCall :=
  if s.lifecycle = .closed then (s, .raised)
  else
    let thawed :=
      { s with
        closeStarted := false
        closeReason := none
        terminalStateFrozen := s.terminalStateFrozen && s.terminalRetention.isSome }
    if sealedForClose = true ∧ s.terminalRetention.isNone = true ∧ s.lifecycle = .sealed then
      (setLifecycleState thawed .opened, .closing args sealedForClose .unsealing)
    else (thawed, .raised)

def finishClose (s : CloseState ε) (cancelled : Bool) : CloseState ε × CloseCall :=
  (s, if cancelled then .raised else .returned s.closeResult)

def finalizeClose (s : CloseState ε) (args : CloseArgs) (sealedForClose cancelled : Bool) :
    CloseState ε × CloseCall :=
  let s := { s with closedEventSet := true, registered := false }
  if s.tasks = 0 ∧ s.taskStageCloseStarted = false then
    ({ s with taskStageCloseStarted := true }, .closing args sealedForClose (.staging cancelled))
  else finishClose s cancelled

/-- `apply_triggerflow_terminal_retention`, and its event. -/
def settleRetention (s : CloseState ε) (args : CloseArgs) (sealedForClose cancelled : Bool)
    (unit : TerminalRetention) : CloseState ε × CloseCall :=
  match unit.result with
  | some _ => (s, .closing args sealedForClose (.retaining unit cancelled))
  | none => finalizeClose s args sealedForClose cancelled

def commitClose (s : CloseState ε) (args : CloseArgs) (sealedForClose : Bool)
    (unit : TerminalRetention) (cancelled : Bool) : CloseState ε × CloseCall :=
  (setLifecycleState s .closed, .closing args sealedForClose (.applying unit cancelled))

def retentionStatus (s : CloseState ε) (unit : TerminalRetention) : String :=
  match unit.result with
  | some status => status.text
  | none => if s.recordStore then "pending" else "not_configured"

/-- The body of the closed event is fixed by the first close that gets here. -/
def notifyClosed (s : CloseState ε) (args : CloseArgs) (sealedForClose : Bool)
    (unit : TerminalRetention) : CloseState ε × CloseCall :=
  match unit.closedEvent with
  | some event =>
    ({ s with closeResult := some unit.closeResult, closeReason := some event.reason },
      .closing args sealedForClose (.notifying unit))
  | none =>
    let event : ClosedEvent :=
      { reason := args.reason
        retentionStatus := retentionStatus s unit
        stateVersion := s.stateVersion + 1 }
    let unit := { unit with closedEvent := some event }
    ({ s with closeResult := some unit.closeResult, terminalRetention := some unit },
      .closing args sealedForClose (.notifying unit))

def releaseResources (s : CloseState ε) (args : CloseArgs) (sealedForClose : Bool)
    (unit : TerminalRetention) : CloseState ε × CloseCall :=
  if s.resourceHandles = 0 then notifyClosed s args sealedForClose unit
  else ({ s with resourceHandles := 0 }, .closing args sealedForClose (.releasing unit))

def stopStream (s : CloseState ε) (args : CloseArgs) (sealedForClose : Bool)
    (unit : TerminalRetention) : CloseState ε × CloseCall :=
  if s.runtimeStreamStopped then releaseResources s args sealedForClose unit
  else ({ s with runtimeStreamStopped := true }, .closing args sealedForClose (.stopping unit))

def emitCompleted (s : CloseState ε) (args : CloseArgs) (sealedForClose : Bool)
    (unit : TerminalRetention) : CloseState ε × CloseCall :=
  if terminalStatus s = false ∧ s.runtimeCompletedEmitted = false then
    (s, .closing args sealedForClose (.completing unit))
  else stopStream s args sealedForClose unit

def compatResult (s : CloseState ε) : Json :=
  match Dict.get? s.runtimeData compatFinalResultKey with
  | some result => result
  | none => s.result.getD .null

def buildCloseSnapshot (s : CloseState ε) : Data :=
  let result := compatResult s
  if result.isNone = false ∧ (Dict.get? s.runtimeData compatFinalResultKey).isNone = true then
    Dict.set s.runtimeData compatFinalResultKey result
  else s.runtimeData

def completed (s : CloseState ε) : CloseState ε :=
  if terminalStatus s then s else { s with status := .completed }

def freezeTerminalState (s : CloseState ε) (args : CloseArgs) (sealedForClose : Bool) :
    CloseState ε × CloseCall :=
  match s.terminalRetention with
  | some unit => emitCompleted (completed s) args sealedForClose unit
  | none =>
    let result := buildCloseSnapshot s
    (completed { s with terminalStateFrozen := true, built := result :: s.built },
      .closing args sealedForClose (.preparing result))

def expireRecord (now : Json) : Json → Option Json
  | .obj intervention =>
    match Dict.get? intervention "status" with
    | some (.str "pending") =>
      some (.obj (Dict.set (Dict.set intervention "status" (.str "expired")) "expired_at" now))
    | _ => none
  | _ => none

/-- `_async_expire_pending_interventions` up to its events. -/
def expireInterventions (s : CloseState ε) (args : CloseArgs) (sealedForClose : Bool) :
    CloseState ε × CloseCall :=
  match (s.interventions.filterMap fun p => expireRecord s.now p.2).length with
  | 0 => freezeTerminalState s args sealedForClose
  | n + 1 =>
    let records := s.interventions.map fun p => (p.1, (expireRecord s.now p.2).getD p.2)
    (writeInterventionRecords s records, .closing args sealedForClose (.expiring (n + 1)))

/-- `_raise_pending_task_errors`: the error that is raised, and whether its event is emitted. -/
def raisePendingTaskErrors (s : CloseState ε) : List TaskError → Option (CloseState ε × Bool)
  | [] => none
  | .cancelled :: rest =>
    if s.status = .cancelled then raisePendingTaskErrors s rest
    else some ({ s with status := .cancelled }, true)
  | .failed :: _ =>
    some ({ s with status := .failed, runtimeFailedEmitted := true }, !s.runtimeFailedEmitted)

def endDrain (s : CloseState ε) (args : CloseArgs) (sealedForClose : Bool)
    (collected : List TaskError) : CloseState ε × CloseCall :=
  let drained := { s with retainedFailures := [] }
  let errors := if s.skipExceptions then [] else collected ++ s.retainedFailures
  match raisePendingTaskErrors drained errors with
  | some (s, true) => (s, .closing args sealedForClose .failing)
  | some (s, false) => failClose s args sealedForClose
  | none =>
    match handlePendingInterrupts drained args with
    | .clear => expireInterventions drained args sealedForClose
    | .cancelled s => (s, .closing args sealedForClose (.cancelling true))
    | .rejected => (drained, .closing args sealedForClose .rejecting)

def startDrain (s : CloseState ε) (args : CloseArgs) (sealedForClose : Bool) :
    CloseState ε × CloseCall :=
  ({ s with retainedFailures := [] },
    .closing args sealedForClose (.draining s.retainedFailures))

def sealForClose (s : CloseState ε) (args : CloseArgs) : CloseState ε × CloseCall :=
  if args.sealing = false then startDrain s args false
  else if s.lifecycle = .opened then (asyncSeal s, .closing args false .sealing)
  else startDrain s args true

def enterClose (s : CloseState ε) (args : CloseArgs) : CloseState ε × CloseCall :=
  if s.lifecycle = .closed then (s, .returned s.closeResult)
  else if args.pendingInterrupts = .unknown then (s, .raised)
  else
    let started := { s with closeStarted := true, closeReason := some args.reason }
    match handlePendingInterrupts started args with
    | .clear => sealForClose started args
    | .cancelled s => (s, .closing args false (.cancelling false))
    | .rejected => (started, .closing args false .rejecting)

def deliver (s : CloseState ε) (event : TerminalEvent) : CloseState ε :=
  { s with emitted := event :: s.emitted }

def deliverIf (s : CloseState ε) (delivered : Bool) (event : TerminalEvent) : CloseState ε :=
  if delivered then deliver s event else s

def TerminalRetention.completedEvent (unit : TerminalRetention) : TerminalEvent :=
  .completed unit.completedEventId unit.completedEventStateVersion

def deliverClosed (s : CloseState ε) (delivered : Bool) (unit : TerminalRetention) :
    CloseState ε :=
  match unit.closedEvent with
  | some event => deliverIf s delivered (.closed unit.closedEventId event)
  | none => s

def advanceClose (s : CloseState ε) (args : CloseArgs) (sealedForClose : Bool) :
    ClosePhase → CloseOutcome → Option (CloseState ε × CloseCall)
  | .rejecting, .ok => some (failClose s args sealedForClose)
  | .rejecting, .raised _ => some (failClose s args sealedForClose)
  | .cancelling false, .ok => some (sealForClose s args)
  | .cancelling true, .ok => some (expireInterventions s args sealedForClose)
  | .cancelling _, .raised _ => some (failClose s args sealedForClose)
  | .sealing, .ok => some (startDrain s args true)
  | .sealing, .raised _ => some (failClose s args sealedForClose)
  | .draining collected, .ok =>
    if s.tasks ≤ args.ownTasks then some (endDrain s args sealedForClose collected) else none
  | .draining collected, .timedOut =>
    if args.timed then
      some (endDrain { s with tasks := min s.tasks args.ownTasks } args sealedForClose collected)
    else none
  | .draining _, .unsettled =>
    if args.timed then some (failClose { s with retainedFailures := [] } args sealedForClose)
    else none
  | .draining _, .raised _ => some (failClose s args sealedForClose)
  | .failing, .ok => some (failClose s args sealedForClose)
  | .failing, .raised _ => some (failClose s args sealedForClose)
  | .expiring (n + 2), .ok => some (s, .closing args sealedForClose (.expiring (n + 1)))
  | .expiring _, .ok => some (freezeTerminalState s args sealedForClose)
  | .expiring _, .raised _ => some (failClose s args sealedForClose)
  | .preparing result, .prepared completedEventId closedEventId =>
    let unit : TerminalRetention :=
      { closeResult := result
        completedEventId := completedEventId
        completedEventStateVersion := s.stateVersion
        closedEventId := closedEventId }
    some (emitCompleted { s with terminalRetention := some unit } args sealedForClose unit)
  | .preparing _, .raised _ => some (failClose s args sealedForClose)
  | .completing unit, .ok =>
    some (stopStream
      { deliver s unit.completedEvent with runtimeCompletedEmitted := true } args sealedForClose
      unit)
  | .completing unit, .raised delivered =>
    some (failClose (deliverIf s delivered unit.completedEvent) args sealedForClose)
  | .stopping unit, .ok => some (releaseResources s args sealedForClose unit)
  | .stopping _, .raised _ => some (failClose s args sealedForClose)
  | .releasing unit, .ok => some (notifyClosed s args sealedForClose unit)
  | .releasing _, .raised _ => some (failClose s args sealedForClose)
  | .notifying unit, .ok =>
    some (commitClose (deliverClosed s true unit) args sealedForClose unit false)
  | .notifying unit, .raised delivered =>
    some (failClose (deliverClosed s delivered unit) args sealedForClose)
  | .notifying unit, .cancelled (some delivered) =>
    some (commitClose (deliverClosed s delivered unit) args sealedForClose unit true)
  | .notifying unit, .cancelled none => some (s, .closing args sealedForClose (.renotifying unit))
  | .renotifying unit, .ok =>
    some (commitClose (deliverClosed s true unit) args sealedForClose unit true)
  | .renotifying unit, .raised delivered =>
    some (failClose (deliverClosed s delivered unit) args sealedForClose)
  | .applying unit cancelled, .retained status =>
    let unit := { unit with result := some status }
    some (settleRetention { s with terminalRetention := some unit } args sealedForClose cancelled
      unit)
  | .applying unit _, .raised _ => some (settleRetention s args sealedForClose true unit)
  | .retaining _ cancelled, .ok => some (finalizeClose s args sealedForClose cancelled)
  | .retaining _ cancelled, .raised _ => some (finalizeClose s args sealedForClose cancelled)
  | .retaining _ _, .cancelled _ => some (finalizeClose s args sealedForClose true)
  | .staging cancelled, .ok => some (finishClose s cancelled)
  | .staging _, .raised _ => some (s, .raised)
  | .unsealing, .ok => some (s, .raised)
  | .unsealing, .raised _ => some (s, .raised)
  | _, _ => none

/-- `lock` is the call that holds `_close_lock`. -/
structure Closing (ε : Type) where
  state : CloseState ε
  lock : Option Nat
  calls : List CloseCall

/-- A close call, a step of one, or what else happens to the execution meanwhile: it is
sealed or unsealed, signals arrive, handlers change data and end, sub-flows write back. -/
inductive CloseAction (ε : Type) where
  | close (args : CloseArgs)
  | advance (index : Nat) (outcome : CloseOutcome)
  | asyncSeal
  | asyncUnseal
  | signal (source : String) (preaccepted : Bool)
  | taskDone (retained : Option TaskError)
  | changeRuntimeData (operation : StateOperation) (key : String) (value : Json)
  | setResult (value : Json)
  | changeFlowData (operation : StateOperation) (key : String) (value : Json)
  | writeInterventions (records : Data)
  | writeBack (runtimeData flowData : Data)
  | setStatus (status : Status)
  | setInterrupts (interrupts : Ledger ε)
  | tick (now : Json)

def Closing.setCall (c : Closing ε) (index : Nat) (r : CloseState ε × CloseCall) : Closing ε :=
  { state := r.1
    lock := if r.2.isFinished then none else some index
    calls := c.calls.set index r.2 }

def attempt (s : CloseState ε) (r : Except PyError (CloseState ε)) : CloseState ε :=
  match r with
  | .ok s => s
  | .error _ => s

section Step

variable (floatValue : FloatText → ℚ) (validateResult : Json → Except PyError Json)

def otherStep (s : CloseState ε) : CloseAction ε → CloseState ε
  | .close _ => s
  | .advance _ _ => s
  | .asyncSeal => asyncSeal s
  | .asyncUnseal => attempt s (asyncUnseal s)
  | .signal source preaccepted =>
    if acceptsSignal s source preaccepted then { s with tasks := s.tasks + 1 } else s
  | .taskDone retained => if s.tasks = 0 then s else managedTaskDone s retained
  | .changeRuntimeData operation key value =>
    attempt s (changeRuntimeData floatValue s operation key value)
  | .setResult value => attempt s (setResult validateResult s value)
  | .changeFlowData operation key value =>
    attempt s (changeFlowData floatValue s operation key value)
  | .writeInterventions records => writeInterventionRecords s records
  | .writeBack runtimeData flowData => writeBack s runtimeData flowData
  | .setStatus status => { s with status := status }
  | .setInterrupts interrupts => { s with interrupts := interrupts }
  | .tick now => { s with now := now }

def closeStep (c : Closing ε) : CloseAction ε → Option (Closing ε)
  | .close args =>
    let call :=
      if c.state.lifecycle = .closed then CloseCall.returned c.state.closeResult
      else .waiting args
    some { c with calls := c.calls ++ [call] }
  | .advance index o =>
    match c.calls[index]?, o with
    | some (.waiting args), .ok =>
      if c.lock = none then some (c.setCall index (enterClose c.state args)) else none
    | some (.waiting _), .raised _ => some { c with calls := c.calls.set index .raised }
    | some (.closing args sealedForClose phase), o =>
      (advanceClose c.state args sealedForClose phase o).map (c.setCall index)
    | _, _ => none
  | a => some { c with state := otherStep floatValue validateResult c.state a }

def closeMachine : Machine (Closing ε) (CloseAction ε) := ⟨closeStep floatValue validateResult⟩

end Step

end Agently.TriggerFlow.Close
