import Agently.TriggerFlow.SubFlowFrames

/-! # Controlling a sub-flow frame

Source: `TriggerFlow/Execution.py`, `TriggerFlow/BluePrintSubFlow.py`. The task that runs the child
of a frame and the calls that cancel the frame write its status between their awaits. The control
lock is held only over code that does not await, so a locked block is part of one step. -/

namespace Agently.TriggerFlow.SubFlow

open Agently.Lib Agently.Utils

variable {ε γ : Type}

structure ControlFrame (γ : Type) extends Frame γ where
  cancelReason : Option String := none

/-- `project_child_interrupts` between two stream items: its copies of the maps and the
child interrupts still to come. -/
structure Projection (ε : Type) where
  projected : Dict String String
  interrupts : Ledger ε
  todo : List (String × Interrupt ε)
  roots : List String

/-- What a suspended control task awaits; `inTry` when an error there is still caught by the
handlers of the task. -/
inductive ControlPhase (ε : Type) where
  | starting
  | running
  | projecting (projection : Projection ε)
  | closing
  | completedNotice (result : Value)
  | emitting (result : Value)
  | finalizing (reason : String) (inTry : Bool)
  | cancelledNotice (inTry : Bool)
  | failedNotice
  | leaving
  | finished

/-- A task that runs the child: its own copy of the frame and the state of the child. -/
structure ControlTask (ε γ : Type) where
  frame : ControlFrame γ
  child : γ
  phase : ControlPhase ε

inductive CancelPhase where
  | requested
  | childNotice
  | gathering
  | cancelledNotice
  | returned (result : Bool)
  | raised
  deriving DecidableEq

structure CancelCall where
  control : Option Nat := none
  reason : String
  phase : CancelPhase

/-- The parent with one of its frames; `live` is the control task that is registered, and the
logs are newest first. -/
structure ControlParent (ε γ : Type) where
  state : InterruptState ε
  frame : ControlFrame γ
  controls : List (ControlTask ε γ)
  live : Option Nat
  cancels : List CancelCall
  writtenBack : List Value
  emitted : List Value

inductive ControlOutcome (γ : Type) where
  | ok
  | returned (child : γ)
  | closed (child : γ) (result : Value)
  | raised (error : String) (child : Option γ)
  | cancelled (child : Option γ)

inductive ControlAction (γ : Type) where
  | resume (rootInterruptId : String)
  | advance (index : Nat) (outcome : ControlOutcome γ)
  | cancel (reason : String)
  | advanceCancel (index : Nat) (result : AwaitResult)

namespace ControlParent

def setTask (p : ControlParent ε γ) (index : Nat) (t : ControlTask ε γ) : ControlParent ε γ :=
  { p with controls := p.controls.set index t }

def leave (p : ControlParent ε γ) (index : Nat) (t : ControlTask ε γ) : ControlParent ε γ :=
  { p with live := if p.live = some index then none else p.live }.setTask index
    { t with phase := .leaving }

/-- `fail_frame` of a frame that is not being cancelled. -/
def failFrame (p : ControlParent ε γ) (index : Nat) (t : ControlTask ε γ) (error : String) :
    ControlParent ε γ :=
  let frame : ControlFrame γ :=
    { p.frame with status := .failed, error := some error, childSavedState := t.child }
  { p with frame := frame }.setTask index { t with phase := .failedNotice }

/-- The reason a handler of the task passes to `finalize_cancelled_frame`. -/
def handlerReason (frame : ControlFrame γ) : String :=
  if frame.status.isCancelling then frame.cancelReason.getD "cancelled"
  else "parent_control_task_cancelled"

def handle (p : ControlParent ε γ) (index : Nat) (t : ControlTask ε γ) (isCancelled : Bool)
    (error : String) : ControlParent ε γ :=
  if isCancelled || p.frame.status.isCancelling then
    p.setTask index { t with phase := .finalizing (handlerReason p.frame) false }
  else p.failFrame index t error

/-- `finalize_cancelled_frame`, once the child is closed. -/
def finalizeCancelledFrame (p : ControlParent ε γ) (index : Nat) (t : ControlTask ε γ)
    (reason : String) (inTry : Bool) : ControlParent ε γ :=
  if p.frame.status = .completed ∨ p.frame.status = .failed then p.leave index t
  else
    let frame : ControlFrame γ :=
      { p.frame with
        status := .cancelled, cancelReason := some reason, childSavedState := t.child }
    let stored := { p with frame := frame }
    if p.frame.status = .cancelled then stored.leave index t
    else stored.setTask index { t with phase := .cancelledNotice inTry }

/-- One turn of the loop of `project_child_interrupts`. -/
def projectOne (frame : ControlFrame γ) (projected : Dict String String) (interrupts : Ledger ε)
    (roots : List String) (childId : String) (i : Interrupt ε)
    (todo : List (String × Interrupt ε)) : Projection ε :=
  let root := rootOf frame.frameId childId projected
  { projected := Dict.set projected root childId
    interrupts := interrupts.set root (rootInterrupt frame.frameId root i)
    todo := todo
    roots := roots ++ [root] }

def storeProjection (p : ControlParent ε γ) (index : Nat) (t : ControlTask ε γ)
    (projection : Projection ε) : ControlParent ε γ :=
  let frame : ControlFrame γ :=
    { t.frame with
      status := .waiting
      childSavedState := t.child
      projectedInterrupts := projection.projected
      projectedRootInterruptIds := projection.roots }
  { p with
    state := { p.state with interrupts := projection.interrupts, status := .waiting }
    frame := frame }.leave index { t with frame := frame }

/-- The child is back: it waits and its interrupts are projected, or it is closed. -/
def childReturned (flow : ChildFlow ε γ) (p : ControlParent ε γ) (index : Nat)
    (t : ControlTask ε γ) : ControlParent ε γ :=
  match flow.pending t.child with
  | [] => p.setTask index { t with phase := .closing }
  | (childId, i) :: todo =>
    p.setTask index { t with
      phase := .projecting (projectOne t.frame t.frame.projectedInterrupts p.state.interrupts []
        childId i todo) }

def completeFrame (p : ControlParent ε γ) (index : Nat) (t : ControlTask ε γ) (result : Value) :
    ControlParent ε γ :=
  if p.frame.status.isCancelling then
    p.setTask index { t with phase := .finalizing (p.frame.cancelReason.getD "cancelled") true }
  else
    let frame : ControlFrame γ :=
      { p.frame with status := .completed, childSavedState := t.child, result := some result }
    { p with frame := frame, writtenBack := result :: p.writtenBack }.setTask index
      { t with phase := .completedNotice result }

end ControlParent

def ControlPhase.isTrying : ControlPhase ε → Bool
  | .starting | .running | .projecting _ | .closing | .completedNotice _ | .emitting _ => true
  | .cancelledNotice inTry => inTry
  | .finalizing _ _ | .failedNotice | .leaving | .finished => false

def ControlPhase.isFinished : ControlPhase ε → Bool
  | .finished => true
  | _ => false

def ControlTask.withChild (t : ControlTask ε γ) : ControlOutcome γ → ControlTask ε γ
  | .ok => t
  | .returned child => { t with child := child }
  | .closed child _ => { t with child := child }
  | .raised _ child => { t with child := child.getD t.child }
  | .cancelled child => { t with child := child.getD t.child }

def abortControl (p : ControlParent ε γ) (index : Nat) (t : ControlTask ε γ) (isCancelled : Bool)
    (error : String) : Option (ControlParent ε γ) :=
  match t.phase with
  | .finished => none
  | .leaving => some (p.setTask index { t with phase := .finished })
  | .finalizing reason inTry => some (p.finalizeCancelledFrame index t reason inTry)
  | phase => some (if phase.isTrying then p.handle index t isCancelled error else p.leave index t)

def advanceControl (flow : ChildFlow ε γ) (p : ControlParent ε γ) (index : Nat)
    (t : ControlTask ε γ) (o : ControlOutcome γ) : Option (ControlParent ε γ) :=
  match t.phase, o with
  | _, .raised error _ => abortControl p index (t.withChild o) false error
  | _, .cancelled _ => abortControl p index (t.withChild o) true "cancelled"
  | .starting, .ok => some (p.setTask index { t with phase := .running })
  | .running, .returned _ => some (p.childReturned flow index (t.withChild o))
  | .projecting ⟨projected, interrupts, [], roots⟩, .ok =>
    some (p.storeProjection index t ⟨projected, interrupts, [], roots⟩)
  | .projecting ⟨projected, interrupts, (childId, i) :: todo, roots⟩, .ok =>
    some (p.setTask index { t with
      phase := .projecting (ControlParent.projectOne t.frame projected interrupts roots childId i
        todo) })
  | .closing, .closed _ result => some (p.completeFrame index (t.withChild o) result)
  | .completedNotice result, .ok =>
    some ({ p with emitted := result :: p.emitted }.setTask index
      { t with phase := .emitting result })
  | .emitting _, .ok => some ({ p with state := refreshWaitingStatus p.state }.leave index t)
  | .finalizing reason inTry, .closed _ _ =>
    some (p.finalizeCancelledFrame index (t.withChild o) reason inTry)
  | .cancelledNotice _, .ok => some (p.leave index t)
  | .failedNotice, .ok => some (p.leave index t)
  | .leaving, .ok => some (p.setTask index { t with phase := .finished })
  | _, _ => none

/-- The synchronous start of `async_resume_frame`; an interrupt that is not mapped raises. -/
def ControlParent.resumeFrame (p : ControlParent ε γ) (rootInterruptId : String) :
    ControlParent ε γ :=
  match p.frame.projectedInterrupts.get? rootInterruptId with
  | none => p
  | some _ =>
    let frame := { p.frame with status := FrameStatus.running }
    { p with
      frame := frame
      controls := p.controls ++ [⟨frame, frame.childSavedState, .running⟩]
      live := some p.controls.length }

def ControlParent.requestCancel (p : ControlParent ε γ) (reason : String) : ControlParent ε γ :=
  if p.frame.status = .running ∨ p.frame.status = .waiting then
    { p with
      frame := { p.frame with status := .cancelRequested, cancelReason := some reason }
      cancels := p.cancels ++ [{ control := p.live, reason := reason, phase := .requested }] }
  else { p with cancels := p.cancels ++ [{ reason := reason, phase := .returned false }] }

def ControlParent.setCancel (p : ControlParent ε γ) (index : Nat) (c : CancelCall)
    (phase : CancelPhase) : ControlParent ε γ :=
  { p with cancels := p.cancels.set index { c with phase := phase } }

def cancelProjected (interrupts : Ledger ε) (roots : List String) (reason : String) : Ledger ε :=
  roots.foldl (fun acc root =>
    match acc.get? root with
    | some i =>
      if i.status = .waiting then
        acc.set root { i with status := .cancelled, cancelReason := some reason }
      else acc
    | none => acc) interrupts

def ControlParent.childOf (p : ControlParent ε γ) (c : CancelCall) : Option γ :=
  (c.control.bind fun n => p.controls[n]?).map ControlTask.child

def ControlParent.finalizeCancel (p : ControlParent ε γ) (index : Nat) (c : CancelCall) :
    ControlParent ε γ :=
  if p.frame.status = .cancelRequested then
    let frame : ControlFrame γ :=
      { p.frame with
        status := .cancelled
        childSavedState := (p.childOf c).getD p.frame.childSavedState }
    let interrupts := cancelProjected p.state.interrupts frame.projectedInterrupts.keys c.reason
    { p with
      frame := frame
      state := refreshWaitingStatus { p.state with interrupts := interrupts } }.setCancel index c
        .cancelledNotice
  else
    { p with state := refreshWaitingStatus p.state }.setCancel index c (.returned true)

def ControlParent.gathered (p : ControlParent ε γ) (c : CancelCall) : Bool :=
  c.control.all fun n => p.controls[n]?.all fun t => t.phase.isFinished

def advanceCancel (p : ControlParent ε γ) (index : Nat) (c : CancelCall) (o : AwaitResult) :
    Option (ControlParent ε γ) :=
  match c.phase, o with
  | .returned _, _ => none
  | .raised, _ => none
  | _, .raised _ => some (p.setCancel index c .raised)
  | .requested, .ok =>
    some (p.setCancel index c (if c.control.isSome then .childNotice else .gathering))
  | .childNotice, .ok => some (p.setCancel index c .gathering)
  | .gathering, .ok => if p.gathered c then some (p.finalizeCancel index c) else none
  | .cancelledNotice, .ok => some (p.setCancel index c (.returned true))

def controlStep (flow : ChildFlow ε γ) (p : ControlParent ε γ) :
    ControlAction γ → Option (ControlParent ε γ)
  | .resume rootInterruptId => some (p.resumeFrame rootInterruptId)
  | .advance index o => p.controls[index]?.bind fun t => advanceControl flow p index t o
  | .cancel reason => some (p.requestCancel reason)
  | .advanceCancel index o => p.cancels[index]?.bind fun c => advanceCancel p index c o

def controlMachine (flow : ChildFlow ε γ) : Machine (ControlParent ε γ) (ControlAction γ) :=
  ⟨controlStep flow⟩

/-- The frame of `build_active_frame`, registered with the task that runs the child. -/
def ControlParent.active (frameId : String) (child : γ) (state : InterruptState ε) :
    ControlParent ε γ :=
  let frame : ControlFrame γ :=
    { frameId := frameId, status := .running, childSavedState := child, projectedInterrupts := [] }
  { state := state
    frame := frame
    controls := [⟨frame, child, .starting⟩]
    live := some 0
    cancels := []
    writtenBack := []
    emitted := [] }

end Agently.TriggerFlow.SubFlow
