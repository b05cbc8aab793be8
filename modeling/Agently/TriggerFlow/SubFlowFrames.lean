import Agently.TriggerFlow.DispatchTokens

/-! # Resuming a sub-flow frame

Source: `TriggerFlow/BluePrintSubFlow.py`, `TriggerFlow/Execution.py`. A continued interrupt of a
frame loads the child the frame holds, runs it and stores it back; the phases are the awaits of
that coroutine. What the child does while it runs is the outcome of the await. -/

namespace Agently.TriggerFlow

open Agently.Lib Agently.Utils

variable {ε γ : Type}

def ContinueTask.args : ContinueTask ε → ContinueArgs
  | .entering args => args
  | .resuming _ r => r.args
  | .finished args _ => args

namespace SubFlow

/-- What a parent reads of a child execution: the interrupts that wait in it and how many
it has paused so far. -/
structure ChildFlow (ε γ : Type) where
  pending : γ → Dict String (Interrupt ε)
  pauses : γ → Nat

inductive FrameStatus where
  | running | waiting | completed | failed | cancelRequested | cancelled
  deriving DecidableEq

structure Frame (γ : Type) where
  frameId : String
  status : FrameStatus
  childSavedState : γ
  projectedInterrupts : Dict String String
  projectedRootInterruptIds : List String := []
  result : Option Value := none
  error : Option String := none
  deriving DecidableEq

/-- What a suspended resume of the frame awaits; `frame` is its own copy. -/
inductive FramePhase (ε γ : Type) where
  | running (frame : Frame γ) (childId : String)
  | projecting (frame : Frame γ) (child : γ) (projected : Dict String String)
      (interrupts : Ledger ε) (todo : List (String × Interrupt ε)) (roots : List String)
  | closing (frame : Frame γ) (child : γ)
  | completedNotice (result : Value)
  | emitting (result : Value)
  | finalizing (child : γ)
  | failedNotice (error : String)
  | returning
  deriving DecidableEq

/-- A `continue_with` call of the parent, outside or inside the frame it resumes. -/
inductive FrameCall (ε γ : Type) where
  | outside (task : ContinueTask ε)
  | inside (resume : Resume ε) (phase : FramePhase ε γ)
  deriving DecidableEq

inductive ChildRun (γ : Type) where
  | resumed (interruptId childId : String) (value : Value) (before after : γ)
  | closed (before after : γ)
  deriving DecidableEq

inductive FrameOutcome (γ : Type) where
  | ok
  | returned (child : γ)
  | closed (child : γ) (result : Value)
  | raised (error : String) (child : Option γ)

/-- The parent with one of its frames. The logs are newest first: what the child did, the interrupts
that were resumed, by the serial of their pause, the results that were written back and those that
were emitted. -/
structure FrameParent (ε γ : Type) where
  state : InterruptState ε
  frame : Frame γ
  calls : List (FrameCall ε γ)
  runs : List (ChildRun γ)
  resumed : List (String × Nat)
  writtenBack : List Value
  emitted : List Value
  deriving DecidableEq

inductive FrameAction (γ : Type) where
  | continueWith (args : ContinueArgs)
  | advance (index : Nat) (outcome : FrameOutcome γ)

def FrameCall.args : FrameCall ε γ → ContinueArgs
  | .outside t => t.args
  | .inside r _ => r.args

def FrameCall.isFinished : FrameCall ε γ → Bool
  | .outside (.finished _ _) => true
  | _ => false

def FrameStatus.isCancelling : FrameStatus → Bool
  | .cancelRequested => true
  | .cancelled => true
  | _ => false

section Child

variable (flow : ChildFlow ε γ)

/-- What waits in a child after it ran waited before, unless it is the interrupt that was
continued, or was paused by the run. -/
def ChildFlow.runsTo (before : γ) (continued : Option String) (after : γ) : Bool :=
  decide (flow.pauses before ≤ flow.pauses after) &&
    (flow.pending after).all fun p =>
      decide (p.2.serial < flow.pauses after) &&
        (decide (flow.pauses before ≤ p.2.serial) ||
          (decide (some p.1 ≠ continued) &&
            ((flow.pending before).get? p.1).any fun i => decide (i.serial = p.2.serial)))

end Child

def rootId (frameId childId : String) : String := frameId ++ ":" ++ childId

/-- The root interrupt `childId` is projected to. -/
def rootOf (frameId childId : String) (projected : Dict String String) : String :=
  match projected.find? fun p => p.2 = childId with
  | some p => p.1
  | none => rootId frameId childId

def rootInterrupt (frameId root : String) (i : Interrupt ε) : Interrupt ε :=
  { i with id := root, status := .waiting, subFlowFrameId := some frameId }

/-- The loop of `project_child_interrupts` up to the next stream item. -/
def projectNext (frame : Frame γ) (child : γ) (projected : Dict String String)
    (interrupts : Ledger ε) (roots : List String) (childId : String) (i : Interrupt ε)
    (todo : List (String × Interrupt ε)) : FramePhase ε γ :=
  let root := rootOf frame.frameId childId projected
  .projecting frame child (Dict.set projected root childId)
    (interrupts.set root (rootInterrupt frame.frameId root i)) todo (roots ++ [root])

def projectedFrame (frame : Frame γ) (child : γ) (projected : Dict String String)
    (roots : List String) : Frame γ :=
  { frame with
    status := .waiting
    childSavedState := child
    projectedInterrupts := projected
    projectedRootInterruptIds := roots }

def FrameParent.setCall (p : FrameParent ε γ) (index : Nat) (call : FrameCall ε γ) :
    FrameParent ε γ :=
  { p with calls := p.calls.set index call }

def FrameParent.abort (p : FrameParent ε γ) (index : Nat) (r : Resume ε) (error : String) :
    FrameParent ε γ :=
  let next := abortDispatch p.state r error
  { p with state := next.1 }.setCall index (.outside next.2)

/-- The synchronous start of `async_resume_frame`. -/
def FrameParent.enterFrame (p : FrameParent ε γ) (index : Nat) (r : Resume ε) :
    FrameParent ε γ :=
  match p.frame.projectedInterrupts.get? r.args.interruptId with
  | none => p.abort index r "is not mapped to a child interrupt"
  | some childId =>
    let frame := { p.frame with status := FrameStatus.running }
    { p with frame := frame }.setCall index (.inside r (.running frame childId))

def FrameParent.failFrame (p : FrameParent ε γ) (index : Nat) (r : Resume ε) (error : String)
    (child : γ) : FrameParent ε γ :=
  if p.frame.status.isCancelling then p.setCall index (.inside r (.finalizing child))
  else
    { p with frame :=
        { p.frame with
          status := .failed
          error := some error
          childSavedState := child } }.setCall index (.inside r (.failedNotice error))

def FrameParent.finalizeCancelled (p : FrameParent ε γ) (child : γ) : FrameParent ε γ :=
  if p.frame.status = .completed ∨ p.frame.status = .failed then p
  else { p with frame := { p.frame with status := .cancelled, childSavedState := child } }

/-- The child is back from `continue_with`: its interrupts are projected, or it is closed. -/
def FrameParent.childReturned (flow : ChildFlow ε γ) (p : FrameParent ε γ) (index : Nat)
    (r : Resume ε) (frame : Frame γ) (childId : String) (child : γ) : FrameParent ε γ :=
  let run := ChildRun.resumed r.args.interruptId childId r.args.value frame.childSavedState child
  let ran := { p with runs := run :: p.runs }
  match flow.pending child with
  | [] => ran.setCall index (.inside r (.closing frame child))
  | (c, i) :: todo =>
    ran.setCall index (.inside r (projectNext frame child frame.projectedInterrupts
      p.state.interrupts [] c i todo))

def FrameParent.storeProjection (p : FrameParent ε γ) (index : Nat) (r : Resume ε)
    (frame : Frame γ) (child : γ) (projected : Dict String String) (interrupts : Ledger ε)
    (roots : List String) : FrameParent ε γ :=
  { p with
    state := { p.state with interrupts := interrupts, status := .waiting }
    frame := projectedFrame frame child projected roots }.setCall index (.inside r .returning)

def FrameParent.childClosed (p : FrameParent ε γ) (index : Nat) (r : Resume ε) (before child : γ)
    (result : Value) : FrameParent ε γ :=
  if p.frame.status.isCancelling then p.setCall index (.inside r (.finalizing child))
  else
    { p with
      frame := { p.frame with
        status := .completed, childSavedState := child, result := some result }
      runs := .closed before child :: p.runs
      writtenBack := result :: p.writtenBack }.setCall index (.inside r (.completedNotice result))

def advanceInside (flow : ChildFlow ε γ) (p : FrameParent ε γ) (index : Nat) (r : Resume ε) :
    FramePhase ε γ → FrameOutcome γ → Option (FrameParent ε γ)
  | .running frame childId, .returned child =>
    if flow.runsTo frame.childSavedState (some childId) child then
      some (p.childReturned flow index r frame childId child)
    else none
  | .running frame _, .raised error child =>
    some (p.failFrame index r error (child.getD frame.childSavedState))
  | .projecting frame child projected interrupts [] roots, .ok =>
    some (p.storeProjection index r frame child projected interrupts roots)
  | .projecting frame child projected interrupts ((c, i) :: todo) roots, .ok =>
    some (p.setCall index
      (.inside r (projectNext frame child projected interrupts roots c i todo)))
  | .projecting _ known _ _ _ _, .raised error child =>
    some (p.failFrame index r error (child.getD known))
  | .closing _ before, .closed child result =>
    if flow.runsTo before none child then some (p.childClosed index r before child result)
    else none
  | .closing _ known, .raised error child =>
    some (p.failFrame index r error (child.getD known))
  | .completedNotice result, .ok =>
    some ({ p with emitted := result :: p.emitted }.setCall index
      (.inside r (.emitting result)))
  | .emitting _, .ok =>
    some ({ p with state := refreshWaitingStatus p.state }.setCall index (.inside r .returning))
  | .completedNotice _, .raised error child =>
    some (p.failFrame index r error (child.getD p.frame.childSavedState))
  | .emitting _, .raised error child =>
    some (p.failFrame index r error (child.getD p.frame.childSavedState))
  | .finalizing child, .ok =>
    some ((p.finalizeCancelled child).setCall index (.inside r .returning))
  | .failedNotice error, .ok => some (p.abort index r error)
  | .failedNotice _, .raised error _ => some (p.abort index r error)
  | .returning, .ok =>
    let next := finishDispatch p.state r
    some ({ p with state := next.1 }.setCall index (.outside next.2))
  | .returning, .raised error _ => some (p.abort index r error)
  | _, _ => none

def marked : ContinueTask ε → Option (Resume ε)
  | .resuming .executionResumed r => some r
  | _ => none

def entersFrame (frameId : String) : ContinueTask ε → Option (Resume ε)
  | .resuming .dispatching r => if r.interrupt.subFlowFrameId = some frameId then some r else none
  | _ => none

def markedOf (frameId : String) (next : ContinueTask ε) : List (String × Nat) :=
  match marked next with
  | some r =>
    if r.interrupt.subFlowFrameId = some frameId then
      [(r.args.interruptId, r.interrupt.serial)]
    else []
  | none => []

def advanceOutside (p : FrameParent ε γ) (index : Nat) (t : ContinueTask ε) (o : AwaitResult) :
    FrameParent ε γ :=
  let next := advanceContinue p.state t o
  let moved := { p with
    state := next.1, resumed := markedOf p.frame.frameId next.2 ++ p.resumed }
  match entersFrame p.frame.frameId next.2 with
  | some r => moved.enterFrame index r
  | none => moved.setCall index (.outside next.2)

def FrameOutcome.await : FrameOutcome γ → Option AwaitResult
  | .ok => some .ok
  | .raised error _ => some (.raised error)
  | _ => none

/-- A call on an interrupt no other call was made on, or a step of a call. -/
def frameStep (flow : ChildFlow ε γ) (p : FrameParent ε γ) : FrameAction γ → Option (FrameParent ε γ)
  | .continueWith args =>
    if (p.calls.any fun c => decide (c.args.interruptId = args.interruptId)) then none
    else some { p with calls := p.calls ++ [.outside (.entering args)] }
  | .advance index o =>
    match p.calls[index]? with
    | some (.outside t) => o.await.map (advanceOutside p index t)
    | some (.inside r phase) => advanceInside flow p index r phase o
    | none => none

def frameMachine (flow : ChildFlow ε γ) : Machine (FrameParent ε γ) (FrameAction γ) :=
  ⟨frameStep flow⟩

end SubFlow

end Agently.TriggerFlow
