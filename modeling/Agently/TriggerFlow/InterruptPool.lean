import Agently.Lib.Machine
import Agently.Lib.Count
import Agently.TriggerFlow.ContinueWith

/-! # Concurrent calls on the interrupt ledger

Source: `TriggerFlow/ExecutionInterrupts.py`. `pause_for`, `continue_with`, events and
cancellations interleave at their awaits; the log records, newest first, what was paused and what
was dispatched. -/

namespace Agently.TriggerFlow

open Agently.Lib Agently.Utils

variable {ε : Type}

inductive PausePhase (ε : Type) where
  | planned
  | persisting (previous : Option (Interrupt ε)) (previousStatus : Status)
  | persistedNotice
  | publishing
  | exposureFailed
  | raisedNotice
  | streamPut
  | exposedNotice

/-- `explicit`: the call named its interrupt and holds the boundary lock of the id. -/
inductive PauseTask (ε : Type) where
  | pausing (explicit : Bool) (phase : PausePhase ε) (interrupt : Interrupt ε)
  | finished (raised : Bool)

def goOnIfOwned (st : InterruptState ε) (explicit : Bool) (next : PausePhase ε)
    (i : Interrupt ε) : PauseTask ε :=
  if ownsWaitingPauseBoundary (st.interrupts.get? i.id) i then .pausing explicit next i
  else .finished false

def advancePause (st : InterruptState ε) (t : PauseTask ε) (o : AwaitResult) :
    InterruptState ε × PauseTask ε :=
  match t, o with
  | .pausing e .planned i, .ok =>
    (storePlanned st i,
      .pausing e (.persisting (st.interrupts.get? i.id) st.status)
        (setExternalWaitState i .persisted none none none))
  | .pausing e (.persisting _ _) i, .ok => (st, goOnIfOwned st e .persistedNotice i)
  | .pausing _ (.persisting previous previousStatus) i, .raised _ =>
    (rollbackPause st i previous previousStatus, .finished true)
  | .pausing e .persistedNotice i, .ok => (st, goOnIfOwned st e .publishing i)
  | .pausing e .publishing i, .ok => (applyLocalEnvelope st i, .pausing e .raisedNotice i)
  | .pausing e .publishing i, .raised error =>
    let i' := setExternalWaitState i .exposureFailed none none (some error)
    (applyLocalEnvelope st i', .pausing e .exposureFailed i')
  | .pausing _ .exposureFailed _, _ => (st, .finished true)
  | .pausing e .raisedNotice i, .ok => (st, .pausing e .streamPut i)
  | .pausing e .streamPut i, .ok =>
    let i' := setExternalWaitState i .exposed none none none
    (applyLocalEnvelope st i', .pausing e .exposedNotice i')
  | .pausing _ .exposedNotice _, .ok => (st, .finished false)
  | .pausing _ _ _, .raised _ => (st, .finished true)
  | .finished raised, _ => (st, .finished raised)

inductive PoolTask (ε : Type) where
  | continueWith (task : ContinueTask ε)
  | pauseFor (task : PauseTask ε)

/-- Who dispatched an interrupt: an event signal, or the call at this place of the pool. -/
inductive Resumer where
  | signal (id : String)
  | call (index : Nat) (args : ContinueArgs)
  deriving DecidableEq

inductive PoolEvent where
  | paused (interruptId : String) (serial createdAt : Nat)
  | started (serial : Nat) (resumer : Resumer)
  | raised (serial : Nat) (resumer : Resumer)
  | completed (serial : Nat) (resumer : Resumer)
  deriving DecidableEq

structure Pool (ε : Type) where
  state : InterruptState ε
  tasks : List (PoolTask ε)
  log : List PoolEvent
  pauses : Nat

inductive PoolAction (ε : Type) where
  | continueWith (args : ContinueArgs)
  | pauseFor (args : PauseArgs ε) (context : PauseContext ε)
  | advance (index : Nat) (result : AwaitResult)
  | signal (s : Signal ε)
  | cancel (reason : String)
  | sealExecution

def boundaryHeld (tasks : List (PoolTask ε)) (interruptId : String) : Bool :=
  tasks.any fun t => match t with
    | .pauseFor (.pausing true _ i) => decide (i.id = interruptId)
    | _ => false

def pausedBefore (log : List PoolEvent) (interruptId : String) : Bool :=
  log.any fun e => match e with
    | .paused id _ _ => decide (id = interruptId)
    | _ => false

def continueEvents (index : Nat) : ContinueTask ε → AwaitResult → List PoolEvent
  | .resuming .streamPut r, .ok => [.started r.interrupt.serial (.call index r.args)]
  | .resuming .dispatching r, .ok => [.completed r.interrupt.serial (.call index r.args)]
  | .resuming .dispatching r, .raised _ => [.raised r.interrupt.serial (.call index r.args)]
  | _, _ => []

def waitsAtBoundary (tasks : List (PoolTask ε)) : ContinueTask ε → Bool
  | .entering args => boundaryHeld tasks args.interruptId
  | _ => false

def advanceTask (p : Pool ε) (index : Nat) (o : AwaitResult) : PoolTask ε → Option (Pool ε)
  | .continueWith t =>
    if waitsAtBoundary p.tasks t then none
    else
      let next := advanceContinue p.state t o
      some { p with
        state := next.1
        tasks := p.tasks.set index (.continueWith next.2)
        log := continueEvents index t o ++ p.log }
  | .pauseFor t =>
    let next := advancePause p.state t o
    some { p with state := next.1, tasks := p.tasks.set index (.pauseFor next.2) }

def pauseBlocked (p : Pool ε) (args : PauseArgs ε) (c : PauseContext ε) : Bool :=
  match args.interruptId with
  | some id => boundaryHeld p.tasks id
  | none => pausedBefore p.log c.freshId

def startPause (p : Pool ε) (args : PauseArgs ε) (c : PauseContext ε) : Option (Pool ε) :=
  if pauseBlocked p args c then none
  else match planInterrupt args { c with serial := p.pauses } with
    | none => some { p with tasks := p.tasks ++ [.pauseFor (.finished true)] }
    | some i => some
        { p with
          tasks := p.tasks ++ [.pauseFor (.pausing args.interruptId.isSome .planned i)]
          log := .paused i.id i.serial i.createdAt :: p.log
          pauses := p.pauses + 1 }

variable [DecidableEq ε]

def signalEvents (interrupts : Ledger ε) (s : Signal ε) : List PoolEvent :=
  if s.triggerType ≠ .event ∨ s.source = "interrupt" then []
  else (interrupts.vals.filter (resumableBy s)).map fun i => .started i.serial (.signal s.id)

def poolStep (p : Pool ε) : PoolAction ε → Option (Pool ε)
  | .continueWith args => some { p with tasks := p.tasks ++ [.continueWith (.entering args)] }
  | .pauseFor args c => startPause p args c
  | .advance index o => p.tasks[index]?.bind (advanceTask p index o)
  | .signal s => some
      { p with
        state := resumeForSignal p.state s
        log := signalEvents p.state.interrupts s ++ p.log }
  | .cancel reason => some { p with state := cancelPendingInterrupts p.state reason }
  | .sealExecution => some { p with state := { p.state with lifecycleOpen := false } }

def interruptPool (ε : Type) [DecidableEq ε] : Machine (Pool ε) (PoolAction ε) := ⟨poolStep⟩

def Pool.initial : Pool ε :=
  { state := { interrupts := [], status := .running, lifecycleOpen := true }
    tasks := []
    log := []
    pauses := 0 }

end Agently.TriggerFlow
