import Agently.TriggerFlow.Signal

/-! # The interrupt ledger

Source: `TriggerFlow/ExecutionInterrupts.py`. A pause stores a waiting interrupt in
the execution's `interrupts` map; a continue, an event or a cancellation takes it out
of `waiting`. Every write re-reads the map and replaces one entry, so each function
below is one segment of a coroutine between two awaits. -/

namespace Agently.TriggerFlow

open Agently.Lib Agently.Utils

inductive Status where
  | created | running | waiting | completed | failed | cancelled
  deriving DecidableEq

inductive InterruptStatus where
  | waiting | resumed | cancelled
  deriving DecidableEq

inductive DispatchState where
  | planned | persisted | exposed | exposureFailed | accepted | dispatched
  | dispatchFailed | completed | cancelled
  deriving DecidableEq

inductive RequestStatus where
  | accepted | dispatched | dispatchFailed | completed
  deriving DecidableEq

/-- `resume_to` after normalisation; `other` is any other string, for which the
resume dispatch falls back to `resume_event`. -/
inductive ResumeTo (ε : Type) where
  | self
  | next
  | event (e : ε)
  | other
  deriving DecidableEq

structure ExternalWaitRequest where
  requestId : String
  dispatchState : DispatchState
  callbackIdempotencyKey : Option String := none
  actorId : Option String := none
  error : Option String := none
  deriving DecidableEq

structure ResumeRequest where
  requestId : String
  status : RequestStatus
  value : Value
  actor : Option String
  dispatchAttempts : Nat := 0
  error : Option String := none
  deriving DecidableEq

structure ResumeClaim where
  resumeRequestId : Option String
  actorId : Option String
  deriving DecidableEq

/-- One entry of the `interrupts` map. `response` is always written together with
`resume_value` and has no field of its own. `serial` numbers the `pause_for` call that
built the record; no function of the engine reads it. -/
structure Interrupt (ε : Type) where
  id : String
  type : String := "pause"
  exchangeKind : Option String := none
  payload : Value := .none
  resumeEvent : Option ε := none
  resumeTo : ResumeTo ε
  status : InterruptStatus := .waiting
  sourceOperatorId : Option String := none
  sourceSignal : Option (Signal ε) := none
  continuationEvent : Option ε := none
  resumeCount : Nat := 0
  maxResumes : Option Nat := none
  createdAt : Nat
  resumeValue : Value := .none
  externalWaitRequest : ExternalWaitRequest
  resumeClaim : Option ResumeClaim := none
  resumeRequests : Dict String ResumeRequest := []
  resumeRequestId : Option String := none
  resumedBy : Option String := none
  resumedBySignalId : Option String := none
  cancelReason : Option String := none
  subFlowFrameId : Option String := none
  serial : Nat
  deriving DecidableEq

abbrev Ledger (ε : Type) := Dict String (Interrupt ε)

structure InterruptState (ε : Type) where
  interrupts : Ledger ε
  status : Status
  lifecycleOpen : Bool
  deriving DecidableEq

variable {ε : Type}

def writeInterruptState (st : InterruptState ε) (interrupts : Ledger ε) (status : Option Status) :
    InterruptState ε :=
  { st with interrupts := interrupts, status := status.getD st.status }

def atomicStoreInterrupt (st : InterruptState ε) (interruptId : String) (interrupt : Interrupt ε)
    (status : Option Status) : InterruptState ε :=
  writeInterruptState st (st.interrupts.set interruptId interrupt) status

def atomicMutateInterrupt (st : InterruptState ε) (interruptId : String)
    (mutator : Interrupt ε → Interrupt ε) (status : Option Status) (requireWaiting : Bool) :
    InterruptState ε :=
  match st.interrupts.get? interruptId with
  | none => st
  | some stored =>
    if requireWaiting ∧ stored.status ≠ .waiting then st
    else writeInterruptState st (st.interrupts.set interruptId (mutator stored)) status

def setExternalWaitState (i : Interrupt ε) (dispatchState : DispatchState)
    (resumeRequestId actor error : Option String) : Interrupt ε :=
  { i with externalWaitRequest :=
      { i.externalWaitRequest with
        dispatchState := dispatchState
        callbackIdempotencyKey := resumeRequestId <|> i.externalWaitRequest.callbackIdempotencyKey
        actorId := actor <|> i.externalWaitRequest.actorId
        error := error <|> i.externalWaitRequest.error } }

/-- The record as `pause_for` built it: every field a later write touches is reset. -/
def Interrupt.origin (i : Interrupt ε) : Interrupt ε :=
  { i with
    status := .waiting
    resumeCount := 0
    resumeValue := .none
    externalWaitRequest := { requestId := "", dispatchState := .planned }
    resumeClaim := none
    resumeRequests := []
    resumeRequestId := none
    resumedBy := none
    resumedBySignalId := none
    cancelReason := none }

def hasPendingInterrupts (st : InterruptState ε) : Bool :=
  st.interrupts.vals.any fun i => i.status = .waiting

def refreshWaitingStatus (st : InterruptState ε) : InterruptState ε :=
  if hasPendingInterrupts st then { st with status := .waiting }
  else if st.status = .waiting then { st with status := .running }
  else st

@[simp] theorem refreshWaitingStatus_interrupts (st : InterruptState ε) :
    (refreshWaitingStatus st).interrupts = st.interrupts := by
  unfold refreshWaitingStatus
  split
  · rfl
  · split <;> rfl

def isWaiting (st : InterruptState ε) : Bool := st.status = .waiting

theorem get?_atomicStore (st : InterruptState ε) (k : String) (i : Interrupt ε)
    (status : Option Status) : (atomicStoreInterrupt st k i status).interrupts.get? k = some i :=
  Dict.get?_set_self st.interrupts k i

theorem atomicMutate_eq {st : InterruptState ε} {k : String} {stored : Interrupt ε}
    (h : st.interrupts.get? k = some stored) (f : Interrupt ε → Interrupt ε)
    (status : Option Status) :
    atomicMutateInterrupt st k f status false =
      writeInterruptState st (st.interrupts.set k (f stored)) status := by
  simp [atomicMutateInterrupt, h]

theorem atomicMutate_lifecycle (st : InterruptState ε) (k : String)
    (f : Interrupt ε → Interrupt ε) (status : Option Status) (w : Bool) :
    (atomicMutateInterrupt st k f status w).lifecycleOpen = st.lifecycleOpen := by
  unfold atomicMutateInterrupt
  split
  · rfl
  · split <;> rfl

structure PauseArgs (ε : Type) where
  type : String := "pause"
  exchangeKind : Option String := none
  payload : Value := .none
  resumeEvent : Option ε := none
  interruptId : Option String := none
  resumeTo : Option (ResumeTo ε) := none
  maxResumes : Option Nat := some 1

def normalizedResumeTo (args : PauseArgs ε) : ResumeTo ε :=
  match args.resumeTo with
  | some r => r
  | none =>
    match args.resumeEvent with
    | some e => .event e
    | none => .next

def countOfMeta (signalMeta : Dict String Value) : Nat :=
  match signalMeta.get? selfResumeCountMetaKey with
  | some (.int n) => n.toNat
  | _ => 0

def selfResumeCount (args : PauseArgs ε) (interruptId : String) (signalMeta : Dict String Value) :
    Nat :=
  match args.interruptId, signalMeta.get? "interrupt_id" with
  | some _, some resumedFrom =>
    if resumedFrom ≠ .none ∧ resumedFrom ≠ .str interruptId then 0 else countOfMeta signalMeta
  | _, _ => countOfMeta signalMeta

/-- What `pause_for` reads of its surroundings: the execution's last signal, the
operator of the running chunk, the clock and the identifiers it draws. -/
structure PauseContext (ε : Type) where
  lastSignal : Option (Signal ε)
  sourceOperatorId : Option String
  continuationEvent : Option ε
  now : Nat
  freshId : String
  serial : Nat

def ResumeTo.isSelf : ResumeTo ε → Bool
  | .self => true
  | _ => false

def PauseContext.resumeCount (c : PauseContext ε) (args : PauseArgs ε) : Nat :=
  selfResumeCount args (args.interruptId.getD c.freshId)
    ((c.lastSignal.map Signal.signalMeta).getD [])

def selfResumeLimitReached (args : PauseArgs ε) (count : Nat) : Bool :=
  (normalizedResumeTo args).isSelf && args.maxResumes.any fun m => decide (m ≤ count)

def plannedInterrupt (args : PauseArgs ε) (c : PauseContext ε) : Interrupt ε :=
  let interruptId := args.interruptId.getD c.freshId
  let resumeTo := normalizedResumeTo args
  { id := interruptId
    type := args.type
    exchangeKind := args.exchangeKind
    payload := args.payload
    resumeEvent := args.resumeEvent
    resumeTo := resumeTo
    sourceOperatorId := c.sourceOperatorId
    sourceSignal := c.lastSignal.map serializeSignal
    continuationEvent := c.continuationEvent
    resumeCount := if resumeTo.isSelf then c.resumeCount args else 0
    maxResumes := if resumeTo.isSelf then args.maxResumes else none
    createdAt := c.now
    externalWaitRequest := { requestId := interruptId, dispatchState := .planned }
    serial := c.serial }

/-- The first segment of `_async_pause_for_unlocked`: builds the record, or raises when
the self-resume limit is reached. -/
def planInterrupt (args : PauseArgs ε) (c : PauseContext ε) : Option (Interrupt ε) :=
  if selfResumeLimitReached args (c.resumeCount args) then none
  else some (plannedInterrupt args c)

theorem planInterrupt_eq_some {args : PauseArgs ε} {c : PauseContext ε} {i : Interrupt ε}
    (h : planInterrupt args c = some i) : i = plannedInterrupt args c := by
  unfold planInterrupt at h
  split at h
  · cases h
  · exact (Option.some.inj h).symm

def ownsWaitingPauseBoundary (current : Option (Interrupt ε)) (expected : Interrupt ε) : Bool :=
  match current with
  | none => false
  | some i =>
    decide (i.createdAt = expected.createdAt ∧ i.status = .waiting ∧
      i.externalWaitRequest.dispatchState = .persisted)

def storePlanned (st : InterruptState ε) (i : Interrupt ε) : InterruptState ε :=
  atomicStoreInterrupt st i.id (setExternalWaitState i .persisted none none none) (some .waiting)

def rollbackPause (st : InterruptState ε) (i : Interrupt ε) (previous : Option (Interrupt ε))
    (previousStatus : Status) : InterruptState ε :=
  if ownsWaitingPauseBoundary (st.interrupts.get? i.id) i then
    let restored := match previous with
      | some p => st.interrupts.set i.id p
      | none => st.interrupts.del i.id
    let status := if restored.vals.any fun j => j.status = .waiting then .waiting else previousStatus
    writeInterruptState st restored (some status)
  else st

/-- `_apply_local_envelope` on the freshest stored interrupt, if it still waits. -/
def applyLocalEnvelope (st : InterruptState ε) (i : Interrupt ε) : InterruptState ε :=
  atomicMutateInterrupt st i.id
    (fun stored => { stored with externalWaitRequest := i.externalWaitRequest })
    (some .waiting) true

variable [DecidableEq ε]

def targetEvent (i : Interrupt ε) : Option ε :=
  match i.resumeTo with
  | .event e => some e
  | _ => i.resumeEvent

def resumableBy (signal : Signal ε) (i : Interrupt ε) : Bool :=
  decide (i.status = .waiting) && i.resumeClaim.isNone &&
    decide (targetEvent i = some signal.triggerEvent)

def resumedBySignal (signal : Signal ε) (i : Interrupt ε) : Interrupt ε :=
  setExternalWaitState
    { i with
      status := .resumed
      resumeValue := signal.value
      resumedBySignalId := some signal.id }
    .completed none none none

/-- `async_resume_for_signal` up to its first await; the resumed interrupts are the
entries of the old ledger that `resumableBy` selects. -/
def resumeForSignal (st : InterruptState ε) (signal : Signal ε) : InterruptState ε :=
  if signal.triggerType ≠ .event ∨ signal.source = "interrupt" then st
  else if st.interrupts.vals.any (resumableBy signal) then
    refreshWaitingStatus
      { st with interrupts := st.interrupts.map fun p =>
          (p.1, if resumableBy signal p.2 then resumedBySignal signal p.2 else p.2) }
  else st

def cancellable (i : Interrupt ε) : Bool := decide (i.status = .waiting) && i.resumeClaim.isNone

def cancelledFor (reason : String) (i : Interrupt ε) : Interrupt ε :=
  setExternalWaitState { i with status := .cancelled, cancelReason := some reason }
    .cancelled none none none

def cancelPendingInterrupts (st : InterruptState ε) (reason : String) : InterruptState ε :=
  if st.interrupts.vals.any cancellable then
    { st with
      interrupts := st.interrupts.map fun p =>
        (p.1, if cancellable p.2 then cancelledFor reason p.2 else p.2)
      status := .cancelled }
  else st

end Agently.TriggerFlow
