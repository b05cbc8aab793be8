import Agently.TriggerFlow.Interrupts

/-! # `continue_with`

Source: `TriggerFlow/ExecutionInterrupts.py`. A call is a coroutine; the phases below are its
suspensions, and `advanceContinue` runs it from one to the next. -/

namespace Agently.TriggerFlow

open Agently.Lib Agently.Utils

structure ContinueArgs where
  interruptId : String
  value : Value := .none
  resumeRequestId : Option String := none
  actor : Option String := none
  deriving DecidableEq

inductive ContinueError where
  | notFound
  | conflictingRequest
  | notWaiting
  | selfResumeLimit
  deriving DecidableEq

/-- The local variables of a call that holds a claim: its copy of the interrupt and,
when it came with a request id, its copy of the request record. -/
structure Resume (ε : Type) where
  args : ContinueArgs
  interrupt : Interrupt ε
  request : Option ResumeRequest
  deriving DecidableEq

inductive ClaimResult (ε : Type) where
  | raised (error : ContinueError)
  | returned (interrupt : Interrupt ε)
  | claimed (resume : Resume ε) (acceptedNow : Bool)

variable {ε : Type}

def sameResumeRequestValue (record : ResumeRequest) (value : Value) : Bool :=
  Value.pyEq record.value value.serializable

def chargedCount (i : Interrupt ε) : Option Nat :=
  match i.resumeTo, i.maxResumes with
  | .self, some m => if m < i.resumeCount + 1 then none else some (i.resumeCount + 1)
  | .self, none => some (i.resumeCount + 1)
  | _, _ => some i.resumeCount

variable {i : Interrupt ε}

theorem charged_ge {count : Nat} (h : chargedCount i = some count) :
    i.resumeCount ≤ count := by
  unfold chargedCount at h
  split at h
  · split at h
    · cases h
    · cases h
      omega
  · cases h
    omega
  · cases h
    omega

theorem charged_self {count : Nat} (h : chargedCount i = some count) (hself : i.resumeTo = .self) :
    count = i.resumeCount + 1 ∧ ∀ m, i.maxResumes = some m → count ≤ m := by
  cases hm : i.maxResumes with
  | none =>
    simp only [chargedCount, hself, hm, Option.some.injEq] at h
    exact ⟨h.symm, by intro m he; cases he⟩
  | some m =>
    simp only [chargedCount, hself, hm] at h
    split at h
    · cases h
    · cases h
      refine ⟨rfl, ?_⟩
      intro m' he
      cases he
      omega

def acceptRequest (i : Interrupt ε) (args : ContinueArgs) (rid : String) : Resume ε :=
  let record : ResumeRequest :=
    { requestId := rid, status := .accepted, value := args.value.serializable, actor := args.actor }
  { args := args
    interrupt := setExternalWaitState
      { i with
        resumeRequests := i.resumeRequests.set rid record
        resumeRequestId := some rid
        resumedBy := args.actor }
      .accepted (some rid) args.actor none
    request := some record }

def retryRequest (i : Interrupt ε) (args : ContinueArgs) (rid : String) (existing : ResumeRequest) :
    Resume ε :=
  { args := args
    interrupt := { i with resumeRequestId := some rid, resumedBy := args.actor <|> i.resumedBy }
    request := some existing }

/-- The claim on an interrupt nobody holds: charges the count, sets the claim and
records the request. -/
def takeClaim (i : Interrupt ε) (args : ContinueArgs) (existing : Option ResumeRequest)
    (count : Nat) : ClaimResult ε :=
  let claimed : Interrupt ε :=
    { i with
      resumeCount := count
      resumeClaim := some { resumeRequestId := args.resumeRequestId, actorId := args.actor } }
  match args.resumeRequestId, existing with
  | none, _ => .claimed { args := args, interrupt := claimed, request := none } false
  | some rid, none => .claimed (acceptRequest claimed args rid) true
  | some rid, some record => .claimed (retryRequest claimed args rid record) false

def claimUnlessHeld (i : Interrupt ε) (args : ContinueArgs) (existing : Option ResumeRequest) :
    ClaimResult ε :=
  match i.resumeClaim with
  | some active =>
    if args.resumeRequestId.isSome ∧ active.resumeRequestId = args.resumeRequestId then .returned i
    else .raised .notWaiting
  | none =>
    if i.status ≠ .waiting then .raised .notWaiting
    else match chargedCount i with
      | none => .raised .selfResumeLimit
      | some count => takeClaim i args existing count

def existingRequest (i : Interrupt ε) (args : ContinueArgs) : Option ResumeRequest :=
  args.resumeRequestId.bind i.resumeRequests.get?

def claim (interrupts : Ledger ε) (args : ContinueArgs) : ClaimResult ε :=
  match interrupts.get? args.interruptId with
  | none => .raised .notFound
  | some i =>
    match existingRequest i args with
    | none => claimUnlessHeld i args none
    | some existing =>
      if sameResumeRequestValue existing args.value = false then .raised .conflictingRequest
      else if i.status ≠ .waiting ∨ existing.status = .completed then .returned i
      else claimUnlessHeld i args (some existing)

/-- The copy of `i` a call holds once it has claimed it. -/
structure ClaimedCopy (i : Interrupt ε) (args : ContinueArgs) (r : Resume ε) : Prop where
  args_eq : r.args = args
  origin_eq : r.interrupt.origin = i.origin
  charged : chargedCount i = some r.interrupt.resumeCount
  request_isSome : r.request.isSome = args.resumeRequestId.isSome

variable {args : ContinueArgs} {r : Resume ε}

theorem takeClaim_spec {existing : Option ResumeRequest}
    {count : Nat} {now : Bool} (hn : chargedCount i = some count)
    (h : takeClaim i args existing count = .claimed r now) :
    ClaimedCopy i args r ∧ r.interrupt.status = i.status ∧ r.interrupt.resumeClaim.isSome ∧
      (now = true → args.resumeRequestId.isSome) := by
  unfold takeClaim at h
  cases hr : args.resumeRequestId with
  | none =>
    simp only [hr] at h
    cases h
    exact ⟨⟨rfl, rfl, hn, by simp [hr]⟩, rfl, rfl, by simp⟩
  | some rid =>
    cases existing with
    | none =>
      simp only [hr] at h
      cases h
      exact ⟨⟨rfl, rfl, hn, by simp [acceptRequest, hr]⟩, rfl, rfl, by simp⟩
    | some record =>
      simp only [hr] at h
      cases h
      exact ⟨⟨rfl, rfl, hn, by simp [retryRequest, hr]⟩, rfl, rfl, by simp⟩

theorem claimUnlessHeld_spec {existing : Option ResumeRequest} {now : Bool}
    (h : claimUnlessHeld i args existing = .claimed r now) :
    i.status = .waiting ∧ i.resumeClaim = none ∧ ClaimedCopy i args r ∧
      r.interrupt.status = .waiting ∧ r.interrupt.resumeClaim.isSome ∧
      (now = true → args.resumeRequestId.isSome) := by
  unfold claimUnlessHeld at h
  cases hc : i.resumeClaim with
  | some active =>
    simp only [hc] at h
    split at h <;> cases h
  | none =>
    simp only [hc] at h
    by_cases hw : i.status = .waiting
    · rw [if_neg (not_not.mpr hw)] at h
      cases hn : chargedCount i with
      | none => simp only [hn] at h; cases h
      | some count =>
        simp only [hn] at h
        obtain ⟨hcopy, hs, hclaim, hnow⟩ := takeClaim_spec hn h
        exact ⟨hw, rfl, hcopy, hs.trans hw, hclaim, hnow⟩
    · rw [if_pos hw] at h
      cases h

theorem claim_spec {interrupts : Ledger ε} {now : Bool}
    (h : claim interrupts args = .claimed r now) :
    ∃ i, interrupts.get? args.interruptId = some i ∧ i.status = .waiting ∧ i.resumeClaim = none ∧
      ClaimedCopy i args r ∧ r.interrupt.status = .waiting ∧ r.interrupt.resumeClaim.isSome ∧
      (now = true → args.resumeRequestId.isSome) := by
  unfold claim at h
  cases hi : interrupts.get? args.interruptId with
  | none => simp only [hi] at h; cases h
  | some i =>
    simp only [hi] at h
    refine ⟨i, rfl, ?_⟩
    cases he : existingRequest i args with
    | none =>
      simp only [he] at h
      exact claimUnlessHeld_spec h
    | some existing =>
      simp only [he] at h
      split at h
      · cases h
      · split at h
        · cases h
        · exact claimUnlessHeld_spec h

def storeClaim (st : InterruptState ε) (r : Resume ε) : InterruptState ε :=
  atomicStoreInterrupt st r.args.interruptId r.interrupt (some .waiting)

def Resume.withRequest (r : Resume ε) (rid : String) (record : ResumeRequest)
    (dispatchState : DispatchState) (error : Option String) : Resume ε :=
  { r with
    request := some record
    interrupt := setExternalWaitState
      { r.interrupt with resumeRequests := r.interrupt.resumeRequests.set rid record }
      dispatchState (some rid) r.args.actor error }

def markDispatched (r : Resume ε) : Resume ε :=
  match r.args.resumeRequestId, r.request with
  | some rid, some record =>
    r.withRequest rid
      { record with
        status := .dispatched
        dispatchAttempts := record.dispatchAttempts + 1
        actor := r.args.actor <|> record.actor }
      .dispatched none
  | _, _ => r

def markResumed (r : Resume ε) : Resume ε :=
  { r with interrupt :=
      { r.interrupt with
        status := .resumed
        resumeValue := r.args.value
        resumeClaim := none
        resumeRequestId := r.args.resumeRequestId <|> r.interrupt.resumeRequestId
        resumedBy := if r.args.resumeRequestId.isSome then r.args.actor else r.interrupt.resumedBy } }

def failStored (r : Resume ε) (rid : String) (record : ResumeRequest) (error : String)
    (stored : Interrupt ε) : Interrupt ε :=
  let recorded := { stored with resumeRequests := stored.resumeRequests.set rid record }
  if stored.createdAt = r.interrupt.createdAt then
    setExternalWaitState
      { recorded with status := .waiting, resumeValue := .none, resumeClaim := none }
      .dispatchFailed (some rid) r.args.actor (some error)
  else recorded

/-- The handler of a dispatch that raised: compensates when the call has a request. -/
def failDispatch (st : InterruptState ε) (r : Resume ε) (error : String) :
    InterruptState ε × Option (Resume ε) :=
  match r.args.resumeRequestId, r.request with
  | some rid, some record =>
    let failed := { record with status := RequestStatus.dispatchFailed, error := some error }
    let local' := r.withRequest rid failed .dispatchFailed (some error)
    let current := st.interrupts.get? r.args.interruptId
    let status := if current.any fun i =>
        decide (i.createdAt = r.interrupt.createdAt ∨ i.status = .waiting)
      then some Status.waiting else none
    (atomicMutateInterrupt st r.args.interruptId (failStored r rid failed error) status false,
      some { local' with interrupt :=
        { local'.interrupt with status := .waiting, resumeValue := .none, resumeClaim := none } })
  | _, _ => (st, none)

def completeStored (r : Resume ε) (rid : String) (record : ResumeRequest) (stored : Interrupt ε) :
    Interrupt ε :=
  let recorded := { stored with resumeRequests := stored.resumeRequests.set rid record }
  if stored.createdAt = r.interrupt.createdAt then
    setExternalWaitState recorded .completed (some rid) r.args.actor none
  else recorded

def completeDispatch (st : InterruptState ε) (r : Resume ε) :
    InterruptState ε × Option (Resume ε) :=
  match r.args.resumeRequestId, r.request with
  | some rid, some record =>
    let completed := { record with status := RequestStatus.completed }
    (atomicMutateInterrupt st r.args.interruptId (completeStored r rid completed) none false,
      some (r.withRequest rid completed .completed none))
  | _, _ => (st, none)

theorem markDispatched_copy (h : ClaimedCopy i args r) :
    ClaimedCopy i args (markDispatched r) ∧
      (markDispatched r).interrupt.status = r.interrupt.status ∧
      (markDispatched r).interrupt.resumeClaim = r.interrupt.resumeClaim := by
  unfold markDispatched
  split
  next rid record hrid hrec =>
    have hs : args.resumeRequestId.isSome := by rw [← h.request_isSome, hrec]; rfl
    exact ⟨⟨h.args_eq, h.origin_eq, h.charged, hs.symm⟩, rfl, rfl⟩
  next => exact ⟨h, rfl, rfl⟩

theorem markResumed_copy (h : ClaimedCopy i args r) : ClaimedCopy i args (markResumed r) :=
  ⟨h.args_eq, h.origin_eq, h.charged, h.request_isSome⟩

theorem failStored_spec (r : Resume ε) (rid : String) (record : ResumeRequest) (error : String)
    {stored : Interrupt ε} (h : stored.createdAt = r.interrupt.createdAt) :
    (failStored r rid record error stored).status = .waiting ∧
      (failStored r rid record error stored).resumeClaim = none ∧
      (failStored r rid record error stored).origin = stored.origin ∧
      (failStored r rid record error stored).resumeCount = stored.resumeCount := by
  unfold failStored
  rw [if_pos h]
  exact ⟨rfl, rfl, rfl, rfl⟩

theorem withRequest_copy {rid : String}
    {record record' : ResumeRequest} (h : ClaimedCopy i args r) (hr : r.request = some record)
    (d : DispatchState) (error : Option String) :
    ClaimedCopy i args (r.withRequest rid record' d error) := by
  have hs : args.resumeRequestId.isSome := by rw [← h.request_isSome, hr]; rfl
  exact ⟨h.args_eq, h.origin_eq, h.charged, hs.symm⟩

inductive ResumeDispatch (ε : Type) where
  | subFlow (frameId : String)
  | signal (s : Signal ε)
  | nothing
  | missingSignal
  | missingContinuation

def resumeMeta (r : Resume ε) : Dict String Value :=
  [("interrupt_id", .str r.args.interruptId),
   ("resume_request_id", (r.args.resumeRequestId.map Value.str).getD .none),
   ("actor_id", (r.args.actor.map Value.str).getD .none),
   ("resume", .dict [("interrupt_id", .str r.args.interruptId), ("value", r.args.value)])]

def selfResumeMeta (r : Resume ε) : Dict String Value :=
  (selfResumeCountMetaKey, .int r.interrupt.resumeCount) ::
    match r.interrupt.maxResumes with
    | some m => (selfResumeMaxMetaKey, .int m) :: resumeMeta r
    | none => resumeMeta r

def selfResumeSignal (r : Resume ε) (freshId : String) (source : Signal ε) : Signal ε :=
  { id := freshId
    triggerEvent := source.triggerEvent
    triggerType := source.triggerType
    value := source.value
    layerMarks := source.layerMarks
    source := "interrupt"
    signalMeta := mergeEntries source.signalMeta (selfResumeMeta r) }

def nextResumeSignal (r : Resume ε) (freshId : String) (event : ε) (marks : List String) :
    Signal ε :=
  { id := freshId
    triggerEvent := event
    value := r.args.value
    layerMarks := marks
    source := "interrupt"
    signalMeta := resumeMeta r }

def resumeDispatch (r : Resume ε) (freshId : String) : ResumeDispatch ε :=
  match r.interrupt.subFlowFrameId, r.interrupt.resumeTo with
  | some frameId, _ => .subFlow frameId
  | none, .event e => .signal (nextResumeSignal r freshId e [])
  | none, .self =>
    match r.interrupt.sourceSignal with
    | none => .missingSignal
    | some source => .signal (selfResumeSignal r freshId source)
  | none, .next =>
    match r.interrupt.continuationEvent with
    | none => .missingContinuation
    | some e =>
      .signal (nextResumeSignal r freshId e
        ((r.interrupt.sourceSignal.map Signal.layerMarks).getD []))
  | none, .other =>
    match r.interrupt.resumeEvent with
    | some e => .signal (nextResumeSignal r freshId e [])
    | none => .nothing

inductive ContinuePhase where
  | requestAccepted
  | requestDispatched
  | executionResumed
  | streamPut
  | dispatching
  | requestFailed
  | requestCompleted
  deriving DecidableEq

inductive ContinueOutcome (ε : Type) where
  | ignored
  | returned (interrupt : Interrupt ε)
  | rejected (error : ContinueError)
  | raised
  | completed (resume : Resume ε) (raised : Bool)
  deriving DecidableEq

/-- `entering` is every suspension before the claim: the boundary lock, and the lifecycle,
lease and limit notices of a call that is about to give up. -/
inductive ContinueTask (ε : Type) where
  | entering (args : ContinueArgs)
  | resuming (phase : ContinuePhase) (resume : Resume ε)
  | finished (args : ContinueArgs) (outcome : ContinueOutcome ε)
  deriving DecidableEq

inductive AwaitResult where
  | ok
  | raised (error : String)

def resumeNow (st : InterruptState ε) (r : Resume ε) : InterruptState ε × ContinueTask ε :=
  let r' := markResumed r
  (atomicStoreInterrupt st r.args.interruptId r'.interrupt (some .running),
    .resuming .executionResumed r')

def dispatchRequest (st : InterruptState ε) (r : Resume ε) : InterruptState ε × ContinueTask ε :=
  if r.args.resumeRequestId.isSome ∧ r.request.isSome then
    let r' := markDispatched r
    (atomicStoreInterrupt st r.args.interruptId r'.interrupt (some .waiting),
      .resuming .requestDispatched r')
  else resumeNow st r

def enterContinue (st : InterruptState ε) (args : ContinueArgs) :
    InterruptState ε × ContinueTask ε :=
  if st.lifecycleOpen = false then (st, .finished args .ignored)
  else match claim st.interrupts args with
    | .raised e => (st, .finished args (.rejected e))
    | .returned i => (st, .finished args (.returned i))
    | .claimed r true => (storeClaim st r, .resuming .requestAccepted r)
    | .claimed r false => dispatchRequest (storeClaim st r) r

def finishDispatch (st : InterruptState ε) (r : Resume ε) : InterruptState ε × ContinueTask ε :=
  match completeDispatch st r with
  | (st', some r') => (st', .resuming .requestCompleted r')
  | (st', none) => (refreshWaitingStatus st', .finished r.args (.completed r false))

def abortDispatch (st : InterruptState ε) (r : Resume ε) (error : String) :
    InterruptState ε × ContinueTask ε :=
  match failDispatch st r error with
  | (st', some r') => (st', .resuming .requestFailed r')
  | (st', none) => (st', .finished r.args .raised)

/-- Runs a suspended call to its next suspension, given how its await ends. -/
def advanceContinue (st : InterruptState ε) (t : ContinueTask ε) (o : AwaitResult) :
    InterruptState ε × ContinueTask ε :=
  match t, o with
  | .entering args, .ok => enterContinue st args
  | .entering args, .raised _ => (st, .finished args .raised)
  | .resuming .requestAccepted r, .ok => dispatchRequest st r
  | .resuming .requestDispatched r, .ok => resumeNow st r
  | .resuming .executionResumed r, .ok => (st, .resuming .streamPut r)
  | .resuming .streamPut r, .ok => (st, .resuming .dispatching r)
  | .resuming .dispatching r, .ok => finishDispatch st r
  | .resuming .dispatching r, .raised error => abortDispatch st r error
  | .resuming .requestFailed r, _ => (st, .finished r.args .raised)
  | .resuming .requestCompleted r, .ok =>
    (refreshWaitingStatus st, .finished r.args (.completed r false))
  | .resuming .requestCompleted r, .raised _ => (st, .finished r.args (.completed r true))
  | .resuming _ r, .raised _ => (st, .finished r.args .raised)
  | .finished args outcome, _ => (st, .finished args outcome)

end Agently.TriggerFlow
