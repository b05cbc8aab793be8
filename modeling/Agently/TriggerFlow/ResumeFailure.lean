import Agently.TriggerFlow.ContinueWith
import Mathlib.Data.Fintype.EquivFin

/-! # A `continue_with` that fails, and snapshots taken during one

Source: `TriggerFlow/ExecutionInterrupts.py`, `TriggerFlow/ExecutionPersistence.py`. One call runs
alone; the question is what the stored interrupt looks like when it raises at one of its awaits,
and in a snapshot saved there and loaded elsewhere. -/

namespace Agently.TriggerFlow

open Agently.Lib Agently.Utils

variable {ε : Type}

def runContinue (st : InterruptState ε) (t : ContinueTask ε) :
    List AwaitResult → InterruptState ε × ContinueTask ε
  | [] => (st, t)
  | o :: rest =>
    let next := advanceContinue st t o
    runContinue next.1 next.2 rest

/-- The state a call leaves that raises at its current await; a raising dispatch goes
through its handler, whose own await ends as `last` says. -/
def afterRaise (st : InterruptState ε) (t : ContinueTask ε) (error : String) (last : AwaitResult) :
    InterruptState ε :=
  (runContinue st t [.raised error, last]).1

def serializedRequest (r : ResumeRequest) : ResumeRequest := { r with value := r.value.serializable }

def serializedInterrupt (i : Interrupt ε) : Interrupt ε :=
  { i with
    payload := i.payload.serializable
    sourceSignal := i.sourceSignal.map serializeSignal
    resumeValue := i.resumeValue.serializable
    resumeRequests := i.resumeRequests.map fun p => (p.1, serializedRequest p.2) }

def saveInterrupts (st : InterruptState ε) : InterruptState ε :=
  { st with interrupts := st.interrupts.map fun p => (p.1, serializedInterrupt p.2) }

/-- The interrupt part of `load`: the map, the status and the lifecycle are taken over as
they stand in the snapshot. -/
def loadInterrupts (snapshot : InterruptState ε) : InterruptState ε := snapshot

def reload (st : InterruptState ε) : InterruptState ε := loadInterrupts (saveInterrupts st)

theorem get?_reload (st : InterruptState ε) (interruptId : String) :
    (reload st).interrupts.get? interruptId =
      (st.interrupts.get? interruptId).map serializedInterrupt :=
  Dict.get?_mapVals serializedInterrupt st.interrupts interruptId

def Accepts (st : InterruptState ε) (i : Interrupt ε) (args : ContinueArgs) : Prop :=
  ∃ n r, (runContinue st (.entering args) (List.replicate n .ok)).2 = .resuming .dispatching r ∧
    r.args = args ∧ r.interrupt.serial = i.serial

def Resumable (st : InterruptState ε) (interruptId : String) : Prop :=
  ∃ i, st.interrupts.get? interruptId = some i ∧ i.status = .waiting ∧ i.resumeClaim = none ∧
    ∀ rid value actor, i.resumeRequests.get? rid = none →
      Accepts st i
        { interruptId := interruptId, value := value, resumeRequestId := some rid, actor := actor }

def WithinLimit (i : Interrupt ε) (k : Nat) : Prop :=
  ∀ m, i.resumeTo = .self → i.maxResumes = some m → i.resumeCount + k ≤ m

variable {i : Interrupt ε}

theorem chargedCount_eq_none :
    chargedCount i = none ↔ ¬ WithinLimit i 1 := by
  unfold chargedCount WithinLimit
  cases hr : i.resumeTo <;> cases hm : i.maxResumes <;> simp

theorem exists_chargedCount (h : WithinLimit i 1) :
    ∃ count, chargedCount i = some count ∧
      (i.resumeTo = .self → count = i.resumeCount + 1) := by
  cases hc : chargedCount i with
  | none => exact absurd h (chargedCount_eq_none.mp hc)
  | some count =>
    refine ⟨count, rfl, ?_⟩
    intro hs
    unfold chargedCount at hc
    rw [hs] at hc
    cases hm : i.maxResumes with
    | none => simp [hm] at hc; exact hc.symm
    | some m =>
      simp only [hm] at hc
      split at hc
      · cases hc
      · exact (Option.some.inj hc).symm

def freshClaim (i : Interrupt ε) (args : ContinueArgs) (rid : String) (count : Nat) : Resume ε :=
  acceptRequest
    { i with
      resumeCount := count
      resumeClaim := some { resumeRequestId := args.resumeRequestId, actorId := args.actor } }
    args rid

variable {st : InterruptState ε} {args : ContinueArgs}

theorem enterContinue_fresh {rid : String} {count : Nat} (ho : st.lifecycleOpen = true)
    (hi : st.interrupts.get? args.interruptId = some i) (hw : i.status = .waiting)
    (hc : i.resumeClaim = none) (hr : args.resumeRequestId = some rid)
    (hf : i.resumeRequests.get? rid = none) (hn : chargedCount i = some count) :
    enterContinue st args = (storeClaim st (freshClaim i args rid count),
      .resuming .requestAccepted (freshClaim i args rid count)) := by
  have he : existingRequest i args = none := by simp [existingRequest, hr, hf]
  simp [enterContinue, ho, claim, hi, he, claimUnlessHeld, hc, hw, hn, takeClaim, hr, freshClaim]

theorem accepts_of_fresh {rid : String} {count : Nat} (ho : st.lifecycleOpen = true)
    (hi : st.interrupts.get? args.interruptId = some i) (hw : i.status = .waiting)
    (hc : i.resumeClaim = none) (hr : args.resumeRequestId = some rid)
    (hf : i.resumeRequests.get? rid = none) (hn : chargedCount i = some count) :
    Accepts st i args := by
  refine ⟨5, ?_⟩
  have he := enterContinue_fresh ho hi hw hc hr hf hn
  simp [List.replicate, runContinue, advanceContinue, he, dispatchRequest, freshClaim,
    acceptRequest, hr, markDispatched, Resume.withRequest, resumeNow, markResumed,
    setExternalWaitState]

theorem not_accepts_of_finished
    (outcome : ContinueOutcome ε) (he : enterContinue st args = (st, .finished args outcome)) :
    ¬ Accepts st i args := by
  rintro ⟨n, r, hrun, -⟩
  have hstay : ∀ m, runContinue st (.finished args outcome) (List.replicate m .ok)
      = (st, .finished args outcome) := by
    intro m
    induction m with
    | zero => rfl
    | succ m ih => exact ih
  cases n with
  | zero => cases hrun
  | succ n =>
    have hn : runContinue st (.entering args) (List.replicate (n + 1) .ok) =
        runContinue st (.finished args outcome) (List.replicate n .ok) := by
      simp only [List.replicate_succ, runContinue, advanceContinue, he]
    rw [hn, hstay n] at hrun
    cases hrun

theorem exists_fresh (requests : Dict String ResumeRequest) :
    ∃ rid, requests.get? rid = none := by
  obtain ⟨rid, hrid⟩ := Infinite.exists_notMem_finset requests.keys.toFinset
  exact ⟨rid, Dict.get?_eq_none_iff.mpr (by simpa using hrid)⟩

variable {interruptId : String}

theorem resumable_iff (hi : st.interrupts.get? interruptId = some i) :
    Resumable st interruptId ↔
      st.lifecycleOpen = true ∧ i.status = .waiting ∧ i.resumeClaim = none ∧ WithinLimit i 1 := by
  constructor
  · rintro ⟨j, hj, hw, hc, ha⟩
    have hij : j = i := Option.some.inj (hj.symm.trans hi)
    subst hij
    obtain ⟨rid, hfresh⟩ := exists_fresh j.resumeRequests
    have hacc := ha rid .none none hfresh
    have hex : ∀ v a, existingRequest j ⟨interruptId, v, some rid, a⟩ = none := by
      intro v a
      simpa [existingRequest] using hfresh
    refine ⟨?_, hw, hc, ?_⟩
    · by_contra ho
      exact not_accepts_of_finished .ignored (by simp [enterContinue, ho]) hacc
    · by_contra hl
      have hn := chargedCount_eq_none.mpr hl
      by_cases ho : st.lifecycleOpen = true
      · exact not_accepts_of_finished (.rejected .selfResumeLimit)
          (by simp [enterContinue, ho, claim, hj, hex, claimUnlessHeld, hc, hw, hn]) hacc
      · exact not_accepts_of_finished .ignored (by simp [enterContinue, ho]) hacc
  · rintro ⟨ho, hw, hc, hl⟩
    obtain ⟨count, hcount, -⟩ := exists_chargedCount hl
    exact ⟨i, hi, hw, hc, fun rid value actor hf =>
      accepts_of_fresh ho hi hw hc rfl hf hcount⟩

/-- The stored interrupt while the call is in `phase`. -/
def StoredAs (i : Interrupt ε) (args : ContinueArgs) (st : InterruptState ε)
    (phase : ContinuePhase) (r : Resume ε) : Prop :=
  match phase with
  | .requestAccepted | .requestDispatched =>
    st.interrupts.get? args.interruptId = some r.interrupt ∧
      r.interrupt.status = .waiting ∧ r.interrupt.resumeClaim.isSome
  | .executionResumed | .streamPut | .dispatching =>
    st.interrupts.get? args.interruptId = some r.interrupt ∧ r.interrupt.status = .resumed
  | .requestFailed =>
    args.resumeRequestId.isSome ∧
      ∃ j, st.interrupts.get? args.interruptId = some j ∧ j.status = .waiting ∧
        j.resumeClaim = none ∧ j.origin = i.origin ∧ chargedCount i = some j.resumeCount
  | .requestCompleted => True

/-- What holds whenever the lone call on `i`, started in `st`, is suspended. -/
def Suspended (st : InterruptState ε) (i : Interrupt ε) (args : ContinueArgs)
    (st' : InterruptState ε) : ContinueTask ε → Prop
  | .entering a => st' = st ∧ a = args
  | .resuming phase r =>
    st'.lifecycleOpen = true ∧ i.resumeClaim = none ∧
      ClaimedCopy i args r ∧ StoredAs i args st' phase r
  | .finished _ _ => True

variable {st₀ : InterruptState ε} {r : Resume ε}

theorem resumeNow_suspended (ho : st.lifecycleOpen = true) (hu : i.resumeClaim = none)
    (hcopy : ClaimedCopy i args r) :
    Suspended st₀ i args (resumeNow st r).1 (resumeNow st r).2 := by
  refine ⟨ho, hu, markResumed_copy hcopy, ?_, rfl⟩
  rw [← hcopy.args_eq]
  exact get?_atomicStore st _ _ _

theorem dispatchRequest_suspended (ho : st.lifecycleOpen = true) (hu : i.resumeClaim = none)
    (hcopy : ClaimedCopy i args r) (hw : r.interrupt.status = .waiting)
    (hc : r.interrupt.resumeClaim.isSome) :
    Suspended st₀ i args (dispatchRequest st r).1 (dispatchRequest st r).2 := by
  unfold dispatchRequest
  split
  · obtain ⟨hcopy', hstatus, hclaim⟩ := markDispatched_copy hcopy
    refine ⟨ho, hu, hcopy', ?_, hstatus.trans hw, by rw [hclaim]; exact hc⟩
    rw [← hcopy.args_eq]
    exact get?_atomicStore st _ _ _
  · exact resumeNow_suspended ho hu hcopy

theorem enterContinue_suspended (hi : st.interrupts.get? args.interruptId = some i) :
    Suspended st i args (enterContinue st args).1 (enterContinue st args).2 := by
  unfold enterContinue
  split
  · trivial
  next ho =>
    have ho' : st.lifecycleOpen = true := by simpa using ho
    split
    · trivial
    · trivial
    next r hclaim =>
      obtain ⟨j, hj, -, hu, hcopy, hw, hc, -⟩ := claim_spec hclaim
      have hij : j = i := Option.some.inj (hj.symm.trans hi)
      subst hij
      refine ⟨ho', hu, hcopy, ?_, hw, hc⟩
      rw [← hcopy.args_eq]
      exact get?_atomicStore st _ _ _
    next r hclaim =>
      obtain ⟨j, hj, -, hu, hcopy, hw, hc, -⟩ := claim_spec hclaim
      have hij : j = i := Option.some.inj (hj.symm.trans hi)
      subst hij
      exact dispatchRequest_suspended ho' hu hcopy hw hc

theorem abortDispatch_suspended (error : String) (ho : st.lifecycleOpen = true)
    (hu : i.resumeClaim = none) (hcopy : ClaimedCopy i args r)
    (hs : st.interrupts.get? args.interruptId = some r.interrupt) :
    Suspended st₀ i args (abortDispatch st r error).1 (abortDispatch st r error).2 := by
  have hs' : st.interrupts.get? r.args.interruptId = some r.interrupt := by rw [hcopy.args_eq]; exact hs
  unfold abortDispatch failDispatch
  split
  next st' r' heq =>
    split at heq
    next rid record hrid hrec =>
      cases heq
      obtain ⟨hw, hc, horigin, hcount⟩ :=
        failStored_spec r rid { record with status := .dispatchFailed, error := some error } error rfl
      have hrequest : args.resumeRequestId.isSome := by rw [← hcopy.args_eq, hrid]; rfl
      refine ⟨(atomicMutate_lifecycle ..).trans ho, hu,
        ⟨hcopy.args_eq, hcopy.origin_eq, hcopy.charged, hrequest.symm⟩, hrequest, ?_⟩
      · refine ⟨_, ?_, hw, hc, horigin.trans hcopy.origin_eq, ?_⟩
        · rw [atomicMutate_eq hs', ← hcopy.args_eq]
          exact Dict.get?_set_self _ _ _
        · rw [hcount]
          exact hcopy.charged
    next => cases heq
  next => trivial

theorem finishDispatch_suspended (ho : st.lifecycleOpen = true)
    (hu : i.resumeClaim = none) (hcopy : ClaimedCopy i args r) :
    Suspended st₀ i args (finishDispatch st r).1 (finishDispatch st r).2 := by
  unfold finishDispatch completeDispatch
  split
  next st' r' heq =>
    split at heq
    next rid record hrid hrec =>
      cases heq
      exact ⟨(atomicMutate_lifecycle ..).trans ho, hu, withRequest_copy hcopy hrec _ _, trivial⟩
    next => cases heq
  next => trivial

theorem advanceContinue_suspended {st' : InterruptState ε} {t : ContinueTask ε} (o : AwaitResult)
    (hi : st.interrupts.get? args.interruptId = some i) (h : Suspended st i args st' t) :
    Suspended st i args (advanceContinue st' t o).1 (advanceContinue st' t o).2 := by
  cases t with
  | finished a outcome => cases o <;> trivial
  | entering a =>
    obtain ⟨rfl, rfl⟩ := h
    cases o with
    | ok => exact enterContinue_suspended hi
    | raised error => trivial
  | resuming phase r =>
    obtain ⟨ho, hu, hcopy, hstored⟩ := h
    cases o with
    | raised error =>
      cases phase with
      | dispatching => exact abortDispatch_suspended error ho hu hcopy hstored.1
      | _ => trivial
    | ok =>
      cases phase with
      | requestAccepted =>
        exact dispatchRequest_suspended ho hu hcopy hstored.2.1 hstored.2.2
      | requestDispatched => exact resumeNow_suspended ho hu hcopy
      | executionResumed => exact ⟨ho, hu, hcopy, hstored⟩
      | streamPut => exact ⟨ho, hu, hcopy, hstored⟩
      | dispatching => exact finishDispatch_suspended ho hu hcopy
      | requestFailed => trivial
      | requestCompleted => trivial

theorem runContinue_suspended {st' : InterruptState ε} {t : ContinueTask ε} (os : List AwaitResult)
    (hi : st.interrupts.get? args.interruptId = some i) (h : Suspended st i args st' t) :
    Suspended st i args (runContinue st' t os).1 (runContinue st' t os).2 := by
  induction os generalizing st' t with
  | nil => exact h
  | cons o os ih => exact ih (advanceContinue_suspended o hi h)

inductive AwaitPoint where
  | beforeClaim
  | phase (p : ContinuePhase)
  deriving DecidableEq

def suspendedAt : ContinueTask ε → Option AwaitPoint
  | .entering _ => some .beforeClaim
  | .resuming p _ => some (.phase p)
  | .finished _ _ => none

/-- What the callers of a failing `continue_with` rely on: at every await before the
dispatch completed, a raise and a reloaded snapshot both leave the interrupt resumable. -/
def FailureLeavesResumable (st : InterruptState ε) (args : ContinueArgs) : Prop :=
  ∀ os st' t p, runContinue st (.entering args) os = (st', t) → suspendedAt t = some p →
    p ≠ .phase .requestCompleted →
      (∀ error last, Resumable (afterRaise st' t error last) args.interruptId) ∧
        Resumable (reload st') args.interruptId

def NotYetClaimed (st : InterruptState ε) (i : Interrupt ε) : Prop :=
  st.lifecycleOpen = true ∧ i.resumeClaim = none ∧ WithinLimit i 1

/-- A raise at `p` leaves the interrupt resumable: nothing is claimed yet, or the
dispatch raised in a call with a request id and the limit admits a second resume. -/
def RaiseKeepsResumable (st : InterruptState ε) (i : Interrupt ε) (args : ContinueArgs) :
    AwaitPoint → Prop
  | .beforeClaim => NotYetClaimed st i
  | .phase .dispatching | .phase .requestFailed =>
    args.resumeRequestId.isSome ∧ WithinLimit i 2
  | .phase _ => False

/-- A snapshot saved at `p` holds a resumable interrupt: nothing is claimed, or the raising dispatch
is compensated and the limit admits a second resume. -/
def SnapshotKeepsResumable (st : InterruptState ε) (i : Interrupt ε) : AwaitPoint → Prop
  | .beforeClaim => NotYetClaimed st i
  | .phase .requestFailed => WithinLimit i 2
  | .phase _ => False

theorem withinLimit_charged {j : Interrupt ε} (ho : j.origin = i.origin)
    (hc : chargedCount i = some j.resumeCount) : WithinLimit j 1 ↔ WithinLimit i 2 := by
  have hto : j.resumeTo = i.resumeTo := congrArg (fun k => k.resumeTo) ho
  have hmax : j.maxResumes = i.maxResumes := congrArg (fun k => k.maxResumes) ho
  have hl : WithinLimit i 1 := by
    by_contra h
    rw [chargedCount_eq_none.mpr h] at hc
    cases hc
  obtain ⟨count, hcount, hself⟩ := exists_chargedCount hl
  have hj : j.resumeCount = count := Option.some.inj (hc.symm.trans hcount)
  unfold WithinLimit
  rw [hto, hmax, hj]
  constructor
  · intro h m hs hm
    have h1 := h m hs hm
    have h2 := hself hs
    omega
  · intro h m hs hm
    have h1 := h m hs hm
    have h2 := hself hs
    omega

theorem not_resumable_of_resumed
    (hi : st.interrupts.get? interruptId = some i) (h : i.status = .resumed) :
    ¬ Resumable st interruptId := by
  rw [resumable_iff hi, h]
  rintro ⟨-, hw, -⟩
  cases hw

theorem not_resumable_of_claimed
    (hi : st.interrupts.get? interruptId = some i) (h : i.resumeClaim.isSome) :
    ¬ Resumable st interruptId := by
  rw [resumable_iff hi]
  rintro ⟨-, -, hc, -⟩
  rw [hc] at h
  cases h

theorem resumable_reload_iff (hi : st.interrupts.get? interruptId = some i) :
    Resumable (reload st) interruptId ↔ Resumable st interruptId := by
  have hr : (reload st).interrupts.get? interruptId = some (serializedInterrupt i) := by
    rw [get?_reload, hi]
    rfl
  rw [resumable_iff hr, resumable_iff hi]
  rfl

theorem requestFailed_resumable_iff (h : Suspended st₀ i args st (.resuming .requestFailed r)) :
    (Resumable st args.interruptId ↔ WithinLimit i 2) ∧
      (Resumable (reload st) args.interruptId ↔ WithinLimit i 2) := by
  obtain ⟨ho, -, -, -, j, hj, hw, hc, horigin, hcount⟩ := h
  have hst : Resumable st args.interruptId ↔ WithinLimit i 2 := by
    rw [resumable_iff hj, withinLimit_charged horigin hcount]
    simp [ho, hw, hc]
  exact ⟨hst, (resumable_reload_iff hj).trans hst⟩

theorem dispatching_raise_resumable_iff (hi : st₀.interrupts.get? args.interruptId = some i)
    (h : Suspended st₀ i args st (.resuming .dispatching r)) (error : String)
    (last : AwaitResult) :
    Resumable (afterRaise st (.resuming .dispatching r) error last) args.interruptId ↔
      args.resumeRequestId.isSome ∧ WithinLimit i 2 := by
  have hnext := advanceContinue_suspended (.raised error) hi h
  obtain ⟨-, -, hcopy, hstored, hresumed⟩ := h
  have hargs := hcopy.args_eq
  have hrun : afterRaise st (.resuming .dispatching r) error last =
      (abortDispatch st r error).1 := by
    unfold afterRaise abortDispatch failDispatch
    cases hrid : r.args.resumeRequestId <;> cases hreq : r.request <;> cases last <;>
      simp [runContinue, advanceContinue, abortDispatch, failDispatch, hrid, hreq]
  rw [hrun]
  change Suspended st₀ i args (abortDispatch st r error).1 (abortDispatch st r error).2 at hnext
  cases hrid : args.resumeRequestId with
  | none =>
    have hsame : (abortDispatch st r error).1 = st := by
      simp [abortDispatch, failDispatch, hargs, hrid]
    rw [hsame]
    simpa using not_resumable_of_resumed hstored hresumed
  | some rid =>
    have hsome : r.request.isSome := by rw [hcopy.request_isSome, hrid]; rfl
    obtain ⟨record, hrec⟩ := Option.isSome_iff_exists.mp hsome
    obtain ⟨r', hphase⟩ : ∃ r', (abortDispatch st r error).2 = .resuming .requestFailed r' :=
      ⟨_, by simp [abortDispatch, failDispatch, hargs, hrid, hrec]; rfl⟩
    rw [hphase] at hnext
    simpa using (requestFailed_resumable_iff hnext).1

/-- For a waiting interrupt and a lone call on it: at each await before the dispatch
completed, exactly which raises and which snapshots leave the interrupt resumable. -/
theorem continue_failure_resumable_iff {st st' : InterruptState ε} {i : Interrupt ε}
    {args : ContinueArgs} {os : List AwaitResult} {t : ContinueTask ε} {p : AwaitPoint}
    (hi : st.interrupts.get? args.interruptId = some i) (hw : i.status = .waiting)
    (hrun : runContinue st (.entering args) os = (st', t)) (hp : suspendedAt t = some p)
    (hc : p ≠ .phase .requestCompleted) (error : String) (last : AwaitResult) :
    (Resumable (afterRaise st' t error last) args.interruptId ↔ RaiseKeepsResumable st i args p) ∧
      (Resumable (reload st') args.interruptId ↔ SnapshotKeepsResumable st i p) := by
  have hs : Suspended st i args st' t := by
    have h0 : Suspended st i args st (.entering args) := ⟨rfl, rfl⟩
    have h := runContinue_suspended os hi h0
    rwa [hrun] at h
  cases t with
  | finished a outcome => cases hp
  | entering a =>
    cases hp
    obtain ⟨rfl, rfl⟩ := hs
    have hst : Resumable st' a.interruptId ↔ NotYetClaimed st' i := by
      rw [resumable_iff hi]
      simp [NotYetClaimed, hw]
    refine ⟨?_, (resumable_reload_iff hi).trans hst⟩
    have hrun' : afterRaise st' (.entering a) error last = st' := by
      cases last <;> rfl
    rw [hrun']
    exact hst
  | resuming phase r =>
    cases hp
    cases phase with
    | requestAccepted | requestDispatched =>
      obtain ⟨-, -, -, hstored, -, hclaim⟩ := hs
      have hst := not_resumable_of_claimed hstored hclaim
      refine ⟨?_, ?_⟩
      · cases last <;> simpa [RaiseKeepsResumable, afterRaise, runContinue, advanceContinue]
          using hst
      · rw [resumable_reload_iff hstored]
        simpa [SnapshotKeepsResumable] using hst
    | executionResumed | streamPut =>
      obtain ⟨-, -, -, hstored, hresumed⟩ := hs
      have hst := not_resumable_of_resumed hstored hresumed
      refine ⟨?_, ?_⟩
      · cases last <;> simpa [RaiseKeepsResumable, afterRaise, runContinue, advanceContinue]
          using hst
      · rw [resumable_reload_iff hstored]
        simpa [SnapshotKeepsResumable] using hst
    | dispatching =>
      refine ⟨dispatching_raise_resumable_iff hi hs error last, ?_⟩
      obtain ⟨-, -, -, hstored, hresumed⟩ := hs
      rw [resumable_reload_iff hstored]
      simpa [SnapshotKeepsResumable] using not_resumable_of_resumed hstored hresumed
    | requestFailed =>
      obtain ⟨hraise, hsnap⟩ := requestFailed_resumable_iff hs
      refine ⟨?_, hsnap⟩
      have hrun' : afterRaise st' (.resuming .requestFailed r) error last = st' := by
        cases last <;> rfl
      have hrid : args.resumeRequestId.isSome := hs.2.2.2.1
      rw [hrun', hraise]
      simp [RaiseKeepsResumable, hrid]
    | requestCompleted => exact absurd rfl hc

/-- An execution that waits for one interrupt: a handler of `Start` paused with
`resume_to='self'` and the default limit of one resume. -/
def approvalState : InterruptState String :=
  { interrupts := [("approve",
      { id := "approve"
        resumeTo := .self
        sourceSignal := some { id := "s0", triggerEvent := "Start", value := .str "order" }
        maxResumes := some 1
        createdAt := 1
        externalWaitRequest := { requestId := "approve", dispatchState := .exposed }
        serial := 0 })]
    status := .waiting
    lifecycleOpen := true }

def approvalCall : ContinueArgs := { interruptId := "approve", value := .bool true }

theorem failure_leaves_approval_unresumable :
    ¬ FailureLeavesResumable approvalState approvalCall := by
  intro h
  have hraise := (h [.ok, .ok, .ok] _ _ (.phase .dispatching) rfl rfl (by decide)).1 "boom" .ok
  obtain ⟨i, hi, hw, -⟩ := hraise
  cases hi
  cases hw

theorem approval_failure_resumable_iff :
    (Resumable (afterRaise (runContinue approvalState (.entering approvalCall) [.ok]).1
        (runContinue approvalState (.entering approvalCall) [.ok]).2 "boom" .ok) "approve" ↔
      RaiseKeepsResumable approvalState (approvalState.interrupts.head (by decide)).2 approvalCall
        (.phase .executionResumed)) ∧
      (Resumable (reload (runContinue approvalState (.entering approvalCall) [.ok]).1) "approve" ↔
        SnapshotKeepsResumable approvalState (approvalState.interrupts.head (by decide)).2
          (.phase .executionResumed)) :=
  @continue_failure_resumable_iff String approvalState _ _ approvalCall [.ok] _ _ rfl rfl rfl rfl
    (by decide) "boom" .ok

end Agently.TriggerFlow
