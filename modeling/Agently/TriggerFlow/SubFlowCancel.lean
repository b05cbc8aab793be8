import Agently.TriggerFlow.SubFlowControl

/-! # Cancelling a sub-flow frame

The completion, the failure and the cancellation of a frame look at the stored status before
they write; a resume and the end of a projection do not. As long as those two find the frame
neither being cancelled nor completed, a cancellation is final. -/

namespace Agently.TriggerFlow.SubFlow

open Agently.Lib Agently.Utils

variable {ε γ : Type}

def ControlFrame.isSettled (frame : ControlFrame γ) : Bool :=
  frame.status.isCancelling || frame.result.isSome

inductive FrameWrite (p q : ControlParent ε γ) : Prop where
  | kept (hf : q.frame = p.frame) (hw : q.writtenBack = p.writtenBack)
  | failed (hp : p.frame.status.isCancelling = false) (hs : q.frame.status = .failed)
      (hr : q.frame.result = p.frame.result) (hw : q.writtenBack = p.writtenBack)
  | cancelled (hp : p.frame.status ≠ .completed ∧ p.frame.status ≠ .failed)
      (hs : q.frame.status = .cancelled) (hr : q.frame.result = p.frame.result)
      (hw : q.writtenBack = p.writtenBack)
  | requested (hp : p.frame.status = .running ∨ p.frame.status = .waiting)
      (hs : q.frame.status = .cancelRequested) (hr : q.frame.result = p.frame.result)
      (hw : q.writtenBack = p.writtenBack)
  | completed (hp : p.frame.isSettled = false) (hs : q.frame.status = .completed)
      (hr : ∃ result, q.frame.result = some result)
  | revived (hp : p.frame.isSettled = false) (hr : q.frame.result = none)
      (hw : q.writtenBack = p.writtenBack)

def ControlPhase.endsProjection : ControlPhase ε → Bool
  | .projecting projection => projection.todo.isEmpty
  | _ => false

def ControlPhase.isClosing : ControlPhase ε → Bool
  | .closing => true
  | _ => false

/-- A resume and the end of a projection find the frame neither being cancelled nor
completed, and a completion finds it without a result. -/
def GuardedWrite (p : ControlParent ε γ) : ControlAction γ → Prop
  | .resume rootInterruptId =>
    (p.frame.projectedInterrupts.get? rootInterruptId).isSome = true → p.frame.isSettled = false
  | .advance index .ok =>
    ∀ t ∈ p.controls[index]?, t.phase.endsProjection = true → p.frame.isSettled = false
  | .advance index (.closed _ _) =>
    ∀ t ∈ p.controls[index]?, t.phase.isClosing = true → p.frame.result.isNone = true
  | _ => True

instance (p : ControlParent ε γ) (a : ControlAction γ) : Decidable (GuardedWrite p a) := by
  unfold GuardedWrite
  split <;> infer_instance

structure ControlWrite (p q : ControlParent ε γ) (index : Nat) : Prop where
  write : FrameWrite p q
  cancels : q.cancels = p.cancels
  controls : ∃ t, q.controls = p.controls.set index t ∧ t.frame.result = none

theorem withChild_frame (t : ControlTask ε γ) (o : ControlOutcome γ) :
    (t.withChild o).frame = t.frame := by
  cases o <;> rfl

section Task

variable {p : ControlParent ε γ} {index : Nat} {t : ControlTask ε γ} (ht : t.frame.result = none)

include ht

theorem handle_write (isCancelled : Bool) (error : String) :
    ControlWrite p (p.handle index t isCancelled error) index := by
  unfold ControlParent.handle
  split
  · exact ⟨.kept rfl rfl, rfl, _, rfl, ht⟩
  next hno =>
    have hp : p.frame.status.isCancelling = false := by
      cases hc : p.frame.status.isCancelling with
      | false => rfl
      | true => simp [hc] at hno
    exact ⟨.failed hp rfl rfl rfl, rfl, _, rfl, ht⟩

theorem finalizeCancelledFrame_write (reason : String) (inTry : Bool) :
    ControlWrite p (p.finalizeCancelledFrame index t reason inTry) index := by
  unfold ControlParent.finalizeCancelledFrame
  split
  · exact ⟨.kept rfl rfl, rfl, _, rfl, ht⟩
  next hdone =>
    have hp := not_or.mp hdone
    dsimp only
    split
    · exact ⟨.cancelled hp rfl rfl rfl, rfl, _, rfl, ht⟩
    · exact ⟨.cancelled hp rfl rfl rfl, rfl, _, rfl, ht⟩

theorem completeFrame_write (hguard : p.frame.result = none) (result : Value) :
    ControlWrite p (p.completeFrame index t result) index := by
  unfold ControlParent.completeFrame
  split
  · exact ⟨.kept rfl rfl, rfl, _, rfl, ht⟩
  next hno =>
    have hp : p.frame.isSettled = false := by
      unfold ControlFrame.isSettled
      rw [hguard]
      simpa using hno
    exact ⟨.completed hp rfl ⟨result, rfl⟩, rfl, _, rfl, ht⟩

theorem storeProjection_write (hguard : p.frame.isSettled = false) (projection : Projection ε) :
    ControlWrite p (p.storeProjection index t projection) index :=
  ⟨.revived hguard ht rfl, rfl, _, rfl, ht⟩

theorem childReturned_write (flow : ChildFlow ε γ) :
    ControlWrite p (p.childReturned flow index t) index := by
  unfold ControlParent.childReturned
  split
  · exact ⟨.kept rfl rfl, rfl, _, rfl, ht⟩
  · exact ⟨.kept rfl rfl, rfl, _, rfl, ht⟩

theorem abortControl_write {q : ControlParent ε γ} {isCancelled : Bool} {error : String}
    (h : abortControl p index t isCancelled error = some q) : ControlWrite p q index := by
  unfold abortControl at h
  split at h
  · cases h
  · cases h
    exact ⟨.kept rfl rfl, rfl, _, rfl, ht⟩
  · cases h
    exact finalizeCancelledFrame_write ht _ _
  · cases h
    split
    · exact handle_write ht isCancelled error
    · exact ⟨.kept rfl rfl, rfl, _, rfl, ht⟩

end Task

variable {p q : ControlParent ε γ}

theorem advanceControl_write {flow : ChildFlow ε γ} {index : Nat}
    {t : ControlTask ε γ} {o : ControlOutcome γ} (ht : t.frame.result = none)
    (hx : p.controls[index]? = some t) (hguard : GuardedWrite p (.advance index o))
    (h : advanceControl flow p index t o = some q) : ControlWrite p q index := by
  have htc : (t.withChild o).frame.result = none := by
    rw [withChild_frame]
    exact ht
  unfold advanceControl at h
  split at h
  · exact abortControl_write htc h
  · exact abortControl_write htc h
  · cases h
    exact ⟨.kept rfl rfl, rfl, _, rfl, ht⟩
  · cases h
    exact childReturned_write htc flow
  next hphase =>
    cases h
    refine storeProjection_write ht (hguard t hx ?_) _
    rw [hphase]
    rfl
  · cases h
    exact ⟨.kept rfl rfl, rfl, _, rfl, ht⟩
  next hphase =>
    cases h
    refine completeFrame_write htc (Option.isNone_iff_eq_none.mp (hguard t hx ?_)) _
    rw [hphase]
    rfl
  · cases h
    exact ⟨.kept rfl rfl, rfl, _, rfl, ht⟩
  · cases h
    exact ⟨.kept rfl rfl, rfl, _, rfl, ht⟩
  · cases h
    exact finalizeCancelledFrame_write htc _ _
  · cases h
    exact ⟨.kept rfl rfl, rfl, _, rfl, ht⟩
  · cases h
    exact ⟨.kept rfl rfl, rfl, _, rfl, ht⟩
  · cases h
    exact ⟨.kept rfl rfl, rfl, _, rfl, ht⟩
  · cases h

theorem FrameWrite.cancelling (h : FrameWrite p q)
    (hp : p.frame.status.isCancelling = true) : q.frame.status.isCancelling = true := by
  cases h with
  | kept hf hw => rw [hf, hp]
  | failed hno hs hr hw =>
    rw [hp] at hno
    cases hno
  | cancelled hno hs hr hw => rw [hs]; rfl
  | requested hr hs hres hw => rw [hs]; rfl
  | completed hno hs hr => simp [ControlFrame.isSettled, hp] at hno
  | revived hno hr hw => simp [ControlFrame.isSettled, hp] at hno

theorem FrameWrite.stays_cancelled (h : FrameWrite p q)
    (hp : p.frame.status = .cancelled) : q.frame.status = .cancelled := by
  cases h with
  | kept hf hw => rw [hf, hp]
  | failed hno hs hr hw =>
    rw [hp] at hno
    cases hno
  | cancelled hno hs hr hw => exact hs
  | requested hno hs hr hw =>
    rw [hp] at hno
    rcases hno with hno | hno <;> cases hno
  | completed hno hs hr => simp [ControlFrame.isSettled, hp, FrameStatus.isCancelling] at hno
  | revived hno hr hw => simp [ControlFrame.isSettled, hp, FrameStatus.isCancelling] at hno

def ResultDone (frame : ControlFrame γ) : Prop :=
  frame.result.isSome = true → frame.status = .completed ∨ frame.status = .failed

theorem FrameWrite.resultDone (h : FrameWrite p q)
    (hp : ResultDone p.frame) : ResultDone q.frame := by
  intro hres
  cases h with
  | kept hf hw =>
    rw [hf] at hres ⊢
    exact hp hres
  | failed hno hs hr hw => exact .inr hs
  | cancelled hno hs hr hw =>
    rw [hr] at hres
    exact absurd (hp hres) (not_or.mpr hno)
  | requested hno hs hr hw =>
    rw [hr] at hres
    rcases hp hres with hdone | hdone <;> rw [hdone] at hno <;> rcases hno with hno | hno <;>
      cases hno
  | completed hno hs hr => exact .inl hs
  | revived hno hr hw =>
    rw [hr] at hres
    cases hres

theorem FrameWrite.keeps_result (h : FrameWrite p q)
    (hdone : ResultDone p.frame) {v : Value} (hv : p.frame.result = some v) :
    q.frame.result = some v ∧ q.writtenBack = p.writtenBack := by
  have hsome : p.frame.result.isSome = true := by rw [hv]; rfl
  cases h with
  | kept hf hw => exact ⟨by rw [hf, hv], hw⟩
  | failed hno hs hr hw => exact ⟨hr.trans hv, hw⟩
  | cancelled hno hs hr hw => exact ⟨hr.trans hv, hw⟩
  | requested hno hs hr hw => exact ⟨hr.trans hv, hw⟩
  | completed hno hs hr => simp [ControlFrame.isSettled, hsome] at hno
  | revived hno hr hw => simp [ControlFrame.isSettled, hsome] at hno

def CancelPhase.hasRequested : CancelPhase → Bool
  | .returned result => result
  | _ => true

def CancelPhase.hasFinalized : CancelPhase → Bool
  | .cancelledNotice => true
  | .returned result => result
  | _ => false

structure CancelInvariant (p : ControlParent ε γ) : Prop where
  tasks : ∀ t ∈ p.controls, t.frame.result = none
  done : ResultDone p.frame
  requested : ∀ c ∈ p.cancels, c.phase.hasRequested = true → p.frame.status.isCancelling = true
  finalized : ∀ c ∈ p.cancels, c.phase.hasFinalized = true → p.frame.status = .cancelled

theorem cancelInvariant_active (frameId : String) (child : γ) (state : InterruptState ε) :
    CancelInvariant (ControlParent.active frameId child state) where
  tasks := by
    intro t ht
    rw [List.mem_singleton.mp ht]
  done := by intro hres; cases hres
  requested := List.forall_mem_nil _
  finalized := List.forall_mem_nil _

theorem CancelInvariant.write (h : CancelInvariant p)
    (hw : FrameWrite p q) (hcancels : q.cancels = p.cancels)
    (htasks : ∀ t ∈ q.controls, t.frame.result = none) : CancelInvariant q ∧ FrameWrite p q := by
  refine ⟨⟨htasks, hw.resultDone h.done, ?_, ?_⟩, hw⟩
  · intro c hc hreq
    rw [hcancels] at hc
    exact hw.cancelling (h.requested c hc hreq)
  · intro c hc hfin
    rw [hcancels] at hc
    exact hw.stays_cancelled (h.finalized c hc hfin)

theorem cancelInvariant_resume (h : CancelInvariant p) {root : String}
    (hguard : GuardedWrite p (.resume root)) :
    CancelInvariant (p.resumeFrame root) ∧ FrameWrite p (p.resumeFrame root) := by
  unfold ControlParent.resumeFrame
  split
  · exact ⟨h, .kept rfl rfl⟩
  next hmapped =>
    have hopen : p.frame.isSettled = false := hguard (by rw [hmapped]; rfl)
    have hnone : p.frame.result = none := by
      cases hres : p.frame.result with
      | none => rfl
      | some v => simp [ControlFrame.isSettled, hres] at hopen
    refine h.write (.revived hopen hnone rfl) rfl ?_
    intro t ht
    rcases List.mem_append.mp ht with ht | ht
    · exact h.tasks t ht
    · rw [List.mem_singleton.mp ht]
      exact hnone

theorem cancelInvariant_request (h : CancelInvariant p) (reason : String) :
    CancelInvariant (p.requestCancel reason) ∧ FrameWrite p (p.requestCancel reason) := by
  unfold ControlParent.requestCancel
  split
  next hopen =>
    have hw : FrameWrite p { p with
        frame := { p.frame with status := .cancelRequested, cancelReason := some reason }
        cancels := p.cancels ++ [{ control := p.live, reason := reason, phase := .requested }] } :=
      .requested hopen rfl rfl rfl
    refine ⟨⟨h.tasks, hw.resultDone h.done, fun _ _ _ => rfl, ?_⟩, hw⟩
    intro c hc hfin
    rcases List.mem_append.mp hc with hc | hc
    · have hcancelled := h.finalized c hc hfin
      rw [hcancelled] at hopen
      rcases hopen with hopen | hopen <;> cases hopen
    · rw [List.mem_singleton.mp hc] at hfin
      cases hfin
  next =>
    refine ⟨⟨h.tasks, h.done, ?_, ?_⟩, .kept rfl rfl⟩
    · intro c hc hreq
      rcases List.mem_append.mp hc with hc | hc
      · exact h.requested c hc hreq
      · rw [List.mem_singleton.mp hc] at hreq
        cases hreq
    · intro c hc hfin
      rcases List.mem_append.mp hc with hc | hc
      · exact h.finalized c hc hfin
      · rw [List.mem_singleton.mp hc] at hfin
        cases hfin

variable {c : CancelCall}

theorem CancelInvariant.move (h : CancelInvariant p) {index : Nat}
    (hc : c ∈ p.cancels) (hreq : c.phase.hasRequested = true)
    {next : CancelPhase} (hq : q.cancels = p.cancels.set index { c with phase := next })
    (hcontrols : q.controls = p.controls) (hw : FrameWrite p q)
    (hfin : next.hasFinalized = true → q.frame.status = .cancelled) :
    CancelInvariant q ∧ FrameWrite p q := by
  have hcancelling := hw.cancelling (h.requested c hc hreq)
  have htasks : ∀ t ∈ q.controls, t.frame.result = none := by
    rw [hcontrols]
    exact h.tasks
  refine ⟨⟨htasks, hw.resultDone h.done, fun _ _ _ => hcancelling, ?_⟩, hw⟩
  intro c' hc' hfin'
  rw [hq] at hc'
  rcases List.mem_or_eq_of_mem_set hc' with hc' | rfl
  · exact hw.stays_cancelled (h.finalized c' hc' hfin')
  · exact hfin hfin'

theorem cancelInvariant_advanceCancel (h : CancelInvariant p)
    {index : Nat} {o : AwaitResult} (hc : c ∈ p.cancels)
    (hq : advanceCancel p index c o = some q) : CancelInvariant q ∧ FrameWrite p q := by
  unfold advanceCancel at hq
  split at hq
  · cases hq
  · cases hq
  next hreturned hraised =>
    cases hq
    refine h.move hc ?_ rfl rfl (.kept rfl rfl) nofun
    cases hphase : c.phase with
    | returned result => exact absurd hphase (hreturned result)
    | _ => rfl
  next hphase =>
    cases hq
    refine h.move hc (by rw [hphase]; rfl) rfl rfl (.kept rfl rfl) ?_
    intro hfin
    split at hfin <;> cases hfin
  next hphase =>
    cases hq
    exact h.move hc (by rw [hphase]; rfl) rfl rfl (.kept rfl rfl) nofun
  next hphase =>
    split at hq
    · cases hq
      have hreq : c.phase.hasRequested = true := by rw [hphase]; rfl
      have hcancelling := h.requested c hc hreq
      unfold ControlParent.finalizeCancel
      split
      next hs =>
        refine h.move hc hreq rfl rfl (.cancelled ?_ rfl rfl rfl) (fun _ => rfl)
        rw [hs]
        exact ⟨FrameStatus.noConfusion, FrameStatus.noConfusion⟩
      next hs =>
        refine h.move hc hreq rfl rfl (.kept rfl rfl) (fun _ => ?_)
        show p.frame.status = .cancelled
        cases hstatus : p.frame.status with
        | cancelled => rfl
        | cancelRequested => exact absurd hstatus hs
        | _ => rw [hstatus] at hcancelling; cases hcancelling
    · cases hq
  next hphase =>
    cases hq
    have hcancelled := h.finalized c hc (by rw [hphase]; rfl)
    exact h.move hc (by rw [hphase]; rfl) rfl rfl (.kept rfl rfl) (fun _ => hcancelled)

theorem controlStep_write {flow : ChildFlow ε γ} {a : ControlAction γ}
    (h : CancelInvariant p) (hguard : GuardedWrite p a) (hq : controlStep flow p a = some q) :
    CancelInvariant q ∧ FrameWrite p q := by
  cases a with
  | resume root =>
    cases hq
    exact cancelInvariant_resume h hguard
  | advance index o =>
    obtain ⟨t, ht, hadv⟩ := Option.bind_eq_some_iff.mp hq
    have hres := h.tasks t (List.mem_of_getElem? ht)
    obtain ⟨hw, hcancels, t', hcontrols, hres'⟩ := advanceControl_write hres ht hguard hadv
    refine h.write hw hcancels ?_
    intro x hx
    rw [hcontrols] at hx
    rcases List.mem_or_eq_of_mem_set hx with hx | rfl
    · exact h.tasks x hx
    · exact hres'
  | cancel reason =>
    cases hq
    exact cancelInvariant_request h reason
  | advanceCancel index o =>
    obtain ⟨c, hc, hadv⟩ := Option.bind_eq_some_iff.mp hq
    exact cancelInvariant_advanceCancel h (List.mem_of_getElem? hc) hadv

structure CompletedWith (v : Value) (writtenBack : List Value) (p : ControlParent ε γ) : Prop
    extends CancelInvariant p where
  result : p.frame.result = some v
  writtenBack : p.writtenBack = writtenBack

/-- No call has cancelled a frame that has a result: those it was asked of returned `False`. -/
theorem CompletedWith.refused {v : Value} {w : List Value}
    (h : CompletedWith v w p) (hc : c ∈ p.cancels) :
    c.phase = .returned false := by
  have hdone := h.done (by rw [h.result]; rfl)
  have hreq : c.phase.hasRequested = false := by
    cases hphase : c.phase.hasRequested with
    | false => rfl
    | true =>
      have hcancelling := h.requested c hc hphase
      rcases hdone with hdone | hdone <;> rw [hdone] at hcancelling <;> cases hcancelling
  cases hphase : c.phase with
  | returned result =>
    rw [hphase] at hreq
    exact congrArg CancelPhase.returned hreq
  | _ => rw [hphase] at hreq; cases hreq

/-- In every run whose unguarded writes find the frame open: once a cancellation was asked for, the
frame is being cancelled or cancelled; a call that returned `True` leaves it cancelled; and a frame
with a result keeps it and was not cancelled. -/
theorem cancellation_is_final {flow : ChildFlow ε γ} {frameId : String} {child : γ}
    {state : InterruptState ε} {actions : List (ControlAction γ)} {s : ControlParent ε γ}
    (hc : (controlMachine flow).Meets GuardedWrite (.active frameId child state) actions)
    (hr : (controlMachine flow).run (.active frameId child state) actions = some s) :
    (∀ c ∈ s.cancels, c.phase ≠ .returned false →
      s.frame.status = .cancelRequested ∨ s.frame.status = .cancelled) ∧
    (∀ c ∈ s.cancels, c.phase = .returned true → s.frame.status = .cancelled) ∧
    ∀ v more t, s.frame.result = some v → (controlMachine flow).Meets GuardedWrite s more →
      (controlMachine flow).run s more = some t →
        t.frame.result = some v ∧ t.writtenBack = s.writtenBack ∧
          ∀ c ∈ t.cancels, c.phase = .returned false := by
  have hs : CancelInvariant s :=
    (controlMachine flow).run_invariant_meeting
      (fun _ _ _ hi hg h => (controlStep_write hi hg h).1)
      (cancelInvariant_active frameId child state) hc hr
  refine ⟨?_, ?_, ?_⟩
  · intro c hmem hphase
    have hreq : c.phase.hasRequested = true := by
      cases hp : c.phase with
      | returned result =>
        cases result with
        | true => rfl
        | false => exact absurd hp hphase
      | _ => rfl
    have hcancelling := hs.requested c hmem hreq
    cases hstatus : s.frame.status with
    | cancelRequested => exact .inl rfl
    | cancelled => exact .inr rfl
    | _ => rw [hstatus] at hcancelling; cases hcancelling
  · intro c hmem hphase
    exact hs.finalized c hmem (by rw [hphase]; rfl)
  · intro v more t hv hmeets hrun
    have hstart : CompletedWith v s.writtenBack s := ⟨hs, hv, rfl⟩
    have hend : CompletedWith v s.writtenBack t :=
      (controlMachine flow).run_invariant_meeting (fun p _ _ hi hg h => by
        obtain ⟨hinv, hw⟩ := controlStep_write hi.toCancelInvariant hg h
        obtain ⟨hres, hback⟩ := hw.keeps_result hi.done hi.result
        exact ⟨hinv, hres, hback.trans hi.writtenBack⟩) hstart hmeets hrun
    exact ⟨hend.result, hend.writtenBack, fun c hmem => hend.refused hmem⟩

def waitingChild : ChildFlow String (Dict String (Interrupt String)) := ⟨id, fun _ => 0⟩

def approval : Interrupt String :=
  { id := "approve", resumeTo := .next, createdAt := 0, serial := 0,
    externalWaitRequest := { requestId := "approve", dispatchState := .persisted } }

def freshParent : ControlParent String (Dict String (Interrupt String)) :=
  .active "f" [] { interrupts := [], status := .running, lifecycleOpen := true }

def cancelledRun : List (ControlAction (Dict String (Interrupt String))) :=
  [.advance 0 .ok, .cancel "manual", .advanceCancel 0 .ok, .advanceCancel 0 .ok,
    .advance 0 (.cancelled none), .advance 0 (.closed [] .none), .advance 0 .ok, .advance 0 .ok,
    .advanceCancel 0 .ok]

def cancelledParent : ControlParent String (Dict String (Interrupt String)) :=
  ((controlMachine waitingChild).run freshParent cancelledRun).getD freshParent

theorem cancellation_is_final_running :
    (∀ c ∈ cancelledParent.cancels, c.phase = .returned true →
      cancelledParent.frame.status = .cancelled) ∧
    cancelledParent.cancels.map CancelCall.phase = [.returned true] :=
  have h := @cancellation_is_final _ _ waitingChild "f" [] _ cancelledRun cancelledParent (by decide)
    rfl
  ⟨h.2.1, by decide⟩

/-- The cancellation is asked for while the interrupts of the child are projected: the end of
the projection stores its copy of the frame as waiting, and the call returns `True`. -/
def projectedOver : List (ControlAction (Dict String (Interrupt String))) :=
  [.advance 0 .ok, .advance 0 (.returned [("approve", approval)]), .cancel "manual",
    .advance 0 .ok, .advance 0 .ok, .advanceCancel 0 .ok, .advanceCancel 0 .ok,
    .advanceCancel 0 .ok]

theorem projection_ends_cancellation :
    ∃ p, (controlMachine waitingChild).run freshParent projectedOver = some p ∧
      p.frame.status = .waiting ∧ p.cancels.map CancelCall.phase = [.returned true] :=
  ⟨_, rfl, by decide, by decide⟩

end Agently.TriggerFlow.SubFlow
