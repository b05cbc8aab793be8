import Agently.TriggerFlow.PoolRecords
import Agently.TriggerFlow.SubFlowFrames

/-! # Concurrent resumes of one sub-flow frame

A resume loads the child the frame holds and stores it back after several awaits. When no call marks
its interrupt as resumed before the frame is waiting again, every resume takes effect on the child
the one before left, none of them is undone and the frame is completed once. -/

namespace Agently.TriggerFlow.SubFlow

open Agently.Lib Agently.Utils

variable {ε γ : Type}

def ChildRun.before : ChildRun γ → γ
  | .resumed _ _ _ b _ => b
  | .closed b _ => b

def ChildRun.after : ChildRun γ → γ
  | .resumed _ _ _ _ a => a
  | .closed _ a => a

def endOf (start : γ) : List (ChildRun γ) → γ
  | [] => start
  | run :: _ => run.after

def Chained (start : γ) : List (ChildRun γ) → Prop
  | [] => True
  | run :: rest => run.before = endOf start rest ∧ Chained start rest

def inFrame (frameId : String) : FrameCall ε γ → Bool
  | .outside (.resuming .executionResumed r) => decide (r.interrupt.subFlowFrameId = some frameId)
  | .outside (.resuming .streamPut r) => decide (r.interrupt.subFlowFrameId = some frameId)
  | .inside _ (.running _ _) => true
  | .inside _ (.projecting _ _ _ _ _ _) => true
  | .inside _ (.closing _ _) => true
  | _ => false

def Ran (runs : List (ChildRun γ)) (r : Resume ε) : Prop :=
  ∃ childId before after,
    ChildRun.resumed r.args.interruptId childId r.args.value before after ∈ runs

def Settled (resumed : List (String × Nat)) (interrupts : Ledger ε) : Prop :=
  ∀ m ∈ resumed, ∀ i, interrupts.get? m.1 = some i → i.status = .waiting → i.serial ≠ m.2

def allFinished (p : FrameParent ε γ) : Bool := p.calls.all FrameCall.isFinished

/-- Every resume took effect, none was undone, the frame is completed once. -/
structure TakeEffect (flow : ChildFlow ε γ) (start : γ) (p : FrameParent ε γ) : Prop where
  chained : Chained start p.runs
  stored : (∀ c ∈ p.calls, inFrame p.frame.frameId c = false) →
    p.frame.childSavedState = endOf start p.runs
  applied : ∀ args r raised, .outside (.finished args (.completed r raised)) ∈ p.calls →
    r.interrupt.subFlowFrameId = some p.frame.frameId → Ran p.runs r
  settled : Settled p.resumed p.state.interrupts
  atMostOnce : p.writtenBack.length ≤ 1 ∧ p.emitted.length ≤ p.writtenBack.length
  once : allFinished p = true →
    (p.frame.status = .waiting ∧ flow.pending p.frame.childSavedState ≠ [] ∧
      p.writtenBack = [] ∧ p.emitted = []) ∨
    (p.frame.status = .completed ∧ p.writtenBack.length = 1 ∧ p.emitted.length = 1)

/-- A frame whose child waits, with its interrupts projected to the parent. -/
structure ProjectedFrame (flow : ChildFlow ε γ) (p : FrameParent ε γ) : Prop where
  calls : p.calls = []
  runs : p.runs = []
  resumed : p.resumed = []
  writtenBack : p.writtenBack = []
  emitted : p.emitted = []
  status : p.frame.status = .waiting
  pending : flow.pending p.frame.childSavedState ≠ []
  named : ∀ e ∈ p.frame.projectedInterrupts, e.1 = rootId p.frame.frameId e.2
  projected : ∀ e ∈ p.state.interrupts, e.2.subFlowFrameId = some p.frame.frameId →
    e.2.serial < flow.pauses p.frame.childSavedState ∧
      (p.frame.projectedInterrupts.get? e.1).isSome

def resumesFrame (p : FrameParent ε γ) (t : ContinueTask ε) : Bool :=
  !(markedOf p.frame.frameId (advanceContinue p.state t .ok).2).isEmpty

def Alone (p : FrameParent ε γ) : FrameAction γ → Prop
  | .continueWith _ => True
  | .advance index o =>
    (∀ error child, o ≠ .raised error child) ∧
      ∀ t, p.calls[index]? = some (.outside t) → resumesFrame p t = true →
        p.frame.status = .waiting ∧ ∀ c ∈ p.calls, inFrame p.frame.frameId c = false

def unrun (frameId : String) : FrameCall ε γ → Bool
  | .inside _ (.projecting _ _ _ _ _ _) => false
  | .inside _ (.closing _ _) => false
  | c => inFrame frameId c

def unmarked : FrameCall ε γ → Bool
  | .outside (.entering _) => true
  | .outside (.resuming .requestAccepted _) => true
  | .outside (.resuming .requestDispatched _) => true
  | _ => false

def isCompletedNotice : FrameCall ε γ → Bool
  | .inside _ (.completedNotice _) => true
  | _ => false

section Invariant

variable (flow : ChildFlow ε γ) (start : γ)

def Bounded (frameId : String) (projected : Dict String String) (cur : γ) (k : String)
    (i : Interrupt ε) : Prop :=
  i.subFlowFrameId = some frameId → i.serial < flow.pauses cur ∧ (projected.get? k).isSome

def Named (frameId : String) (projected : Dict String String) : Prop :=
  ∀ e ∈ projected, e.1 = rootId frameId e.2

def Ready (p : FrameParent ε γ) : Prop :=
  p.frame.status = .waiting ∧ p.frame.childSavedState = endOf start p.runs ∧
    flow.pending (endOf start p.runs) ≠ [] ∧ p.writtenBack = []

def Idle (p : FrameParent ε γ) : Prop :=
  Ready flow start p ∨
    (p.frame.status = .completed ∧ p.frame.childSavedState = endOf start p.runs ∧
      p.writtenBack.length = 1)

def PhaseOk (p : FrameParent ε γ) (r : Resume ε) : FramePhase ε γ → Prop
  | .running frame childId =>
    frame = p.frame ∧ p.frame.status = .running ∧
      p.frame.childSavedState = endOf start p.runs ∧ p.writtenBack = [] ∧
      r.args.interruptId = rootId p.frame.frameId childId
  | .projecting frame child projected interrupts todo _ =>
    frame = p.frame ∧ p.frame.status = .running ∧ child = endOf start p.runs ∧
      p.writtenBack = [] ∧ Ran p.runs r ∧ Named p.frame.frameId projected ∧
      (∀ k, (p.frame.projectedInterrupts.get? k).isSome → (projected.get? k).isSome) ∧
      (∀ e ∈ interrupts,
        Bounded flow p.frame.frameId projected (endOf start p.runs) e.1 e.2) ∧
      Settled p.resumed interrupts ∧
      (∀ e ∈ todo, e ∈ flow.pending (endOf start p.runs) ∧
        e.2.serial < flow.pauses (endOf start p.runs)) ∧
      flow.pending (endOf start p.runs) ≠ []
  | .closing _ child =>
    p.frame.status = .running ∧ child = endOf start p.runs ∧ p.writtenBack = [] ∧
      Ran p.runs r
  | .completedNotice _ => Ran p.runs r
  | .emitting _ => Ran p.runs r
  | .returning => Ran p.runs r
  | .finalizing _ => False
  | .failedNotice _ => False

def CallBounded (p : FrameParent ε γ) (r : Resume ε) : Prop :=
  Bounded flow p.frame.frameId p.frame.projectedInterrupts (endOf start p.runs)
    r.args.interruptId r.interrupt

def CallOk (p : FrameParent ε γ) : FrameCall ε γ → Prop
  | .outside t =>
    (∀ r, t.record? = some r → CallBounded flow start p r) ∧
      (inFrame p.frame.frameId (.outside t : FrameCall ε γ) = true → Ready flow start p) ∧
      entersFrame p.frame.frameId t = none ∧
      (∀ r, t.completed? = some r → r.interrupt.subFlowFrameId = some p.frame.frameId →
        Ran p.runs r)
  | .inside r phase =>
    CallBounded flow start p r ∧ r.interrupt.subFlowFrameId = some p.frame.frameId ∧
      PhaseOk flow start p r phase

def Distinct (calls : List (FrameCall ε γ)) : Prop :=
  ∀ (i j : Nat) (c d : FrameCall ε γ), calls[i]? = some c → calls[j]? = some d →
    c.args.interruptId = d.args.interruptId → i = j

def AtMostOne (frameId : String) (calls : List (FrameCall ε γ)) : Prop :=
  ∀ (i j : Nat) (c d : FrameCall ε γ), calls[i]? = some c → calls[j]? = some d →
    inFrame frameId c = true → inFrame frameId d = true → i = j

structure FrameInv (p : FrameParent ε γ) : Prop where
  chained : Chained start p.runs
  distinct : Distinct p.calls
  one : AtMostOne p.frame.frameId p.calls
  calls : ∀ (i : Nat) (c : FrameCall ε γ), p.calls[i]? = some c → CallOk flow start p c
  idle : (∀ c ∈ p.calls, inFrame p.frame.frameId c = false) → Idle flow start p
  named : Named p.frame.frameId p.frame.projectedInterrupts
  bounded : LedgerAll (Bounded flow p.frame.frameId p.frame.projectedInterrupts
    (endOf start p.runs)) p.state
  settled : Settled p.resumed p.state.interrupts
  less : ∀ m ∈ p.resumed, m.2 < flow.pauses (endOf start p.runs)
  gone : ∀ m ∈ p.resumed, ∀ e ∈ flow.pending (endOf start p.runs),
    rootId p.frame.frameId e.1 = m.1 → e.2.serial = m.2 →
      ∃ (i : Nat) (c : FrameCall ε γ), p.calls[i]? = some c ∧ unrun p.frame.frameId c = true ∧ c.args.interruptId = m.1
  markedBy : ∀ m ∈ p.resumed,
    ∃ (i : Nat) (c : FrameCall ε γ), p.calls[i]? = some c ∧ c.args.interruptId = m.1 ∧ unmarked c = false
  counts : p.writtenBack.length = p.emitted.length + p.calls.countP isCompletedNotice

end Invariant

variable {frameId : String}

theorem rootId_injective {a b : String} (h : rootId frameId a = rootId frameId b) :
    a = b := by
  have hl : frameId.toList ++ (":".toList ++ a.toList) = frameId.toList ++ (":".toList ++ b.toList) := by
    simpa [rootId] using congrArg String.toList h
  exact String.toList_inj.mp (List.append_cancel_left (List.append_cancel_left hl))

theorem bounded_of_origin {flow : ChildFlow ε γ}
    {projected : Dict String String} {cur : γ} (k : String) (i j : Interrupt ε)
    (ho : j.origin = i.origin) (_ : i.resumeCount ≤ j.resumeCount)
    (h : Bounded flow frameId projected cur k i) :
    Bounded flow frameId projected cur k j := by
  have hs : j.origin.serial = i.origin.serial := by rw [ho]
  have hf : j.origin.subFlowFrameId = i.origin.subFlowFrameId := by rw [ho]
  intro hj
  obtain ⟨hlt, hmapped⟩ := h (hf.symm.trans hj)
  exact ⟨hs.trans_lt hlt, hmapped⟩

theorem inFrame_of_unrun {c : FrameCall ε γ} (h : unrun frameId c = true) :
    inFrame frameId c = true := by
  cases c with
  | outside t => exact h
  | inside r phase => cases phase <;> first | exact h | rfl

theorem inFrame_of_unmarked {c : FrameCall ε γ} (h : unmarked c = true) :
    inFrame frameId c = false := by
  cases c with
  | inside r phase => cases h
  | outside t =>
    cases t with
    | resuming phase r => cases phase <;> first | rfl | cases h
    | _ => rfl

theorem completed_of_unmarked {t : ContinueTask ε}
    (h : unmarked (.outside t : FrameCall ε γ) = true) : t.completed? = none := by
  cases t with
  | entering args => rfl
  | finished args o => cases h
  | resuming phase r => cases phase <;> first | rfl | cases h

section Outside

variable {st : InterruptState ε} {t : ContinueTask ε}

theorem dispatchRequest_args (st : InterruptState ε) (r : Resume ε) :
    (dispatchRequest st r).2.args = r.args := by
  unfold dispatchRequest
  split
  · exact (markDispatched_serial r).2.1
  · rfl

theorem claim_args {interrupts : Ledger ε} {args : ContinueArgs} {r : Resume ε} {now : Bool}
    (h : claim interrupts args = .claimed r now) : r.args = args := by
  obtain ⟨i, -, -, -, hcopy, -⟩ := claim_spec h
  exact hcopy.args_eq

theorem enterContinue_args (st : InterruptState ε) (args : ContinueArgs) :
    (enterContinue st args).2.args = args := by
  unfold enterContinue
  split
  · rfl
  · split
    · rfl
    · rfl
    next r hc => exact claim_args hc
    next r hc => exact (dispatchRequest_args _ r).trans (claim_args hc)

theorem finishDispatch_args (st : InterruptState ε) (r : Resume ε) :
    (finishDispatch st r).2.args = r.args := by
  unfold finishDispatch completeDispatch
  split
  next st' r' heq =>
    split at heq
    next => cases heq; rfl
    next => cases heq
  next => rfl

theorem advance_args (st : InterruptState ε) (t : ContinueTask ε) :
    (advanceContinue st t .ok).2.args = t.args := by
  cases t with
  | entering args => exact enterContinue_args st args
  | finished args outcome => rfl
  | resuming phase r =>
    cases phase with
    | requestAccepted => exact dispatchRequest_args st r
    | dispatching => exact finishDispatch_args st r
    | requestDispatched => rfl
    | executionResumed => rfl
    | streamPut => rfl
    | requestFailed => rfl
    | requestCompleted => rfl

variable {k : String}

theorem get?_dispatchRequest_of_ne (st : InterruptState ε) (r : Resume ε)
    (h : r.args.interruptId ≠ k) :
    (dispatchRequest st r).1.interrupts.get? k = st.interrupts.get? k := by
  unfold dispatchRequest
  split
  · exact Dict.get?_set_of_ne _ _ h
  · exact Dict.get?_set_of_ne _ _ h

theorem get?_enterContinue_of_ne (st : InterruptState ε) (args : ContinueArgs)
    (h : args.interruptId ≠ k) :
    (enterContinue st args).1.interrupts.get? k = st.interrupts.get? k := by
  unfold enterContinue
  split
  · rfl
  · split
    · rfl
    · rfl
    next r hc =>
      rw [← claim_args hc] at h
      exact Dict.get?_set_of_ne _ _ h
    next r hc =>
      rw [← claim_args hc] at h
      rw [get?_dispatchRequest_of_ne _ r h]
      exact Dict.get?_set_of_ne _ _ h

theorem get?_finishDispatch_of_ne (st : InterruptState ε) (r : Resume ε)
    (h : r.args.interruptId ≠ k) :
    (finishDispatch st r).1.interrupts.get? k = st.interrupts.get? k := by
  unfold finishDispatch completeDispatch
  split
  next st' r' heq =>
    split at heq
    next rid record hrid hrec =>
      cases heq
      unfold atomicMutateInterrupt
      split
      · rfl
      · split
        · rfl
        · exact Dict.get?_set_of_ne _ _ h
    next => cases heq
  next st' heq =>
    split at heq
    next => cases heq
    next =>
      cases heq
      rw [refreshWaitingStatus_interrupts]

theorem get?_advance_of_ne (st : InterruptState ε) (t : ContinueTask ε)
    (h : t.args.interruptId ≠ k) :
    (advanceContinue st t .ok).1.interrupts.get? k = st.interrupts.get? k := by
  cases t with
  | entering args => exact get?_enterContinue_of_ne st args h
  | finished args outcome => rfl
  | resuming phase r =>
    cases phase with
    | requestAccepted => exact get?_dispatchRequest_of_ne st r h
    | dispatching => exact get?_finishDispatch_of_ne st r h
    | requestDispatched => exact Dict.get?_set_of_ne _ _ h
    | executionResumed => rfl
    | streamPut => rfl
    | requestFailed => rfl
    | requestCompleted =>
      show (refreshWaitingStatus st).interrupts.get? k = _
      rw [refreshWaitingStatus_interrupts]

theorem finishDispatch_keeps (st : InterruptState ε) (r : Resume ε)
    {i : Interrupt ε} (h : (finishDispatch st r).1.interrupts.get? k = some i) :
    ∃ j, st.interrupts.get? k = some j ∧ j.status = i.status ∧ j.serial = i.serial := by
  by_cases hk : r.args.interruptId = k
  · unfold finishDispatch completeDispatch at h
    split at h
    next st' r' heq =>
      split at heq
      next rid record hrid hrec =>
        cases heq
        cases hs : st.interrupts.get? k with
        | none =>
          simp only [atomicMutateInterrupt, hk, hs] at h
          exact absurd h (by simp)
        | some j =>
          rw [hk, atomicMutate_eq hs] at h
          have hi : completeStored r rid _ j = i :=
            Option.some.inj ((Dict.get?_set_self _ _ _).symm.trans h)
          refine ⟨j, rfl, ?_⟩
          rw [← hi]
          unfold completeStored
          split <;> exact ⟨rfl, rfl⟩
      next => cases heq
    next st' heq =>
      split at heq
      next => cases heq
      next =>
        cases heq
        rw [refreshWaitingStatus_interrupts] at h
        exact ⟨i, h, rfl, rfl⟩
  · rw [get?_finishDispatch_of_ne st r hk] at h
    exact ⟨i, h, rfl, rfl⟩

theorem advance_keeps {t : ContinueTask ε} (ht : unmarked (.outside t : FrameCall ε γ) = false)
    {i : Interrupt ε}
    (h : (advanceContinue st t .ok).1.interrupts.get? k = some i) :
    ∃ j, st.interrupts.get? k = some j ∧ j.status = i.status ∧ j.serial = i.serial := by
  cases t with
  | entering args => cases ht
  | finished args outcome => exact ⟨i, h, rfl, rfl⟩
  | resuming phase r =>
    cases phase with
    | requestAccepted => cases ht
    | requestDispatched => cases ht
    | dispatching => exact finishDispatch_keeps st r h
    | executionResumed => exact ⟨i, h, rfl, rfl⟩
    | streamPut => exact ⟨i, h, rfl, rfl⟩
    | requestFailed => exact ⟨i, h, rfl, rfl⟩
    | requestCompleted =>
      have h' : (refreshWaitingStatus st).interrupts.get? k = some i := h
      rw [refreshWaitingStatus_interrupts] at h'
      exact ⟨i, h', rfl, rfl⟩

inductive AfterUnmarked (st' : InterruptState ε) : ContinueTask ε → Prop where
  | unmarked (t : ContinueTask ε) (h : ∀ γ, SubFlow.unmarked (.outside t : FrameCall ε γ) = true) :
      AfterUnmarked st' t
  | finished (args : ContinueArgs) (o : ContinueOutcome ε)
      (h : ContinueTask.record? (.finished args o) = none) : AfterUnmarked st' (.finished args o)
  | marks (r : Resume ε) (hs : st'.interrupts.get? r.args.interruptId = some r.interrupt)
      (hr : r.interrupt.status = .resumed) : AfterUnmarked st' (.resuming .executionResumed r)

theorem resumeNow_after (st : InterruptState ε) (r : Resume ε) :
    AfterUnmarked (resumeNow st r).1 (resumeNow st r).2 :=
  .marks (markResumed r) (Dict.get?_set_self _ _ _) rfl

theorem dispatchRequest_after (st : InterruptState ε) (r : Resume ε) :
    AfterUnmarked (dispatchRequest st r).1 (dispatchRequest st r).2 := by
  unfold dispatchRequest
  split
  · exact .unmarked _ fun γ => rfl
  · exact resumeNow_after st r

theorem enterContinue_after (st : InterruptState ε) (args : ContinueArgs) :
    AfterUnmarked (enterContinue st args).1 (enterContinue st args).2 := by
  unfold enterContinue
  split
  · exact .finished _ _ rfl
  · split
    · exact .finished _ _ rfl
    · exact .finished _ _ rfl
    · exact .unmarked _ fun γ => rfl
    · exact dispatchRequest_after _ _

theorem advance_after {t : ContinueTask ε} (ht : unmarked (.outside t : FrameCall ε γ) = true) :
    AfterUnmarked (advanceContinue st t .ok).1 (advanceContinue st t .ok).2 := by
  cases t with
  | entering args => exact enterContinue_after st args
  | finished args outcome => cases ht
  | resuming phase r =>
    cases phase with
    | requestAccepted => exact dispatchRequest_after st r
    | requestDispatched => exact resumeNow_after st r
    | _ => cases ht

theorem finishDispatch_next (st : InterruptState ε) (r : Resume ε) :
    ∃ r', r'.interrupt.subFlowFrameId = r.interrupt.subFlowFrameId ∧
      ((finishDispatch st r).2 = .resuming .requestCompleted r' ∨
        (finishDispatch st r).2 = .finished r.args (.completed r' false)) := by
  unfold finishDispatch completeDispatch
  split
  next st' r' heq =>
    split at heq
    next rid record hrid hrec =>
      cases heq
      exact ⟨r.withRequest rid { record with status := .completed } .completed none, rfl, .inl rfl⟩
    next => cases heq
  next => exact ⟨r, rfl, .inr rfl⟩

inductive AfterMarked : ContinueTask ε → ContinueTask ε → Prop where
  | streamPut (r : Resume ε) :
      AfterMarked (.resuming .executionResumed r) (.resuming .streamPut r)
  | dispatching (r : Resume ε) :
      AfterMarked (.resuming .streamPut r) (.resuming .dispatching r)
  | dispatched (r r' : Resume ε) (t : ContinueTask ε)
      (hf : r'.interrupt.subFlowFrameId = r.interrupt.subFlowFrameId)
      (ht : t = .resuming .requestCompleted r' ∨ t = .finished r.args (.completed r' false)) :
      AfterMarked (.resuming .dispatching r) t
  | completed (r : Resume ε) :
      AfterMarked (.resuming .requestCompleted r) (.finished r.args (.completed r false))
  | failed (r : Resume ε) : AfterMarked (.resuming .requestFailed r) (.finished r.args .raised)
  | finished (args : ContinueArgs) (o : ContinueOutcome ε) :
      AfterMarked (.finished args o) (.finished args o)

theorem advance_after_marked {t : ContinueTask ε}
    (ht : unmarked (.outside t : FrameCall ε γ) = false) :
    AfterMarked t (advanceContinue st t .ok).2 := by
  cases t with
  | entering args => cases ht
  | finished args outcome => exact .finished args outcome
  | resuming phase r =>
    cases phase with
    | requestAccepted => cases ht
    | requestDispatched => cases ht
    | executionResumed => exact .streamPut r
    | streamPut => exact .dispatching r
    | dispatching =>
      obtain ⟨r', hf, hnext⟩ := finishDispatch_next st r
      exact .dispatched r r' _ hf hnext
    | requestFailed => exact .failed r
    | requestCompleted => exact .completed r

theorem unmarked_after_marked {t t' : ContinueTask ε} (h : AfterMarked t t') :
    unmarked (.outside t' : FrameCall ε γ) = false := by
  cases h with
  | dispatched r r' t hf ht => rcases ht with rfl | rfl <;> rfl
  | _ => rfl

end Outside

section Steps

variable {flow : ChildFlow ε γ} {start : γ}

variable {calls : List (FrameCall ε γ)} {index : Nat} {c d : FrameCall ε γ}

theorem distinct_set (h : Distinct calls) (hc : calls[index]? = some c)
    (hd : d.args.interruptId = c.args.interruptId) : Distinct (calls.set index d) := by
  have hplace : ∀ (i : Nat) (x : FrameCall ε γ), (calls.set index d)[i]? = some x →
      ∃ y, calls[i]? = some y ∧ y.args.interruptId = x.args.interruptId := by
    intro i x hx
    rcases getElem?_set_cases hx with ⟨-, hx'⟩ | ⟨hi, hxd⟩
    · exact ⟨x, hx', rfl⟩
    · subst hi
      exact ⟨c, hc, by rw [hxd, hd]⟩
  intro i j x y hx hy he
  obtain ⟨x', hx', hxe⟩ := hplace i x hx
  obtain ⟨y', hy', hye⟩ := hplace j y hy
  exact h i j x' y' hx' hy' (hxe.trans (he.trans hye.symm))

variable {frameId : String}

theorem atMostOne_set (h : AtMostOne frameId calls) (hc : calls[index]? = some c)
    (hd : inFrame frameId d = true → inFrame frameId c = true) :
    AtMostOne frameId (calls.set index d) := by
  have hplace : ∀ (i : Nat) (x : FrameCall ε γ), (calls.set index d)[i]? = some x → inFrame frameId x = true →
      ∃ y, calls[i]? = some y ∧ inFrame frameId y = true := by
    intro i x hx hin
    rcases getElem?_set_cases hx with ⟨-, hx'⟩ | ⟨hi, hxd⟩
    · exact ⟨x, hx', hin⟩
    · subst hi
      rw [hxd] at hin
      exact ⟨c, hc, hd hin⟩
  intro i j x y hx hy hxin hyin
  obtain ⟨x', hx', hxin'⟩ := hplace i x hx hxin
  obtain ⟨y', hy', hyin'⟩ := hplace j y hy hyin
  exact h i j x' y' hx' hy' hxin' hyin'

theorem none_inFrame_of_set (hc : calls[index]? = some c)
    (hd : inFrame frameId c = true → inFrame frameId d = true)
    (h : ∀ x ∈ calls.set index d, inFrame frameId x = false) :
    ∀ x ∈ calls, inFrame frameId x = false := by
  intro x hx
  obtain ⟨i, hi⟩ := List.mem_iff_getElem?.mp hx
  by_cases hne : i = index
  · subst hne
    have hxc : x = c := Option.some.inj (hi.symm.trans hc)
    have hlen : i < calls.length := (List.getElem?_eq_some_iff.mp hc).1
    have hd' : inFrame frameId d = false := h d (List.mem_iff_getElem?.mpr ⟨i, by simp [hlen]⟩)
    rw [hxc]
    by_contra hin
    rw [hd (by simpa using hin)] at hd'
    cases hd'
  · refine h x (List.mem_iff_getElem?.mpr ⟨i, ?_⟩)
    rw [List.getElem?_set_ne (Ne.symm hne)]
    exact hi

variable {projected : Dict String String}

theorem bounded_mono {projected' : Dict String String} {cur cur' : γ}
    {k : String} {i : Interrupt ε} (hp : flow.pauses cur ≤ flow.pauses cur')
    (hm : ∀ k, (projected.get? k).isSome → (projected'.get? k).isSome)
    (h : Bounded flow frameId projected cur k i) : Bounded flow frameId projected' cur' k i := by
  intro hf
  obtain ⟨hlt, hmapped⟩ := h hf
  exact ⟨by omega, hm k hmapped⟩

theorem ran_mono {runs runs' : List (ChildRun γ)} {r : Resume ε} (hruns : ∀ x ∈ runs, x ∈ runs')
    (h : Ran runs r) : Ran runs' r := by
  obtain ⟨childId, before, after, hm⟩ := h
  exact ⟨childId, before, after, hruns _ hm⟩

variable {p : FrameParent ε γ}

theorem callOk_of_not_inFrame {q : FrameParent ε γ}
    (h : CallOk flow start p c) (hc : inFrame p.frame.frameId c = false)
    (hid : q.frame.frameId = p.frame.frameId)
    (hp : flow.pauses (endOf start p.runs) ≤ flow.pauses (endOf start q.runs))
    (hm : ∀ k, (p.frame.projectedInterrupts.get? k).isSome →
      (q.frame.projectedInterrupts.get? k).isSome)
    (hruns : ∀ x ∈ p.runs, x ∈ q.runs) : CallOk flow start q c := by
  have hbound : ∀ r, CallBounded flow start p r → CallBounded flow start q r := by
    intro r hr
    unfold CallBounded at hr ⊢
    rw [hid]
    exact bounded_mono hp hm hr
  cases c with
  | outside t =>
    obtain ⟨hrec, -, henter, hran⟩ := h
    refine ⟨fun r hr => hbound r (hrec r hr), ?_, by rw [hid]; exact henter, ?_⟩
    · intro hin
      rw [hid, hc] at hin
      cases hin
    · intro r hr hf
      exact ran_mono hruns (hran r hr (hid ▸ hf))
  | inside r phase =>
    obtain ⟨hrec, hf, hphase⟩ := h
    refine ⟨hbound r hrec, by rw [hid]; exact hf, ?_⟩
    cases phase with
    | running frame childId => cases hc
    | projecting frame child projected interrupts todo roots => cases hc
    | closing frame child => cases hc
    | completedNotice result => exact ran_mono hruns hphase
    | emitting result => exact ran_mono hruns hphase
    | returning => exact ran_mono hruns hphase
    | finalizing child => exact hphase
    | failedNotice error => exact hphase

section Moved

variable {calls : List (FrameCall ε γ)} {index : Nat} {c d : FrameCall ε γ}

theorem exists_call_set {P : FrameCall ε γ → Prop} (hc : calls[index]? = some c)
    (hd : P c → P d) (h : ∃ (i : Nat) (x : FrameCall ε γ), calls[i]? = some x ∧ P x) :
    ∃ (i : Nat) (x : FrameCall ε γ), (calls.set index d)[i]? = some x ∧ P x := by
  obtain ⟨i, x, hx, hP⟩ := h
  have hlen : index < calls.length := (List.getElem?_eq_some_iff.mp hc).1
  by_cases hne : i = index
  · subst hne
    have hxc : x = c := Option.some.inj (hx.symm.trans hc)
    subst hxc
    exact ⟨i, d, by simp [hlen], hd hP⟩
  · refine ⟨i, x, ?_, hP⟩
    rw [List.getElem?_set_ne (Ne.symm hne)]
    exact hx

theorem gone_set {frameId : String} {resumed : List (String × Nat)}
    {pending : Dict String (Interrupt ε)} (hc : calls[index]? = some c)
    (hargs : d.args.interruptId = c.args.interruptId)
    (hun : unrun frameId c = true → unrun frameId d = true)
    (h : ∀ m ∈ resumed, ∀ e ∈ pending, rootId frameId e.1 = m.1 → e.2.serial = m.2 →
      ∃ (i : Nat) (x : FrameCall ε γ), calls[i]? = some x ∧ unrun frameId x = true ∧
        x.args.interruptId = m.1) :
    ∀ m ∈ resumed, ∀ e ∈ pending, rootId frameId e.1 = m.1 → e.2.serial = m.2 →
      ∃ (i : Nat) (x : FrameCall ε γ), (calls.set index d)[i]? = some x ∧
        unrun frameId x = true ∧ x.args.interruptId = m.1 := by
  intro m hm e he hroot hserial
  refine exists_call_set hc ?_ (h m hm e he hroot hserial)
  rintro ⟨hunrun, hid⟩
  exact ⟨hun hunrun, hargs.trans hid⟩

theorem markedBy_set {resumed : List (String × Nat)} (hc : calls[index]? = some c)
    (hargs : d.args.interruptId = c.args.interruptId)
    (hmark : unmarked c = false → unmarked d = false)
    (h : ∀ m ∈ resumed, ∃ (i : Nat) (x : FrameCall ε γ), calls[i]? = some x ∧
      x.args.interruptId = m.1 ∧ unmarked x = false) :
    ∀ m ∈ resumed, ∃ (i : Nat) (x : FrameCall ε γ), (calls.set index d)[i]? = some x ∧
      x.args.interruptId = m.1 ∧ unmarked x = false := by
  intro m hm
  refine exists_call_set hc ?_ (h m hm)
  rintro ⟨hid, hx⟩
  exact ⟨hargs.trans hid, hmark hx⟩

end Moved

theorem FrameInv.others (h : FrameInv flow start p) {i : Nat}
    {x : FrameCall ε γ} (hc : p.calls[index]? = some c)
    (hin : inFrame p.frame.frameId c = true) (hx : p.calls[i]? = some x) (hne : i ≠ index) :
    inFrame p.frame.frameId x = false := by
  by_contra hxin
  exact hne (h.one i index x c hx hc (by simpa using hxin) hin)

theorem FrameInv.gone_at (h : FrameInv flow start p) (hc : p.calls[index]? = some c)
    (hin : inFrame p.frame.frameId c = true) {m : String × Nat} (hm : m ∈ p.resumed)
    {e : String × Interrupt ε} (he : e ∈ flow.pending (endOf start p.runs))
    (hroot : rootId p.frame.frameId e.1 = m.1) (hserial : e.2.serial = m.2) :
    unrun p.frame.frameId c = true ∧ c.args.interruptId = m.1 := by
  obtain ⟨i, x, hx, hunrun, hid⟩ := h.gone m hm e he hroot hserial
  have hi : i = index := h.one i index x c hx hc (inFrame_of_unrun hunrun) hin
  subst hi
  have hxc : x = c := Option.some.inj (hx.symm.trans hc)
  exact hxc ▸ ⟨hunrun, hid⟩

theorem FrameInv.same (h : FrameInv flow start p) {st : InterruptState ε} {em : List Value}
    (hc : p.calls[index]? = some c) (hargs : d.args.interruptId = c.args.interruptId)
    (hin : inFrame p.frame.frameId d = inFrame p.frame.frameId c)
    (hun : unrun p.frame.frameId c = true → unrun p.frame.frameId d = true)
    (hmark : unmarked c = false → unmarked d = false) (hd : CallOk flow start p d)
    (hbounded : LedgerAll (Bounded flow p.frame.frameId p.frame.projectedInterrupts
      (endOf start p.runs)) st)
    (hsettled : Settled p.resumed st.interrupts)
    (hcounts : em.length + (isCompletedNotice d).toNat =
      p.emitted.length + (isCompletedNotice c).toNat) :
    FrameInv flow start { p with state := st, emitted := em, calls := p.calls.set index d } := by
  refine ⟨h.chained, distinct_set h.distinct hc hargs, atMostOne_set h.one hc (fun hd => hin ▸ hd),
    ?_, ?_, h.named, hbounded, hsettled, h.less, gone_set hc hargs hun h.gone,
    markedBy_set hc hargs hmark h.markedBy, ?_⟩
  · intro i x hx
    rcases getElem?_set_cases hx with ⟨-, hx⟩ | ⟨-, hx⟩
    · exact h.calls i x hx
    · rw [hx]
      exact hd
  · intro hnone
    exact h.idle (none_inFrame_of_set hc (fun hin' => hin ▸ hin') hnone)
  · have hcount := countP_set_add isCompletedNotice (b := d) hc
    have hp := h.counts
    show p.writtenBack.length = em.length + (p.calls.set index d).countP isCompletedNotice
    omega

section OutsideSteps

variable {p : FrameParent ε γ} {index : Nat} {t : ContinueTask ε}

theorem FrameInv.next_bounded (h : FrameInv flow start p)
    (ht : p.calls[index]? = some (.outside t)) :
    LedgerAll (Bounded flow p.frame.frameId p.frame.projectedInterrupts (endOf start p.runs))
        (advanceContinue p.state t .ok).1 ∧
      ∀ r, (advanceContinue p.state t .ok).2.record? = some r → CallBounded flow start p r :=
  advanceContinue_all bounded_of_origin .ok h.bounded (h.calls index _ ht).1

theorem FrameInv.other_marked (h : FrameInv flow start p)
    (ht : p.calls[index]? = some (.outside t))
    (hu : unmarked (.outside t : FrameCall ε γ) = true) {m : String × Nat} (hm : m ∈ p.resumed) :
    t.args.interruptId ≠ m.1 := by
  intro he
  obtain ⟨i, c, hc, hid, hmarked⟩ := h.markedBy m hm
  have hi : i = index := h.distinct i index c _ hc ht (hid.trans he.symm)
  subst hi
  have hct : c = .outside t := Option.some.inj (hc.symm.trans ht)
  rw [hct, hu] at hmarked
  cases hmarked

theorem FrameInv.next_settled (h : FrameInv flow start p)
    (ht : p.calls[index]? = some (.outside t)) :
    Settled p.resumed (advanceContinue p.state t .ok).1.interrupts := by
  intro m hm i hi hw
  cases hu : unmarked (.outside t : FrameCall ε γ) with
  | true =>
    rw [get?_advance_of_ne p.state t (h.other_marked ht hu hm)] at hi
    exact h.settled m hm i hi hw
  | false =>
    obtain ⟨j, hj, hstatus, hserial⟩ := advance_keeps hu hi
    rw [← hserial]
    exact h.settled m hm j hj (hstatus.trans hw)

theorem callOk_next (h : CallOk flow start p (.outside t))
    (hrec : ∀ r, (advanceContinue p.state t .ok).2.record? = some r → CallBounded flow start p r)
    (hmarks : markedOf p.frame.frameId (advanceContinue p.state t .ok).2 = [])
    (henter : entersFrame p.frame.frameId (advanceContinue p.state t .ok).2 = none) :
    CallOk flow start p (.outside (advanceContinue p.state t .ok).2) ∧
      inFrame p.frame.frameId (.outside (advanceContinue p.state t .ok).2 : FrameCall ε γ) =
        inFrame p.frame.frameId (.outside t : FrameCall ε γ) := by
  obtain ⟨-, hready, hout, hran⟩ := h
  generalize hnext : (advanceContinue p.state t .ok).2 = t' at hrec hmarks henter ⊢
  have hkeep : inFrame p.frame.frameId (.outside t' : FrameCall ε γ) =
        inFrame p.frame.frameId (.outside t : FrameCall ε γ) ∧
      ∀ r, t'.completed? = some r → r.interrupt.subFlowFrameId = some p.frame.frameId →
        Ran p.runs r := by
    cases hu : unmarked (.outside t : FrameCall ε γ) with
    | true =>
      have hafter : AfterUnmarked (advanceContinue p.state t .ok).1 t' :=
        hnext ▸ advance_after hu
      have hnot : inFrame p.frame.frameId (.outside t : FrameCall ε γ) = false :=
        inFrame_of_unmarked hu
      rw [hnot]
      cases hafter with
      | unmarked t' ht' =>
        refine ⟨inFrame_of_unmarked (ht' γ), ?_⟩
        intro r hr
        rw [completed_of_unmarked (ht' γ)] at hr
        cases hr
      | finished args o ho =>
        refine ⟨rfl, ?_⟩
        intro r hr
        rw [record_of_claimed (claimed_of_dispatched (dispatched_of_completed hr))] at ho
        cases ho
      | marks r hs hr =>
        refine ⟨?_, fun r hr => by cases hr⟩
        by_contra hin
        have hf : r.interrupt.subFlowFrameId = some p.frame.frameId := by
          simpa [inFrame] using hin
        simp [markedOf, marked, hf] at hmarks
    | false =>
      have hafter : AfterMarked t t' := hnext ▸ advance_after_marked hu
      cases hafter with
      | streamPut r => exact ⟨rfl, fun r hr => by cases hr⟩
      | dispatching r =>
        refine ⟨?_, fun r hr => by cases hr⟩
        by_contra hin
        have hf : r.interrupt.subFlowFrameId = some p.frame.frameId := by
          simpa [inFrame] using hin
        simp [entersFrame, hf] at henter
      | dispatched r r' t' hf ht' =>
        have hsame : t'.completed? = some r' := by rcases ht' with rfl | rfl <;> rfl
        refine ⟨by rcases ht' with rfl | rfl <;> rfl, ?_⟩
        intro r'' hr'' hfr
        have he : r' = r'' := Option.some.inj (hsame.symm.trans hr'')
        rw [← he, hf] at hfr
        simp [entersFrame, hfr] at hout
      | completed r => exact ⟨rfl, fun r' hr' hf => hran r' hr' hf⟩
      | failed r => exact ⟨rfl, fun r hr => by cases hr⟩
      | finished args o => exact ⟨rfl, hran⟩
  exact ⟨⟨hrec, fun hin => hready (hkeep.1 ▸ hin), henter, hkeep.2⟩, hkeep.1⟩

theorem FrameInv.outside_quiet (h : FrameInv flow start p)
    (ht : p.calls[index]? = some (.outside t))
    (hmarks : markedOf p.frame.frameId (advanceContinue p.state t .ok).2 = [])
    (henter : entersFrame p.frame.frameId (advanceContinue p.state t .ok).2 = none) :
    FrameInv flow start (advanceOutside p index t .ok) := by
  obtain ⟨hbounded, hrec⟩ := h.next_bounded ht
  obtain ⟨hd, hin⟩ := callOk_next (h.calls index _ ht) hrec hmarks henter
  have hmark : unmarked (.outside t : FrameCall ε γ) = false →
      unmarked (.outside (advanceContinue p.state t .ok).2 : FrameCall ε γ) = false :=
    fun hu => unmarked_after_marked (advance_after_marked hu)
  have hargs : (advanceContinue p.state t .ok).2.args.interruptId = t.args.interruptId := by
    rw [advance_args]
  have hq : advanceOutside p index t .ok =
      { p with
        state := (advanceContinue p.state t .ok).1
        emitted := p.emitted
        calls := p.calls.set index (.outside (advanceContinue p.state t .ok).2) } := by
    simp only [advanceOutside, henter, hmarks]
    rfl
  rw [hq]
  have hun : unrun p.frame.frameId (.outside t : FrameCall ε γ) = true →
      unrun p.frame.frameId (.outside (advanceContinue p.state t .ok).2 : FrameCall ε γ) = true :=
    fun hu => hin.trans hu
  exact h.same ht hargs hin hun hmark hd hbounded (h.next_settled ht) rfl

variable {r : Resume ε}

theorem FrameInv.outside_marks (h : FrameInv flow start p)
    (ht : p.calls[index]? = some (.outside t))
    (hnext : (advanceContinue p.state t .ok).2 = .resuming .executionResumed r)
    (hf : r.interrupt.subFlowFrameId = some p.frame.frameId)
    (hstatus : p.frame.status = .waiting)
    (hnone : ∀ c ∈ p.calls, inFrame p.frame.frameId c = false) :
    FrameInv flow start (advanceOutside p index t .ok) := by
  obtain ⟨hbounded, hrec⟩ := h.next_bounded ht
  have hsettled := h.next_settled ht
  have hu : unmarked (.outside t : FrameCall ε γ) = true := by
    by_contra hu
    have hafter : AfterMarked t (advanceContinue p.state t .ok).2 :=
      advance_after_marked (by simpa using hu)
    rw [hnext] at hafter
    cases hafter with
    | dispatched r r' t hf ht' => rcases ht' with he | he <;> cases he
  have hstored : (advanceContinue p.state t .ok).1.interrupts.get? r.args.interruptId =
      some r.interrupt ∧ r.interrupt.status = .resumed := by
    have hafter : AfterUnmarked (advanceContinue p.state t .ok).1 (advanceContinue p.state t .ok).2 :=
      advance_after hu
    rw [hnext] at hafter
    cases hafter with
    | unmarked t' ht' => cases ht' γ
    | marks r hs hr => exact ⟨hs, hr⟩
  have hargs : r.args.interruptId = t.args.interruptId := by
    have he := advance_args p.state t
    rw [hnext] at he
    exact congrArg ContinueArgs.interruptId he
  have hready : Ready flow start p := by
    rcases h.idle hnone with hready | ⟨hcompleted, -⟩
    · exact hready
    · rw [hstatus] at hcompleted
      cases hcompleted
  have hr : CallBounded flow start p r := hrec r (by rw [hnext]; rfl)
  have hin : inFrame p.frame.frameId (.outside (.resuming .executionResumed r) : FrameCall ε γ) =
      true := by simp [inFrame, hf]
  have hlen : index < p.calls.length := (List.getElem?_eq_some_iff.mp ht).1
  have hq : advanceOutside p index t .ok =
      { p with
        state := (advanceContinue p.state t .ok).1
        resumed := (r.args.interruptId, r.interrupt.serial) :: p.resumed
        calls := p.calls.set index (.outside (.resuming .executionResumed r)) } := by
    simp only [advanceOutside, hnext, entersFrame, markedOf, marked, hf, if_true,
      List.singleton_append]
    rfl
  have hplace : ∀ (i : Nat) (x : FrameCall ε γ),
      (p.calls.set index (.outside (.resuming .executionResumed r)))[i]? = some x →
        inFrame p.frame.frameId x = true → i = index := by
    intro i x hx hxin
    rcases getElem?_set_cases hx with ⟨-, hx'⟩ | ⟨hi, -⟩
    · rw [hnone x (List.mem_iff_getElem?.mpr ⟨i, hx'⟩)] at hxin
      cases hxin
    · exact hi
  have hself : (p.calls.set index (.outside (.resuming .executionResumed r)))[index]? =
      some (.outside (.resuming .executionResumed r)) := by simp [hlen]
  rw [hq]
  refine ⟨h.chained, distinct_set h.distinct ht hargs, ?_, ?_, ?_, h.named, hbounded, ?_, ?_, ?_,
    ?_, ?_⟩
  · intro i j x y hx hy hxin hyin
    exact (hplace i x hx hxin).trans (hplace j y hy hyin).symm
  · intro i x hx
    rcases getElem?_set_cases hx with ⟨-, hx'⟩ | ⟨-, hxd⟩
    · exact callOk_of_not_inFrame (h.calls i x hx')
        (hnone x (List.mem_iff_getElem?.mpr ⟨i, hx'⟩)) rfl le_rfl (fun k hk => hk)
        (fun x hx => hx)
    · rw [hxd]
      refine ⟨?_, fun _ => hready, rfl, fun r' hr' => by cases hr'⟩
      intro r' hr'
      have he : r = r' := Option.some.inj hr'
      exact he ▸ hr
  · intro hout
    have hfalse := hout _ (List.mem_iff_getElem?.mpr ⟨index, hself⟩)
    rw [hin] at hfalse
    cases hfalse
  · intro m hm i hi hw
    rcases List.mem_cons.mp hm with rfl | hm
    · have he : r.interrupt = i := Option.some.inj (hstored.1.symm.trans hi)
      rw [← he, hstored.2] at hw
      cases hw
    · exact hsettled m hm i hi hw
  · intro m hm
    rcases List.mem_cons.mp hm with rfl | hm
    · exact (hr hf).1
    · exact h.less m hm
  · intro m hm e he hroot hserial
    rcases List.mem_cons.mp hm with rfl | hm
    · exact ⟨index, _, hself, hin, rfl⟩
    · obtain ⟨i, x, hx, hunrun, -⟩ := h.gone m hm e he hroot hserial
      have hfalse := hnone x (List.mem_iff_getElem?.mpr ⟨i, hx⟩)
      rw [inFrame_of_unrun hunrun] at hfalse
      cases hfalse
  · intro m hm
    rcases List.mem_cons.mp hm with rfl | hm
    · exact ⟨index, _, hself, rfl, rfl⟩
    · exact markedBy_set (d := .outside (.resuming .executionResumed r)) ht hargs (fun _ => rfl)
        h.markedBy m hm
  · have hcount := countP_set_add isCompletedNotice (b := .outside (.resuming .executionResumed r)) ht
    have hp := h.counts
    have hold : (isCompletedNotice (.outside t : FrameCall ε γ)).toNat = 0 := rfl
    have hnew : (isCompletedNotice
      (.outside (.resuming .executionResumed r) : FrameCall ε γ)).toNat = 0 := rfl
    show p.writtenBack.length = p.emitted.length + (p.calls.set index _).countP isCompletedNotice
    omega

theorem markedOf_spec {frameId : String} {next : ContinueTask ε}
    (h : markedOf frameId next ≠ []) :
    ∃ r, next = .resuming .executionResumed r ∧ r.interrupt.subFlowFrameId = some frameId := by
  unfold markedOf marked at h
  split at h
  next r heq =>
    split at heq
    next r' =>
      cases heq
      split at h
      next hf => exact ⟨r, rfl, hf⟩
      next => exact absurd rfl h
    next => cases heq
  next => exact absurd rfl h

theorem entersFrame_spec {st : InterruptState ε} {frameId : String}
    (h : entersFrame frameId (advanceContinue st t .ok).2 = some r) :
    t = .resuming .streamPut r ∧ r.interrupt.subFlowFrameId = some frameId := by
  have hnext : (advanceContinue st t .ok).2 = .resuming .dispatching r ∧
      r.interrupt.subFlowFrameId = some frameId := by
    unfold entersFrame at h
    split at h
    next r' heq =>
      split at h
      next hf =>
        cases h
        exact ⟨heq, hf⟩
      next => cases h
    next => cases h
  refine ⟨?_, hnext.2⟩
  cases hu : unmarked (.outside t : FrameCall ε Unit) with
  | true =>
    have hafter : AfterUnmarked (advanceContinue st t .ok).1 (advanceContinue st t .ok).2 :=
      advance_after hu
    rw [hnext.1] at hafter
    cases hafter with
    | unmarked t' ht' => cases ht' Unit
  | false =>
    have hafter : AfterMarked t (advanceContinue st t .ok).2 := advance_after_marked hu
    rw [hnext.1] at hafter
    cases hafter with
    | dispatching r => rfl
    | dispatched r r' t hf ht' => rcases ht' with he | he <;> cases he

theorem FrameInv.outside_enters (h : FrameInv flow start p)
    (ht : p.calls[index]? = some (.outside (.resuming .streamPut r)))
    (hf : r.interrupt.subFlowFrameId = some p.frame.frameId) :
    FrameInv flow start (advanceOutside p index (.resuming .streamPut r) .ok) := by
  obtain ⟨hrec, hready, -, -⟩ := h.calls index _ ht
  have hin : inFrame p.frame.frameId (.outside (.resuming .streamPut r) : FrameCall ε γ) = true := by
    simp [inFrame, hf]
  have hr : CallBounded flow start p r := hrec r rfl
  obtain ⟨childId, hchild⟩ := Option.isSome_iff_exists.mp (hr hf).2
  obtain ⟨-, hsaved, -, hback⟩ := hready hin
  have hname : r.args.interruptId = rootId p.frame.frameId childId :=
    h.named _ (Dict.mem_of_get? hchild)
  have hlen : index < p.calls.length := (List.getElem?_eq_some_iff.mp ht).1
  have hq : advanceOutside p index (.resuming .streamPut r) .ok =
      { p with
        frame := { p.frame with status := .running }
        calls := p.calls.set index
          (.inside r (.running { p.frame with status := .running } childId)) } := by
    simp only [advanceOutside, advanceContinue, entersFrame, hf, if_true,
      FrameParent.enterFrame, hchild, markedOf, marked, List.nil_append]
    rfl
  rw [hq]
  refine ⟨h.chained, distinct_set h.distinct ht rfl, atMostOne_set h.one ht (fun _ => hin), ?_, ?_,
    h.named, h.bounded, h.settled, h.less, gone_set ht rfl (fun _ => rfl) h.gone,
    markedBy_set ht rfl (fun _ => rfl) h.markedBy, ?_⟩
  · intro i x hx
    rcases getElem?_set_cases hx with ⟨hne, hx'⟩ | ⟨-, hxd⟩
    · exact callOk_of_not_inFrame (h.calls i x hx') (h.others ht hin hx' hne) rfl le_rfl
        (fun k hk => hk) (fun x hx => hx)
    · rw [hxd]
      exact ⟨hr, hf, rfl, rfl, hsaved, hback, hname⟩
  · intro hout
    have hfalse := hout _ (List.mem_iff_getElem?.mpr
      ⟨index, List.getElem?_set_self hlen⟩)
    cases hfalse
  · have hcount := countP_set_add isCompletedNotice
      (b := .inside r (.running { p.frame with status := .running } childId)) ht
    have hp := h.counts
    have hold : (isCompletedNotice (.outside (.resuming .streamPut r) : FrameCall ε γ)).toNat = 0 :=
      rfl
    have hnew : (isCompletedNotice (.inside r
      (.running { p.frame with status := .running } childId) : FrameCall ε γ)).toNat = 0 := rfl
    show p.writtenBack.length = p.emitted.length + (p.calls.set index _).countP isCompletedNotice
    omega

theorem FrameInv.outside (h : FrameInv flow start p) (ht : p.calls[index]? = some (.outside t))
    (halone : resumesFrame p t = true →
      p.frame.status = .waiting ∧ ∀ c ∈ p.calls, inFrame p.frame.frameId c = false) :
    FrameInv flow start (advanceOutside p index t .ok) := by
  cases henter : entersFrame p.frame.frameId (advanceContinue p.state t .ok).2 with
  | some r =>
    obtain ⟨rfl, hf⟩ := entersFrame_spec henter
    exact h.outside_enters ht hf
  | none =>
    by_cases hmarks : markedOf p.frame.frameId (advanceContinue p.state t .ok).2 = []
    · exact h.outside_quiet ht hmarks henter
    · obtain ⟨hstatus, hnone⟩ := halone (by simp [resumesFrame, hmarks])
      obtain ⟨r, hnext, hf⟩ := markedOf_spec hmarks
      exact h.outside_marks ht hnext hf hstatus hnone

end OutsideSteps

theorem rootOf_eq (h : Named frameId projected) (childId : String) :
    rootOf frameId childId projected = rootId frameId childId := by
  unfold rootOf
  split
  next e he =>
    have hid : e.2 = childId := by simpa using List.find?_some he
    rw [← hid]
    exact h e (List.mem_of_find?_eq_some he)
  next => rfl

theorem isSome_get?_set {root childId k : String}
    (h : (projected.get? k).isSome) : ((Dict.set projected root childId).get? k).isSome := by
  by_cases hk : root = k
  · subst hk
    rw [Dict.get?_set_self]
    rfl
  · rw [Dict.get?_set_of_ne _ _ hk]
    exact h

theorem named_set {childId : String} (h : Named frameId projected) :
    Named frameId (Dict.set projected (rootOf frameId childId projected) childId) := by
  intro e he
  rcases Dict.mem_set he with he | he
  · rw [he]
    exact rootOf_eq h childId
  · exact h e he

section InsideSteps

variable {p : FrameParent ε γ} {index : Nat} {r : Resume ε}

variable {projected : Dict String String} {interrupts : Ledger ε} {roots : List String}

theorem projectNext_ok {childId : String} {i : Interrupt ε}
    {todo : List (String × Interrupt ε)} (hstatus : p.frame.status = .running)
    (hback : p.writtenBack = []) (hran : Ran p.runs r) (hnamed : Named p.frame.frameId projected)
    (hsub : ∀ k, (p.frame.projectedInterrupts.get? k).isSome → (projected.get? k).isSome)
    (hbounded : ∀ e ∈ interrupts,
      Bounded flow p.frame.frameId projected (endOf start p.runs) e.1 e.2)
    (hsettled : Settled p.resumed interrupts)
    (htodo : ∀ e ∈ (childId, i) :: todo, e ∈ flow.pending (endOf start p.runs) ∧
      e.2.serial < flow.pauses (endOf start p.runs))
    (hgone : ∀ m ∈ p.resumed, ∀ e ∈ flow.pending (endOf start p.runs),
      rootId p.frame.frameId e.1 = m.1 → e.2.serial ≠ m.2) :
    PhaseOk flow start p r
      (projectNext p.frame (endOf start p.runs) projected interrupts roots childId i todo) := by
  have hroot := rootOf_eq hnamed childId
  obtain ⟨hmem, hserial⟩ := htodo (childId, i) List.mem_cons_self
  refine ⟨rfl, hstatus, rfl, hback, hran, named_set hnamed,
    fun k hk => isSome_get?_set (hsub k hk), ?_, ?_, (List.forall_mem_cons.mp htodo).2,
    List.ne_nil_of_mem hmem⟩
  · intro e he hf
    rcases Dict.mem_set he with he | he
    · rw [he]
      exact ⟨hserial, by rw [Dict.get?_set_self]; rfl⟩
    · obtain ⟨hlt, hmapped⟩ := hbounded e he hf
      exact ⟨hlt, isSome_get?_set hmapped⟩
  · intro m hm j hj hw
    by_cases hk : rootOf p.frame.frameId childId projected = m.1
    · rw [← hk, Dict.get?_set_self] at hj
      have he : j.serial = i.serial := by
        rw [← Option.some.inj hj]
        rfl
      rw [he]
      exact hgone m hm (childId, i) hmem (hroot.symm.trans hk)
    · rw [Dict.get?_set_of_ne _ _ hk] at hj
      exact hsettled m hm j hj hw

variable {phase : FramePhase ε γ} {frame : Frame γ}

theorem FrameInv.inside_step (h : FrameInv flow start p) {phase' : FramePhase ε γ}
    {st : InterruptState ε} {runs : List (ChildRun γ)} {back : List Value}
    (hc : p.calls[index]? = some (.inside r phase))
    (hin : inFrame p.frame.frameId (.inside r phase : FrameCall ε γ) = true)
    (hid : frame.frameId = p.frame.frameId)
    (hpauses : flow.pauses (endOf start p.runs) ≤ flow.pauses (endOf start runs))
    (hmapped : ∀ k, (p.frame.projectedInterrupts.get? k).isSome →
      (frame.projectedInterrupts.get? k).isSome)
    (hruns : ∀ x ∈ p.runs, x ∈ runs) (hchained : Chained start runs)
    (hnamed : Named p.frame.frameId frame.projectedInterrupts)
    (hbounded : ∀ e ∈ st.interrupts,
      Bounded flow p.frame.frameId frame.projectedInterrupts (endOf start runs) e.1 e.2)
    (hsettled : Settled p.resumed st.interrupts)
    (hgone : ∀ m ∈ p.resumed, ∀ e ∈ flow.pending (endOf start runs),
      rootId p.frame.frameId e.1 = m.1 → e.2.serial ≠ m.2)
    (hphase : PhaseOk flow start
      { p with
        frame := frame, state := st, runs := runs, writtenBack := back
        calls := p.calls.set index (.inside r phase') } r phase')
    (hidle : inFrame p.frame.frameId (.inside r phase' : FrameCall ε γ) = false →
      Idle flow start
        { p with
          frame := frame, state := st, runs := runs, writtenBack := back
          calls := p.calls.set index (.inside r phase') })
    (hcounts : back.length = p.writtenBack.length +
      (isCompletedNotice (.inside r phase' : FrameCall ε γ)).toNat) :
    FrameInv flow start
      { p with
        frame := frame, state := st, runs := runs, writtenBack := back
        calls := p.calls.set index (.inside r phase') } := by
  obtain ⟨hr, hf, -⟩ := h.calls index _ hc
  have hlen : index < p.calls.length := (List.getElem?_eq_some_iff.mp hc).1
  refine ⟨hchained, distinct_set h.distinct hc rfl, ?_, ?_, ?_, ?_, ?_, hsettled, ?_, ?_,
    markedBy_set hc rfl (fun _ => rfl) h.markedBy, ?_⟩
  · show AtMostOne frame.frameId _
    rw [hid]
    exact atMostOne_set h.one hc (fun _ => hin)
  · intro i x hx
    rcases getElem?_set_cases hx with ⟨hne, hx'⟩ | ⟨-, hxd⟩
    · exact callOk_of_not_inFrame (h.calls i x hx') (h.others hc hin hx' hne) hid hpauses hmapped
        hruns
    · rw [hxd]
      refine ⟨?_, hf.trans (congrArg some hid.symm), hphase⟩
      show Bounded flow frame.frameId _ _ _ _
      rw [hid]
      exact bounded_mono hpauses hmapped hr
  · intro hnone
    have hself : inFrame frame.frameId (.inside r phase' : FrameCall ε γ) = false :=
      hnone _ (List.mem_iff_getElem?.mpr ⟨index, List.getElem?_set_self hlen⟩)
    exact hidle (hid ▸ hself)
  · show Named frame.frameId _
    rw [hid]
    exact hnamed
  · intro e he
    show Bounded flow frame.frameId _ _ _ _
    rw [hid]
    exact hbounded e he
  · intro m hm
    have hlt := h.less m hm
    show m.2 < flow.pauses (endOf start runs)
    omega
  · intro m hm e he hroot hserial
    have hroot' : rootId frame.frameId e.1 = m.1 := hroot
    rw [hid] at hroot'
    exact absurd hserial (hgone m hm e he hroot')
  · have hcount := countP_set_add isCompletedNotice (b := .inside r phase') hc
    have hp := h.counts
    have hold : (isCompletedNotice (.inside r phase : FrameCall ε γ)).toNat = 0 := by
      cases phase <;> first | rfl | cases hin
    show back.length = p.emitted.length + (p.calls.set index _).countP isCompletedNotice
    omega

theorem runsTo_spec {before after : γ} {continued : Option String}
    (h : flow.runsTo before continued after = true) :
    flow.pauses before ≤ flow.pauses after ∧
      ∀ e ∈ flow.pending after, e.2.serial < flow.pauses after ∧
        (flow.pauses before ≤ e.2.serial ∨
          (some e.1 ≠ continued ∧ ∃ i, (e.1, i) ∈ flow.pending before ∧ i.serial = e.2.serial)) := by
  unfold ChildFlow.runsTo at h
  rw [Bool.and_eq_true, decide_eq_true_eq, List.all_eq_true] at h
  refine ⟨h.1, ?_⟩
  intro e he
  have hpending := h.2 e he
  rw [Bool.and_eq_true, Bool.or_eq_true, Bool.and_eq_true, decide_eq_true_eq, decide_eq_true_eq,
    decide_eq_true_eq] at hpending
  obtain ⟨hlt, hnew | ⟨hne, hold⟩⟩ := hpending
  · exact ⟨hlt, .inl hnew⟩
  · cases hi : (flow.pending before).get? e.1 with
    | none =>
      rw [hi] at hold
      cases hold
    | some i =>
      rw [hi] at hold
      exact ⟨hlt, .inr ⟨hne, i, Dict.mem_of_get? hi, by simpa using hold⟩⟩

theorem FrameInv.gone_after (h : FrameInv flow start p) {child : γ}
    {continued : Option String} (hc : p.calls[index]? = some (.inside r phase))
    (hin : inFrame p.frame.frameId (.inside r phase : FrameCall ε γ) = true)
    (hruns : flow.runsTo (endOf start p.runs) continued child = true)
    (hlast : unrun p.frame.frameId (.inside r phase : FrameCall ε γ) = true →
      ∃ childId, continued = some childId ∧
        r.args.interruptId = rootId p.frame.frameId childId) :
    ∀ m ∈ p.resumed, ∀ e ∈ flow.pending child,
      rootId p.frame.frameId e.1 = m.1 → e.2.serial ≠ m.2 := by
  intro m hm e he hroot hserial
  obtain ⟨-, hpending⟩ := runsTo_spec hruns
  have hless := h.less m hm
  rcases (hpending e he).2 with hnew | ⟨hne, i, hi, hsame⟩
  · omega
  · obtain ⟨hunrun, hid⟩ := h.gone_at hc hin hm hi hroot (hsame.trans hserial)
    obtain ⟨childId, hcontinued, hname⟩ := hlast hunrun
    have heq : rootId p.frame.frameId childId = rootId p.frame.frameId e.1 :=
      hname.symm.trans (hid.trans hroot.symm)
    rw [rootId_injective heq] at hcontinued
    exact hne hcontinued.symm

theorem FrameInv.childReturned (h : FrameInv flow start p) {childId : String}
    {child : γ} (hc : p.calls[index]? = some (.inside r (.running frame childId)))
    (hruns : flow.runsTo frame.childSavedState (some childId) child = true) :
    FrameInv flow start (p.childReturned flow index r frame childId child) := by
  obtain ⟨hr, hf, rfl, hstatus, hsaved, hback, hname⟩ := h.calls index _ hc
  rw [hsaved] at hruns
  obtain ⟨hpauses, hpending⟩ := runsTo_spec hruns
  have hgone := h.gone_after hc rfl hruns (fun _ => ⟨childId, rfl, hname⟩)
  have hran : Ran (ChildRun.resumed r.args.interruptId childId r.args.value
      p.frame.childSavedState child :: p.runs) r :=
    ⟨childId, _, child, List.mem_cons_self⟩
  have hbounded : ∀ e ∈ p.state.interrupts,
      Bounded flow p.frame.frameId p.frame.projectedInterrupts child e.1 e.2 :=
    fun e he => bounded_mono hpauses (fun k hk => hk) (h.bounded e he)
  unfold FrameParent.childReturned
  cases hp : flow.pending child with
  | nil =>
    refine h.inside_step hc rfl rfl hpauses (fun k hk => hk)
      (fun x hx => List.mem_cons_of_mem _ hx) ⟨hsaved, h.chained⟩ h.named hbounded h.settled
      hgone ?_ (fun hfalse => by cases hfalse) rfl
    exact ⟨hstatus, rfl, hback, hran⟩
  | cons e todo =>
    refine h.inside_step hc rfl rfl hpauses (fun k hk => hk)
      (fun x hx => List.mem_cons_of_mem _ hx) ⟨hsaved, h.chained⟩ h.named hbounded h.settled
      hgone ?_ (fun hfalse => by cases hfalse) rfl
    refine projectNext_ok hstatus hback hran h.named (fun k hk => hk) hbounded
      h.settled ?_ hgone
    intro x hx
    have hx' : x ∈ flow.pending child := by
      rw [hp]
      exact hx
    exact ⟨hx', (hpending x hx').1⟩

theorem FrameInv.projectsNext (h : FrameInv flow start p) {child : γ}
    {childId : String} {i : Interrupt ε}
    {todo : List (String × Interrupt ε)}
    (hc : p.calls[index]? =
      some (.inside r (.projecting frame child projected interrupts ((childId, i) :: todo) roots))) :
    FrameInv flow start (p.setCall index
      (.inside r (projectNext frame child projected interrupts roots childId i todo))) := by
  obtain ⟨hr, hf, rfl, hstatus, rfl, hback, hran, hnamed, hsub, hbounded, hsettled, htodo, -⟩ :=
    h.calls index _ hc
  have hgone : ∀ m ∈ p.resumed, ∀ e ∈ flow.pending (endOf start p.runs),
      rootId p.frame.frameId e.1 = m.1 → e.2.serial ≠ m.2 := by
    intro m hm e he hroot hserial
    cases (h.gone_at hc rfl hm he hroot hserial).1
  exact h.same hc rfl rfl (fun hun => by cases hun) (fun _ => rfl)
    ⟨hr, hf, projectNext_ok hstatus hback hran hnamed hsub hbounded hsettled htodo hgone⟩
    h.bounded h.settled rfl

theorem FrameInv.storeProjection (h : FrameInv flow start p) {child : γ} (hc : p.calls[index]? =
      some (.inside r (.projecting frame child projected interrupts [] roots))) :
    FrameInv flow start (p.storeProjection index r frame child projected interrupts roots) := by
  obtain ⟨hr, hf, rfl, hstatus, rfl, hback, hran, hnamed, hsub, hbounded, hsettled, -, hpending⟩ :=
    h.calls index _ hc
  refine h.inside_step hc rfl rfl le_rfl hsub (fun x hx => hx) h.chained hnamed hbounded hsettled
    ?_ hran (fun _ => .inl ⟨rfl, rfl, hpending, hback⟩) rfl
  intro m hm e he hroot hserial
  cases (h.gone_at hc rfl hm he hroot hserial).1

theorem FrameInv.childClosed (h : FrameInv flow start p) {before child : γ}
    {result : Value} (hc : p.calls[index]? = some (.inside r (.closing frame before)))
    (hruns : flow.runsTo before none child = true) :
    FrameInv flow start (p.childClosed index r before child result) := by
  obtain ⟨hr, hf, hstatus, rfl, hback, hran⟩ := h.calls index _ hc
  obtain ⟨hpauses, -⟩ := runsTo_spec hruns
  have hgone := h.gone_after hc rfl hruns (fun hun => by cases hun)
  have hq : p.childClosed index r (endOf start p.runs) child result =
      { p with
        frame := { p.frame with
          status := .completed, childSavedState := child, result := some result }
        runs := .closed (endOf start p.runs) child :: p.runs
        writtenBack := result :: p.writtenBack
        calls := p.calls.set index (.inside r (.completedNotice result)) } := by
    simp only [FrameParent.childClosed, hstatus, FrameStatus.isCancelling, Bool.false_eq_true,
      if_false, FrameParent.setCall]
  rw [hq]
  refine h.inside_step hc rfl rfl hpauses (fun k hk => hk)
    (fun x hx => List.mem_cons_of_mem _ hx) ⟨rfl, h.chained⟩ h.named
    (fun e he => bounded_mono hpauses (fun k hk => hk) (h.bounded e he)) h.settled hgone
    (ran_mono (fun x hx => List.mem_cons_of_mem _ hx) hran) (fun _ => .inr ⟨rfl, rfl, ?_⟩) ?_
  · simp [hback]
  · simp [isCompletedNotice]

theorem FrameInv.inside {q : FrameParent ε γ} (h : FrameInv flow start p)
    {o : FrameOutcome γ}
    (hc : p.calls[index]? = some (.inside r phase))
    (ho : ∀ error child, o ≠ .raised error child)
    (hstep : advanceInside flow p index r phase o = some q) : FrameInv flow start q := by
  obtain ⟨hr, hf, hphase⟩ := h.calls index _ hc
  cases o with
  | raised error child => exact absurd rfl (ho error child)
  | returned child =>
    cases phase with
    | running frame childId =>
      simp only [advanceInside] at hstep
      split at hstep
      next hruns =>
        cases hstep
        exact h.childReturned hc hruns
      next => cases hstep
    | projecting _ _ _ _ todo _ => cases todo <;> cases hstep
    | _ => cases hstep
  | closed child result =>
    cases phase with
    | closing frame before =>
      simp only [advanceInside] at hstep
      split at hstep
      next hruns =>
        cases hstep
        exact h.childClosed hc hruns
      next => cases hstep
    | projecting _ _ _ _ todo _ => cases todo <;> cases hstep
    | _ => cases hstep
  | ok =>
    cases phase with
    | running frame childId => cases hstep
    | closing frame child => cases hstep
    | projecting frame child projected interrupts todo roots =>
      cases todo with
      | nil =>
        cases hstep
        exact h.storeProjection hc
      | cons e todo =>
        cases hstep
        exact h.projectsNext hc
    | completedNotice result =>
      cases hstep
      exact h.same hc rfl rfl (fun hun => by cases hun) (fun _ => rfl) ⟨hr, hf, hphase⟩
        h.bounded h.settled rfl
    | emitting result =>
      cases hstep
      refine h.same hc rfl rfl (fun hun => by cases hun) (fun _ => rfl) ⟨hr, hf, hphase⟩ ?_ ?_
        rfl
      · unfold LedgerAll
        rw [refreshWaitingStatus_interrupts]
        exact h.bounded
      · rw [refreshWaitingStatus_interrupts]
        exact h.settled
    | finalizing child => cases hphase
    | failedNotice error => cases hphase
    | returning =>
      cases hstep
      obtain ⟨hbounded, hrec⟩ := finishDispatch_all bounded_of_origin h.bounded hr
      obtain ⟨r', hf', hnext⟩ := finishDispatch_next p.state r
      obtain ⟨r'', hcompleted, hargs, -⟩ := finishDispatch_completed p.state r
      have hd : CallOk flow start p (.outside (finishDispatch p.state r).2) := by
        refine ⟨hrec, ?_, ?_, ?_⟩
        · intro hin
          rcases hnext with he | he <;> rw [he] at hin <;> cases hin
        · rcases hnext with he | he <;> rw [he] <;> rfl
        · intro x hx _
          have he : r'' = x := Option.some.inj (hcompleted.symm.trans hx)
          obtain ⟨childId, before, after, hm⟩ := hphase
          exact ⟨childId, before, after, by rw [← he, hargs]; exact hm⟩
      refine h.same hc ?_ ?_ (fun hun => by cases hun) ?_ hd hbounded ?_ rfl
      · show (finishDispatch p.state r).2.args.interruptId = r.args.interruptId
        rw [finishDispatch_args]
      · rcases hnext with he | he <;> rw [he] <;> rfl
      · rcases hnext with he | he <;> rw [he] <;> exact fun _ => rfl
      · intro m hm i hi hw
        obtain ⟨j, hj, hstatus, hserial⟩ := finishDispatch_keeps p.state r hi
        rw [← hserial]
        exact h.settled m hm j hj (hstatus.trans hw)

end InsideSteps

theorem FrameInv.continueWith (h : FrameInv flow start p) {args : ContinueArgs}
    (hfresh : (p.calls.any fun c => decide (c.args.interruptId = args.interruptId)) = false) :
    FrameInv flow start { p with calls := p.calls ++ [.outside (.entering args)] } := by
  have hother : ∀ (i : Nat) (c : FrameCall ε γ), p.calls[i]? = some c →
      c.args.interruptId ≠ args.interruptId := by
    intro i c hc he
    have hany := List.any_eq_false.mp hfresh c (List.mem_iff_getElem?.mpr ⟨i, hc⟩)
    exact hany (by simpa using he)
  have hlast : ∀ (i : Nat) (c : FrameCall ε γ),
      (p.calls ++ [.outside (.entering args)])[i]? = some c → p.calls[i]? = some c ∨
        (i = p.calls.length ∧ c = .outside (.entering args)) := by
    intro i c hc
    rcases Nat.lt_or_ge i p.calls.length with hi | hi
    · left
      rwa [List.getElem?_append_left hi] at hc
    · right
      have hlen := (List.getElem?_eq_some_iff.mp hc).1
      have hi' : i = p.calls.length := by
        simp only [List.length_append, List.length_singleton] at hlen
        omega
      subst hi'
      exact ⟨rfl, by simpa [eq_comm] using hc⟩
  have hkept : ∀ (i : Nat) (c : FrameCall ε γ), p.calls[i]? = some c →
      (p.calls ++ [.outside (.entering args)])[i]? = some c := by
    intro i c hc
    rw [List.getElem?_append_left (List.getElem?_eq_some_iff.mp hc).1]
    exact hc
  refine ⟨h.chained, ?_, ?_, ?_, ?_, h.named, h.bounded, h.settled, h.less, ?_, ?_, ?_⟩
  · intro i j c d hc hd he
    rcases hlast i c hc with hc' | ⟨hi, rfl⟩
    · rcases hlast j d hd with hd' | ⟨hj, rfl⟩
      · exact h.distinct i j c d hc' hd' he
      · exact absurd he (hother i c hc')
    · rcases hlast j d hd with hd' | ⟨hj, rfl⟩
      · exact absurd he.symm (hother j d hd')
      · omega
  · intro i j c d hc hd hcin hdin
    rcases hlast i c hc with hc' | ⟨hi, rfl⟩
    · rcases hlast j d hd with hd' | ⟨hj, rfl⟩
      · exact h.one i j c d hc' hd' hcin hdin
      · cases hdin
    · cases hcin
  · intro i c hc
    rcases hlast i c hc with hc' | ⟨-, rfl⟩
    · exact h.calls i c hc'
    · exact ⟨fun r hr => (by cases hr), fun hin => (by cases hin), rfl, fun r hr => (by cases hr)⟩
  · intro hnone
    exact h.idle fun c hc => hnone c (List.mem_append_left _ hc)
  · intro m hm e he hroot hserial
    obtain ⟨i, c, hc, hunrun, hid⟩ := h.gone m hm e he hroot hserial
    exact ⟨i, c, hkept i c hc, hunrun, hid⟩
  · intro m hm
    obtain ⟨i, c, hc, hid, hmarked⟩ := h.markedBy m hm
    exact ⟨i, c, hkept i c hc, hid, hmarked⟩
  · have hp := h.counts
    have hnew : List.countP isCompletedNotice [(.outside (.entering args) : FrameCall ε γ)] = 0 := rfl
    show p.writtenBack.length = p.emitted.length + (p.calls ++ _).countP isCompletedNotice
    rw [List.countP_append, hnew]
    omega

theorem frameInv_step {q : FrameParent ε γ} {a : FrameAction γ} (h : FrameInv flow start p)
    (halone : Alone p a) (hstep : frameStep flow p a = some q) : FrameInv flow start q := by
  cases a with
  | continueWith args =>
    simp only [frameStep] at hstep
    split at hstep
    next => cases hstep
    next hfresh =>
      cases hstep
      exact h.continueWith (by simpa using hfresh)
  | advance index o =>
    obtain ⟨ho, hmarks⟩ := halone
    simp only [frameStep] at hstep
    split at hstep
    next t ht =>
      cases o with
      | ok =>
        cases hstep
        exact h.outside ht (hmarks t ht)
      | raised error child => exact absurd rfl (ho error child)
      | returned child => cases hstep
      | closed child result => cases hstep
    next r phase hc => exact h.inside hc ho hstep
    next => cases hstep

end Steps

section Runs

variable {flow : ChildFlow ε γ} {start : γ} {p : FrameParent ε γ}

theorem frameInv_of_projected (h : ProjectedFrame flow p) :
    FrameInv flow p.frame.childSavedState p := by
  have hnone : ∀ (i : Nat) (c : FrameCall ε γ), p.calls[i]? ≠ some c := by
    intro i c hc
    rw [h.calls] at hc
    simp at hc
  have hend : endOf p.frame.childSavedState p.runs = p.frame.childSavedState := by
    rw [h.runs]
    rfl
  refine ⟨?_, fun i j c d hc => absurd hc (hnone i c), fun i j c d hc => absurd hc (hnone i c),
    fun i c hc => absurd hc (hnone i c), fun _ => .inl ⟨h.status, hend.symm, ?_, h.writtenBack⟩,
    h.named, ?_, ?_, ?_, ?_, ?_, ?_⟩
  · rw [h.runs]
    trivial
  · rw [hend]
    exact h.pending
  · intro e he hf
    rw [hend]
    exact h.projected e he hf
  · rw [h.resumed]
    exact List.forall_mem_nil _
  · rw [h.resumed]
    exact List.forall_mem_nil _
  · rw [h.resumed]
    exact List.forall_mem_nil _
  · rw [h.resumed]
    exact List.forall_mem_nil _
  · rw [h.writtenBack, h.emitted, h.calls]
    rfl

variable {c : FrameCall ε γ}

theorem FrameInv.unwritten (h : FrameInv flow start p) (hc : c ∈ p.calls)
    (hin : inFrame p.frame.frameId c = true) : p.writtenBack = [] := by
  obtain ⟨i, hi⟩ := List.mem_iff_getElem?.mp hc
  have hok := h.calls i c hi
  cases c with
  | outside t => exact (hok.2.1 hin).2.2.2
  | inside r phase =>
    cases phase with
    | running frame childId => exact hok.2.2.2.2.2.1
    | projecting frame child projected interrupts todo roots => exact hok.2.2.2.2.2.1
    | closing frame child => exact hok.2.2.2.2.1
    | _ => cases hin

theorem FrameInv.written_le (h : FrameInv flow start p) : p.writtenBack.length ≤ 1 := by
  by_cases hnone : ∀ c ∈ p.calls, inFrame p.frame.frameId c = false
  · rcases h.idle hnone with ⟨-, -, -, hback⟩ | ⟨-, -, hback⟩
    · simp [hback]
    · exact hback.le
  · push Not at hnone
    obtain ⟨c, hc, hin⟩ := hnone
    rw [h.unwritten hc (by simpa using hin)]
    exact Nat.zero_le 1

theorem inFrame_of_isFinished {frameId : String} (h : c.isFinished = true) :
    inFrame frameId c = false := by
  cases c with
  | inside r phase => cases h
  | outside t =>
    cases t with
    | finished args o => rfl
    | _ => cases h

theorem isCompletedNotice_of_isFinished (h : c.isFinished = true) :
    isCompletedNotice c = false := by
  cases c with
  | inside r phase => cases h
  | outside t => rfl

theorem takeEffect_of_inv (h : FrameInv flow start p) : TakeEffect flow start p where
  chained := h.chained
  stored := by
    intro hnone
    rcases h.idle hnone with ⟨-, hsaved, -⟩ | ⟨-, hsaved, -⟩
    · exact hsaved
    · exact hsaved
  applied := by
    intro args r raised hc hf
    obtain ⟨i, hi⟩ := List.mem_iff_getElem?.mp hc
    exact (h.calls i _ hi).2.2.2 r rfl hf
  settled := h.settled
  atMostOnce := by
    have hcounts := h.counts
    exact ⟨h.written_le, by omega⟩
  once := by
    intro hall
    have hfinished : ∀ c ∈ p.calls, c.isFinished = true := List.all_eq_true.mp hall
    have hcounts := h.counts
    have hzero : p.calls.countP isCompletedNotice = 0 :=
      List.countP_eq_zero.mpr fun c hc => by
        rw [isCompletedNotice_of_isFinished (hfinished c hc)]
        exact Bool.false_ne_true
    rcases h.idle fun c hc => inFrame_of_isFinished (hfinished c hc) with
      ⟨hstatus, hsaved, hpending, hback⟩ | ⟨hstatus, -, hback⟩
    · left
      have hemitted : p.emitted.length = 0 := by
        rw [hback] at hcounts
        simp only [List.length_nil] at hcounts
        omega
      exact ⟨hstatus, by rw [hsaved]; exact hpending, hback, List.length_eq_zero_iff.mp hemitted⟩
    · exact .inr ⟨hstatus, hback, by omega⟩

/-- In a run where an interrupt of the frame is marked as resumed only while nobody is in the
frame, every resume takes effect. -/
theorem resumes_take_effect (flow : ChildFlow ε γ) (p q : FrameParent ε γ)
    (as : List (FrameAction γ)) (hp : ProjectedFrame flow p)
    (ha : (frameMachine flow).Meets Alone p as) (hr : (frameMachine flow).run p as = some q) :
    TakeEffect flow p.frame.childSavedState q :=
  takeEffect_of_inv ((frameMachine flow).run_invariant_meeting
    (fun _ _ _ hi hc hs => frameInv_step hi hc hs) (frameInv_of_projected hp) ha hr)

end Runs

instance (p : FrameParent ε γ) (index : Nat) : Decidable (∀ t,
    p.calls[index]? = some (.outside t) → resumesFrame p t = true →
      p.frame.status = .waiting ∧ ∀ c ∈ p.calls, inFrame p.frame.frameId c = false) :=
  match h : p.calls[index]? with
  | some (.outside t) =>
    decidable_of_iff (resumesFrame p t = true →
      p.frame.status = .waiting ∧ ∀ c ∈ p.calls, inFrame p.frame.frameId c = false)
      ⟨fun hw t' ht' => by cases ht'; exact hw, fun hw => hw t rfl⟩
  | some (.inside _ _) => isTrue (by intro t ht; cases ht)
  | none => isTrue (by intro t ht; cases ht)

instance (p : FrameParent ε γ) (a : FrameAction γ) : Decidable (Alone p a) :=
  match a with
  | .continueWith _ => isTrue trivial
  | .advance _ (.raised error child) => isFalse fun h => h.1 error child rfl
  | .advance index .ok | .advance index (.returned _) | .advance index (.closed _ _) =>
    decidable_of_iff (∀ t, p.calls[index]? = some (.outside t) → resumesFrame p t = true →
        p.frame.status = .waiting ∧ ∀ c ∈ p.calls, inFrame p.frame.frameId c = false)
      ⟨fun h => ⟨fun _ _ he => (by cases he), h⟩, fun h => h.2⟩

def pauseOf (id : String) (serial : Nat) : Interrupt String :=
  { id := id
    resumeTo := .next
    createdAt := serial
    externalWaitRequest := { requestId := id, dispatchState := .exposed }
    serial := serial }

def twoPauses : ChildFlow String (Dict String Nat) where
  pending child := child.map fun e => (e.1, pauseOf e.1 e.2)
  pauses _ := 2

def pausedParent : FrameParent String (Dict String Nat) where
  state :=
    { interrupts :=
        [("f:a", rootInterrupt "f" "f:a" (pauseOf "a" 0)),
         ("f:b", rootInterrupt "f" "f:b" (pauseOf "b" 1))]
      status := .waiting
      lifecycleOpen := true }
  frame :=
    { frameId := "f"
      status := .waiting
      childSavedState := [("a", 0), ("b", 1)]
      projectedInterrupts := [("f:a", "a"), ("f:b", "b")] }
  calls := []
  runs := []
  resumed := []
  writtenBack := []
  emitted := []

theorem pausedParent_projected : ProjectedFrame twoPauses pausedParent where
  calls := rfl
  runs := rfl
  resumed := rfl
  writtenBack := rfl
  emitted := rfl
  status := rfl
  pending := by decide
  named := by decide
  projected := by decide

def intoFrame (index : Nat) : List (FrameAction γ) :=
  List.replicate 3 (.advance index .ok)

def oneAfterTheOther : List (FrameAction (Dict String Nat)) :=
  .continueWith { interruptId := "f:a" } :: intoFrame 0 ++
    [.advance 0 (.returned [("b", 1)]), .advance 0 .ok, .advance 0 .ok] ++
    .continueWith { interruptId := "f:b" } :: intoFrame 1 ++
    [.advance 1 (.returned []), .advance 1 (.closed [] .none), .advance 1 .ok, .advance 1 .ok,
      .advance 1 .ok]

def oneOverTheOther : List (FrameAction (Dict String Nat)) :=
  .continueWith { interruptId := "f:a" } :: .continueWith { interruptId := "f:b" } ::
    intoFrame 0 ++ intoFrame 1 ++
    [.advance 0 (.returned [("b", 1)]), .advance 0 .ok, .advance 0 .ok,
      .advance 1 (.returned [("a", 0)]), .advance 1 .ok, .advance 1 .ok]

def afterRun (as : List (FrameAction (Dict String Nat))) : FrameParent String (Dict String Nat) :=
  ((frameMachine twoPauses).run pausedParent as).getD pausedParent

theorem resumes_take_effect_in_turn :
    TakeEffect twoPauses [("a", 0), ("b", 1)] (afterRun oneAfterTheOther) ∧
      (afterRun oneAfterTheOther).frame.status = .completed ∧
      allFinished (afterRun oneAfterTheOther) = true :=
  ⟨resumes_take_effect twoPauses pausedParent (afterRun oneAfterTheOther) oneAfterTheOther
    pausedParent_projected (by decide +kernel) (by decide +kernel), by decide +kernel,
    by decide +kernel⟩

theorem overlapping_resume_is_lost :
    ¬ ∀ (p q : FrameParent String (Dict String Nat)) (as : List (FrameAction (Dict String Nat))),
      ProjectedFrame twoPauses p → (frameMachine twoPauses).run p as = some q →
        TakeEffect twoPauses p.frame.childSavedState q := by
  intro h
  have hr : (frameMachine twoPauses).run pausedParent oneOverTheOther =
      some (afterRun oneOverTheOther) := by decide +kernel
  have heffect := h _ _ _ pausedParent_projected hr
  have hresumed : ("f:a", 0) ∈ (afterRun oneOverTheOther).resumed := by decide +kernel
  have hwaits : ((afterRun oneOverTheOther).state.interrupts.get? "f:a").any
      (fun i => decide (i.status = .waiting ∧ i.serial = 0)) = true := by decide +kernel
  obtain ⟨i, hi, hw⟩ := (Option.any_eq_true _ _).mp hwaits
  obtain ⟨hstatus, hserial⟩ := of_decide_eq_true hw
  exact heffect.settled _ hresumed i hi hstatus hserial

end Agently.TriggerFlow.SubFlow
