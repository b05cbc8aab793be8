import Agently.TriggerFlow.SelfResume

/-! # The budget of a 'self' resume

Source: `TriggerFlow/ExecutionInterrupts.py`. The count of resumes travels in the meta of the resume
signals: a pause starts from the count of the signal it is raised on, a claim charges one, and the
resume signal takes the result to the next pause. -/

namespace Agently.TriggerFlow

open Agently.Lib Agently.Utils

variable {ε η : Type}

/-- The pauses whose 'self' resumes lead from an originating signal to `s`, newest first;
each of the resumes has re-entered the handler. -/
inductive ResumedAlong (e : Execution ε η) (handler : η) : Signal ε → List (Raise ε η) → Prop where
  | origin (s : Signal ε) : ResumedAlong e handler s []
  | resume {n call serial : Nat} {d : Dispatch ε η} {raise : Raise ε η} {last : Signal ε}
      {raises : List (Raise ε η)} (hd : e.dispatches[n]? = some d)
      (hcause : d.cause = .resumed call serial) (hraise : e.raises[serial]? = some raise)
      (hself : raise.interrupt.resumeTo = .self) (hlast : raise.lastSignal = some last)
      (hentered : (handler, d.signal) ∈ handedTo e.invocations n)
      (hbefore : ResumedAlong e handler last raises) :
      ResumedAlong e handler d.signal (raise :: raises)

def resumeChain [DecidableEq ε] [DecidableEq η] (e : Execution ε η) (handler : η) :
    List Nat → Option (Signal ε × List (Raise ε η))
  | [] => none
  | n :: rest => do
      let d ← e.dispatches[n]?
      match d.cause with
      | .emitted => none
      | .resumed _ serial => do
          let raise ← e.raises[serial]?
          let last ← raise.lastSignal
          if raise.interrupt.resumeTo = .self ∧ (handler, d.signal) ∈ handedTo e.invocations n then
            match resumeChain e handler rest with
            | none => some (d.signal, [raise])
            | some (s, raises) => if s = last then some (d.signal, raise :: raises) else none
          else none

variable {e : Execution ε η}

theorem resumeChain_sound [DecidableEq ε] [DecidableEq η] {handler : η}
    {places : List Nat} {chain : Signal ε × List (Raise ε η)}
    (h : resumeChain e handler places = some chain) : ResumedAlong e handler chain.1 chain.2 := by
  induction places generalizing chain with
  | nil => cases h
  | cons n rest ih =>
    obtain ⟨d, hd, h⟩ := Option.bind_eq_some_iff.mp h
    cases hcause : d.cause with
    | emitted =>
      simp only [hcause] at h
      cases h
    | resumed call serial =>
      simp only [hcause] at h
      obtain ⟨raise, hraise, h⟩ := Option.bind_eq_some_iff.mp h
      obtain ⟨last, hlast, h⟩ := Option.bind_eq_some_iff.mp h
      split at h
      next hself =>
        cases hrest : resumeChain e handler rest with
        | none =>
          simp only [hrest] at h
          cases h
          exact .resume hd hcause hraise hself.1 hlast hself.2 (.origin last)
        | some before =>
          simp only [hrest] at h
          split at h
          next hsame =>
            cases h
            have hbefore := ih hrest
            rw [hsame] at hbefore
            exact .resume hd hcause hraise hself.1 hlast hself.2 hbefore
          next => cases h
      next => cases h

def resumedIds (raises : List (Raise ε η)) : List String :=
  raises.map fun raise => raise.interrupt.id

/-- No other interrupt is resumed between two resumes of `i`. -/
def Unbroken (i : String) (ids : List String) : Prop :=
  ∃ later n earlier, ids = later ++ List.replicate n i ++ earlier ∧ i ∉ later ∧ i ∉ earlier

/-- A pause named `j` on the signal is taken, and can then be charged `m` times. -/
def FullBudget (s : Signal ε) (j : String) (m : Nat) : Prop :=
  ∀ (args : PauseArgs ε) (c : PauseContext ε), c.lastSignal = some s → args.interruptId = some j →
    normalizedResumeTo args = .self → args.maxResumes = some m →
      ∃ i, planInterrupt args c = some i ∧ i.resumeCount = 0 ∧
        ∀ n < m, chargedCount { i with resumeCount := n } = some (n + 1)

variable {args : PauseArgs ε} {i : Interrupt ε}

theorem planInterrupt_within {c : PauseContext ε}
    (h : planInterrupt args c = some i) (hself : i.resumeTo = .self) {m : Nat}
    (hm : i.maxResumes = some m) : i.resumeCount < m := by
  have hi := planInterrupt_eq_some h
  have hto : normalizedResumeTo args = .self := by rw [hi] at hself; exact hself
  have hmax : args.maxResumes = some m := by
    rw [hi] at hm
    simpa [plannedInterrupt, hto, ResumeTo.isSelf] using hm
  have hcount : i.resumeCount = c.resumeCount args := by
    rw [hi]
    simp [plannedInterrupt, hto, ResumeTo.isSelf]
  have hfree : selfResumeLimitReached args (c.resumeCount args) = false := by
    unfold planInterrupt at h
    split at h
    · cases h
    next hn => exact Bool.eq_false_iff.mpr hn
  rw [selfResumeLimitReached, hto, hmax] at hfree
  simp [ResumeTo.isSelf] at hfree
  omega

theorem planInterrupt_repause {c : PauseContext ε}
    {last : Signal ε} (h : planInterrupt args c = some i) (hself : i.resumeTo = .self)
    (hlast : c.lastSignal = some last)
    (hfrom : last.signalMeta.get? "interrupt_id" = some (.str i.id)) :
    i.resumeCount = countOfMeta last.signalMeta := by
  have hi := planInterrupt_eq_some h
  have hto : normalizedResumeTo args = .self := by rw [hi] at hself; exact hself
  have hid : i.id = args.interruptId.getD c.freshId := by rw [hi]; rfl
  have hcount : i.resumeCount = c.resumeCount args := by
    rw [hi]
    simp [plannedInterrupt, hto, ResumeTo.isSelf]
  rw [hid] at hfrom
  rw [hcount, PauseContext.resumeCount, hlast, selfResumeCount]
  simp only [Option.map_some, Option.getD_some]
  rw [hfrom]
  cases args.interruptId with
  | none => rfl
  | some k =>
    show (if Value.str k ≠ .none ∧ Value.str k ≠ .str k then 0 else _) = _
    rw [if_neg]
    intro hk
    exact hk.2 rfl

variable {s : Signal ε}

theorem fullBudget_of_other {i j : String} {m : Nat}
    (hfrom : s.signalMeta.get? "interrupt_id" = some (.str i)) (hj : j ≠ i) (hm : 0 < m) :
    FullBudget s j m := by
  intro args c hlast hid hself hmax
  have hcount : c.resumeCount args = 0 := by
    rw [PauseContext.resumeCount, hlast, hid, selfResumeCount, hid]
    simp only [Option.map_some, Option.getD_some]
    rw [hfrom]
    apply if_pos
    constructor
    · intro h
      cases h
    · intro h
      exact hj (Value.str.inj h).symm
  have hfree : selfResumeLimitReached args (c.resumeCount args) = false := by
    rw [hcount, selfResumeLimitReached, hmax]
    simp
    omega
  refine ⟨plannedInterrupt args c, ?_, ?_, ?_⟩
  · rw [planInterrupt, hfree]
    rfl
  · simp [plannedInterrupt, hcount]
  · intro n hn
    simp [chargedCount, plannedInterrupt, hself, hmax, ResumeTo.isSelf]
    omega

theorem selfResumeMeta_nodup (r : Resume ε) : (selfResumeMeta r).keys.Nodup := by
  cases hm : r.interrupt.maxResumes with
  | none =>
    simp only [selfResumeMeta, hm, resumeMeta, Dict.keys, List.map_cons, List.map_nil]
    decide
  | some m =>
    simp only [selfResumeMeta, hm, resumeMeta, Dict.keys, List.map_cons, List.map_nil]
    decide

variable {r : Resume ε}

theorem get?_selfResumeSignal {freshId : String} {source : Signal ε} {k : String}
    {v : Value} (hk : (selfResumeMeta r).get? k = some v) :
    (selfResumeSignal r freshId source).signalMeta.get? k = some v := by
  have hmem : k ∈ (selfResumeMeta r).keys := by
    by_contra hn
    rw [Dict.get?_eq_none_iff.mpr hn] at hk
    cases hk
  rw [← hk]
  show (mergeEntries source.signalMeta (selfResumeMeta r)).get? k = _
  rw [mergeEntries_eq_merge]
  exact Dict.get?_merge_of_mem (selfResumeMeta_nodup r) hmem

theorem selfResumeSignal_count (r : Resume ε) (freshId : String) (source : Signal ε) :
    countOfMeta (selfResumeSignal r freshId source).signalMeta = r.interrupt.resumeCount := by
  have hget : (selfResumeSignal r freshId source).signalMeta.get? selfResumeCountMetaKey =
      some (.int r.interrupt.resumeCount) := get?_selfResumeSignal rfl
  rw [countOfMeta, hget]
  exact Int.toNat_natCast _

theorem selfResumeSignal_id (r : Resume ε) (freshId : String) (source : Signal ε) :
    (selfResumeSignal r freshId source).signalMeta.get? "interrupt_id" =
      some (.str r.args.interruptId) := by
  apply get?_selfResumeSignal
  cases hm : r.interrupt.maxResumes with
  | none => simp only [selfResumeMeta, hm]; rfl
  | some m => simp only [selfResumeMeta, hm]; rfl

def CountedFrom (raises : List (Raise ε η)) (k : String) (i : Interrupt ε) : Prop :=
  i.id = k ∧ ∃ raise, raises[i.serial]? = some raise ∧ i.origin = raise.interrupt.origin ∧
    raise.interrupt.resumeCount ≤ i.resumeCount

variable {raises : List (Raise ε η)}

theorem countedFrom_of_origin (k : String) (i j : Interrupt ε)
    (h : j.origin = i.origin) (hle : i.resumeCount ≤ j.resumeCount) (hi : CountedFrom raises k i) :
    CountedFrom raises k j := by
  obtain ⟨hid, raise, hr, ho, hcount⟩ := hi
  have hserial : j.serial = i.serial := congrArg (fun k => k.serial) h
  have hj : j.id = i.id := congrArg (fun k => k.id) h
  exact ⟨hj.trans hid, raise, by rw [hserial]; exact hr, h.trans ho, hcount.trans hle⟩

theorem countedFrom_append {more : List (Raise ε η)} {k : String}
    (h : CountedFrom raises k i) : CountedFrom (raises ++ more) k i := by
  obtain ⟨hid, raise, hr, ho, hcount⟩ := h
  obtain ⟨hlen, -⟩ := List.getElem?_eq_some_iff.mp hr
  exact ⟨hid, raise, by rw [List.getElem?_append_left hlen]; exact hr, ho, hcount⟩

/-- The copy of a call that has charged a resume to the budget of the raise. -/
structure Charged (raise : Raise ε η) (r : Resume ε) : Prop where
  origin : r.interrupt.origin = raise.interrupt.origin
  id : r.args.interruptId = raise.interrupt.id
  counted : raise.interrupt.resumeTo = .self →
    raise.interrupt.resumeCount < r.interrupt.resumeCount
  within : raise.interrupt.resumeTo = .self → ∀ m, raise.interrupt.maxResumes = some m →
    r.interrupt.resumeCount ≤ m

def ChargedFrom (raises : List (Raise ε η)) (r : Resume ε) : Prop :=
  ∃ raise, raises[r.interrupt.serial]? = some raise ∧ Charged raise r

theorem chargedFrom_append {more : List (Raise ε η)}
    (h : ChargedFrom raises r) : ChargedFrom (raises ++ more) r := by
  obtain ⟨raise, hr, hcharged⟩ := h
  obtain ⟨hlen, -⟩ := List.getElem?_eq_some_iff.mp hr
  exact ⟨raise, by rw [List.getElem?_append_left hlen]; exact hr, hcharged⟩

theorem chargedFrom_same {r' : Resume ε} (h : SameCopy r r')
    (hr : ChargedFrom raises r) : ChargedFrom raises r' := by
  obtain ⟨raise, hget, ho, hid, hcounted, hwithin⟩ := hr
  have hserial : r'.interrupt.serial = r.interrupt.serial :=
    congrArg (fun k => k.serial) h.origin
  refine ⟨raise, by rw [hserial]; exact hget, h.origin.trans ho, ?_, ?_, ?_⟩
  · rw [h.args]
    exact hid
  · rw [h.count]
    exact hcounted
  · rw [h.count]
    exact hwithin

theorem chargedFrom_claim
    (hi : CountedFrom raises r.args.interruptId i) (ho : r.interrupt.origin = i.origin)
    (hc : chargedCount i = some r.interrupt.resumeCount) : ChargedFrom raises r := by
  obtain ⟨hid, raise, hget, horigin, hcount⟩ := hi
  have hserial : r.interrupt.serial = i.serial := congrArg (fun k => k.serial) ho
  have hiid : i.id = raise.interrupt.id := congrArg (fun k => k.id) horigin
  have hto : i.resumeTo = raise.interrupt.resumeTo := congrArg (fun k => k.resumeTo) horigin
  have hmax : i.maxResumes = raise.interrupt.maxResumes :=
    congrArg (fun k => k.maxResumes) horigin
  refine ⟨raise, by rw [hserial]; exact hget, ho.trans horigin, hid.symm.trans hiid, ?_, ?_⟩
  · intro hself
    obtain ⟨hone, -⟩ := charged_self hc (hto.trans hself)
    omega
  · intro hself m hm
    obtain ⟨-, hle⟩ := charged_self hc (hto.trans hself)
    exact hle m (hmax.trans hm)

def CallsSatisfy (Q : Resume ε → Prop) (p : Pool ε) : Prop :=
  ∀ (n : Nat) (t : ContinueTask ε), p.tasks[n]? = some (PoolTask.continueWith t) →
    ∀ r, t.record? = some r → Q r

theorem callsSatisfy_append_task {Q : Resume ε → Prop} {tasks : List (PoolTask ε)}
    (h : ∀ (n : Nat) (t : ContinueTask ε), tasks[n]? = some (PoolTask.continueWith t) →
      ∀ r, t.record? = some r → Q r)
    {t : PoolTask ε} (hc : ∀ c, t = .continueWith c → c.record? = none) :
    ∀ (n : Nat) (c : ContinueTask ε), (tasks ++ [t])[n]? = some (PoolTask.continueWith c) →
      ∀ r, c.record? = some r → Q r := by
  intro n c hn r hr
  rcases getElem?_concat hn with hn | hn
  · exact h n c hn r hr
  · rw [hc c hn.symm] at hr
    cases hr

section Calls

variable [DecidableEq ε]

theorem callsSatisfy_step {Q : Resume ε → Prop} {p q : Pool ε} {a : PoolAction ε}
    (hsame : ∀ r r', SameCopy r r' → Q r → Q r')
    (hclaim : ∀ i r, p.state.interrupts.get? r.args.interruptId = some i →
      r.interrupt.origin = i.origin → chargedCount i = some r.interrupt.resumeCount → Q r)
    (h : CallsSatisfy Q p) (ha : ∀ args c, a ≠ .pauseFor args c) (hq : poolStep p a = some q) :
    CallsSatisfy Q q := by
  cases a with
  | pauseFor args c => exact absurd rfl (ha args c)
  | continueWith args =>
    cases hq
    exact callsSatisfy_append_task h (by intro c hc; cases hc; rfl)
  | advance index o =>
    obtain ⟨x, hx, hadv⟩ := Option.bind_eq_some_iff.mp hq
    rcases advance_cases hadv with ⟨t, rfl, rfl⟩ | ⟨t, rfl, rfl⟩
    · intro n c hn r' hr'
      rcases getElem?_set_cases hn with ⟨-, hn⟩ | ⟨-, hn⟩
      · exact h n c hn r' hr'
      · cases hn
        rcases advanceContinue_record hr' with ⟨r, hr, hcopy⟩ | ⟨i, r, hi, ho, hc, hcopy⟩
        · exact hsame r r' hcopy (h index t hx r hr)
        · exact hsame r r' hcopy (hclaim i r hi ho hc)
    · intro n c hn r' hr'
      rcases getElem?_set_cases hn with ⟨-, hn⟩ | ⟨-, hn⟩
      · exact h n c hn r' hr'
      · cases hn
  | signal s | cancel reason | sealExecution =>
    cases hq
    exact h

end Calls

/-- A raise starts below its limit, and with the count of its signal when that was resumed
from the same interrupt. -/
structure StartsFrom (raise : Raise ε η) : Prop where
  below : raise.interrupt.resumeTo = .self → ∀ m, raise.interrupt.maxResumes = some m →
    raise.interrupt.resumeCount < m
  repause : raise.interrupt.resumeTo = .self → ∀ last, raise.lastSignal = some last →
    last.signalMeta.get? "interrupt_id" = some (.str raise.interrupt.id) →
      raise.interrupt.resumeCount = countOfMeta last.signalMeta

structure CountsKept (e : Execution ε η) : Prop where
  starts : ∀ raise ∈ e.raises, StartsFrom raise
  records : RecordsSatisfy (CountedFrom e.raises) e.pool
  calls : CallsSatisfy (ChargedFrom e.raises) e.pool
  resumed : ∀ d ∈ e.dispatches, ∀ call serial, d.cause = .resumed call serial →
    ∃ r freshId, r.interrupt.serial = serial ∧ ChargedFrom e.raises r ∧
      resumeDispatch r freshId = .signal d.signal

theorem countsKept_initial : CountsKept (Execution.initial : Execution ε η) where
  starts := by intro raise hr; cases hr
  records := recordsSatisfy_initial _
  calls := by intro n t h; simp [Execution.initial, Pool.initial] at h
  resumed := by intro d hd; cases hd

variable {flow : Flow ε η} {e' : Execution ε η}

theorem countsKept_pauseFrom {inv : Invocation ε η}
    {now : Nat} {freshId : String} (hkept : RaisesKept e) (h : CountsKept e)
    (he : pauseFrom flow e inv args now freshId = some e') : CountsKept e' := by
  rcases pauseFrom_cases he with rfl | ⟨i, hplan, rfl⟩
  · exact ⟨h.starts, recordsSatisfy_append_task h.records (by intro c hc; cases hc)
      (by intro e phase i hi; cases hi) _ _,
      callsSatisfy_append_task h.calls (by intro c hc; cases hc), h.resumed⟩
  · have hserial : i.serial = e.raises.length := by
      rw [hkept.count, planInterrupt_eq_some hplan]
      rfl
    have hnew : CountedFrom (e.raises ++ [raiseOf e inv i]) i.id i := by
      refine ⟨rfl, raiseOf e inv i, ?_, rfl, le_rfl⟩
      rw [hserial]
      exact List.getElem?_concat_length
    have hold : RecordsSatisfy (CountedFrom (e.raises ++ [raiseOf e inv i])) e.pool :=
      recordsSatisfy_mono h.records fun k j hj => countedFrom_append hj
    refine ⟨?_, ?_, ?_, ?_⟩
    · intro raise hr
      rcases List.mem_append.mp hr with hr | hr
      · exact h.starts raise hr
      · rw [List.mem_singleton.mp hr]
        exact ⟨fun hself m hm => planInterrupt_within hplan hself hm,
          fun hself last hlast hfrom => planInterrupt_repause hplan hself hlast hfrom⟩
    · exact recordsSatisfy_append_task hold (by intro c hc; cases hc)
        (by intro ex phase j hj; cases hj; exact ⟨rfl, hnew⟩) _ _
    · apply callsSatisfy_append_task
      · intro n t hn r hr
        exact chargedFrom_append (h.calls n t hn r hr)
      · intro c hc
        cases hc
    · intro d hd call serial hcause
      obtain ⟨r, freshId, hr, hcharged, hs⟩ := h.resumed d hd call serial hcause
      exact ⟨r, freshId, hr, chargedFrom_append hcharged, hs⟩

theorem resumeDispatches_charged (h : CountsKept e) {index : Nat}
    {freshId : String} {o : AwaitResult} {d : Dispatch ε η}
    (hd : d ∈ resumeDispatches e index freshId o) {call serial : Nat}
    (hcause : d.cause = .resumed call serial) :
    ∃ r freshId, r.interrupt.serial = serial ∧ ChargedFrom e.raises r ∧
      resumeDispatch r freshId = .signal d.signal := by
  unfold resumeDispatches at hd
  split at hd
  next r htask =>
    split at hd
    next s hs =>
      rw [List.mem_singleton.mp hd] at hcause ⊢
      cases hcause
      exact ⟨r, freshId, rfl, h.calls index _ htask r rfl, hs⟩
    next => cases hd
  next => cases hd

variable [DecidableEq ε]

theorem callsSatisfy_writes (h : CountsKept e) (hw : StepWrites e e') :
    CallsSatisfy (ChargedFrom e.raises) e'.pool := by
  rcases hw.pool with ⟨status, hpool⟩ | ⟨a, ha, hpool⟩
  · rw [hpool]
    exact h.calls
  · refine callsSatisfy_step (fun r r' hcopy hr => chargedFrom_same hcopy hr) ?_ h.calls ha hpool
    intro i r hi ho hc
    exact chargedFrom_claim (h.records.ledger _ (Dict.mem_of_get? hi)) ho hc

variable [DecidableEq η]

theorem countsKept_step {a : ExecutionAction ε η}
    (hkept : RaisesKept e) (h : CountsKept e) (he : executionStep flow e a = some e') :
    CountsKept e' := by
  by_cases ha : ∃ n args now freshId, a = .pauseFor n args now freshId
  · obtain ⟨n, args, now, freshId, rfl⟩ := ha
    obtain ⟨inv, hinv, hpause⟩ := Option.bind_eq_some_iff.mp he
    split at hpause
    · exact countsKept_pauseFrom hkept h hpause
    · cases hpause
  · have hw := executionStep_writes
      (fun n args now freshId hn => ha ⟨n, args, now, freshId, hn⟩) he
    obtain ⟨hrec, -⟩ := recordsSatisfy_writes countedFrom_of_origin h.records hw
    have hcalls := callsSatisfy_writes h hw
    refine ⟨?_, ?_, ?_, ?_⟩
    · rw [hw.raises]
      exact h.starts
    · rw [hw.raises]
      exact hrec
    · rw [hw.raises]
      exact hcalls
    · rw [hw.raises]
      intro d' hd' call serial hcause
      rcases hw.dispatches d' hd' with ⟨d, hd, hc, hs⟩ | hemitted | ⟨index, freshId, o, hd⟩
      · rw [hs]
        exact h.resumed d hd call serial (hc.symm.trans hcause)
      · rw [hemitted] at hcause
        cases hcause
      · exact resumeDispatches_charged h hd hcause

omit [DecidableEq ε] [DecidableEq η] in
theorem selfResume_counts (hkept : RaisesKept e) (h : CountsKept e)
    {d : Dispatch ε η} (hd : d ∈ e.dispatches) {call serial : Nat} {raise : Raise ε η}
    (hcause : d.cause = .resumed call serial) (hraise : e.raises[serial]? = some raise)
    (hself : raise.interrupt.resumeTo = .self) :
    raise.interrupt.resumeCount < countOfMeta d.signal.signalMeta ∧
      (∀ m, raise.interrupt.maxResumes = some m → countOfMeta d.signal.signalMeta ≤ m) ∧
      d.signal.signalMeta.get? "interrupt_id" = some (.str raise.interrupt.id) := by
  obtain ⟨r, freshId, hserial, ⟨raise', hr, hcharged⟩, hs⟩ := h.resumed d hd call serial hcause
  rw [hserial] at hr
  have he : raise' = raise := Option.some.inj (hr.symm.trans hraise)
  subst he
  obtain ⟨last, -, hsignal⟩ :=
    resumeDispatch_self hkept (List.mem_of_getElem? hraise) hself hcharged.origin hs
  rw [hsignal, selfResumeSignal_count, selfResumeSignal_id, hcharged.id]
  exact ⟨hcharged.counted hself, hcharged.within hself, rfl⟩

omit [DecidableEq ε] [DecidableEq η] in
theorem resumedAlong_drop {handler : η}
    {later earlier : List (Raise ε η)} (h : ResumedAlong e handler s (later ++ earlier)) :
    ∃ s', ResumedAlong e handler s' earlier := by
  induction later generalizing s with
  | nil => exact ⟨s, h⟩
  | cons raise later ih =>
    cases h with
    | resume hd hcause hraise hself hlast hentered hbefore => exact ih hbefore

omit [DecidableEq ε] [DecidableEq η] in
theorem resumes_le_count (hkept : RaisesKept e) (h : CountsKept e)
    {handler : η} {i : String} {raise : Raise ε η} {recent earlier : List (Raise ε η)}
    (hchain : ResumedAlong e handler s (raise :: recent ++ earlier))
    (hids : ∀ x ∈ raise :: recent, x.interrupt.id = i) :
    (raise :: recent).length ≤ countOfMeta s.signalMeta ∧
      (∀ m, raise.interrupt.maxResumes = some m → countOfMeta s.signalMeta ≤ m) ∧
      s.signalMeta.get? "interrupt_id" = some (.str i) := by
  induction recent generalizing s raise with
  | nil =>
    cases hchain with
    | resume hd hcause hraise hself hlast hentered hbefore =>
      obtain ⟨hlt, hle, hid⟩ :=
        selfResume_counts hkept h (List.mem_of_getElem? hd) hcause hraise hself
      rw [hids raise List.mem_cons_self] at hid
      refine ⟨?_, hle, hid⟩
      simp only [List.length_cons, List.length_nil]
      omega
  | cons before recent ih =>
    cases hchain with
    | resume hd hcause hraise hself hlast hentered hbefore =>
      obtain ⟨hlt, hle, hid⟩ :=
        selfResume_counts hkept h (List.mem_of_getElem? hd) hcause hraise hself
      have hi := hids raise List.mem_cons_self
      obtain ⟨hlen, -, hfrom⟩ := ih hbefore (List.forall_mem_cons.mp hids).2
      have hstart := (h.starts raise (List.mem_of_getElem? hraise)).repause hself _ hlast
        (by rw [hi]; exact hfrom)
      rw [hi] at hid
      refine ⟨?_, hle, hid⟩
      simp only [List.length_cons] at hlen ⊢
      omega

omit [DecidableEq ε] [DecidableEq η] in
theorem resumedIds_eq_replicate {n : Nat} {i : String}
    (h : resumedIds raises = List.replicate n i) :
    raises.length = n ∧ ∀ raise ∈ raises, raise.interrupt.id = i := by
  constructor
  · have hlen := congrArg List.length h
    simpa [resumedIds] using hlen
  · intro raise hr
    have hm : raise.interrupt.id ∈ resumedIds raises := List.mem_map_of_mem hr
    rw [h] at hm
    exact List.eq_of_mem_replicate hm

omit [DecidableEq ε] [DecidableEq η] in
theorem unbroken_count_le (hkept : RaisesKept e) (h : CountsKept e) {handler : η}
    (hchain : ResumedAlong e handler s raises) {i : String} {m : Nat}
    (hmax : ∀ raise ∈ raises, raise.interrupt.id = i → raise.interrupt.maxResumes = some m)
    (hrow : Unbroken i (resumedIds raises)) : (resumedIds raises).count i ≤ m := by
  obtain ⟨later, n, earlier, hids, hlater, hearlier⟩ := hrow
  have hcount : (resumedIds raises).count i = n := by
    rw [hids, List.count_append, List.count_append, List.count_replicate_self,
      List.count_eq_zero.mpr hlater, List.count_eq_zero.mpr hearlier]
    omega
  obtain ⟨front, old, rfl, hfront, -⟩ := List.map_eq_append_iff.mp hids
  obtain ⟨new, row, rfl, -, hrow⟩ := List.map_eq_append_iff.mp hfront
  obtain ⟨hlen, hall⟩ := resumedIds_eq_replicate hrow
  rw [hcount]
  cases row with
  | nil =>
    rw [← hlen]
    exact Nat.zero_le m
  | cons raise recent =>
    rw [List.append_assoc] at hchain
    obtain ⟨s', hrest⟩ := resumedAlong_drop hchain
    obtain ⟨hle, hbound, -⟩ := resumes_le_count hkept h hrest hall
    have hm := hbound m (hmax raise (by simp) (hall raise List.mem_cons_self))
    omega

theorem kept_run {as : List (ExecutionAction ε η)}
    (hrun : (execution flow).run Execution.initial as = some e) : RaisesKept e ∧ CountsKept e := by
  have hstep : ∀ x a y, RaisesKept x ∧ CountsKept x → (execution flow).step x a = some y →
      RaisesKept y ∧ CountsKept y := by
    intro x a y hx hs
    exact ⟨raisesKept_step hx.1 hs, countsKept_step hx.1 hx.2 hs⟩
  exact (execution flow).run_invariant hstep ⟨raisesKept_initial, countsKept_initial⟩ hrun

/-- In every run and along every signal: as long as no other interrupt is resumed between
two resumes of `i`, a handler is re-entered by resumes of `i` at most as often as its limit
allows; and a pause under another name, raised on a resume of `i`, has its full budget. -/
theorem self_resume_budget {flow : Flow ε η} {as : List (ExecutionAction ε η)}
    {e : Execution ε η} (hrun : (execution flow).run Execution.initial as = some e) {handler : η}
    {s : Signal ε} {raises : List (Raise ε η)} (hchain : ResumedAlong e handler s raises)
    (i : String) :
    (∀ m, (∀ raise ∈ raises, raise.interrupt.id = i → raise.interrupt.maxResumes = some m) →
      Unbroken i (resumedIds raises) → (resumedIds raises).count i ≤ m) ∧
    ((resumedIds raises).head? = some i → ∀ j m, j ≠ i → 0 < m → FullBudget s j m) := by
  obtain ⟨hkept, hcounts⟩ := kept_run hrun
  constructor
  · intro m hmax hrow
    exact unbroken_count_le hkept hcounts hchain hmax hrow
  · intro hhead j m hj hm
    cases hchain with
    | origin => cases hhead
    | resume hd hcause hraise hself hlast hentered hbefore =>
      obtain ⟨-, -, hid⟩ :=
        selfResume_counts hkept hcounts (List.mem_of_getElem? hd) hcause hraise hself
      have hi := Option.some.inj hhead
      exact fullBudget_of_other (hi ▸ hid) hj hm

/-- The handler run `n` pauses under the name `id` and ends, and the pause is continued; the
call dispatches its signal as number `n + 1`, which re-enters the handler. -/
def pauseAndResume (n : Nat) (id : String) : List (ExecutionAction String String) :=
  .pauseFor n { interruptId := some id, resumeTo := some .self } n "" ::
    List.replicate 7 (.advance (2 * n) .ok "") ++
    [.endHandler n, .advanceDispatch n] ++
    .continueWith { interruptId := id } ::
    List.replicate 3 (.advance (2 * n + 1) .ok "") ++
    List.replicate 4 (.advanceDispatch (n + 1))

/-- `review` is invoked for `Start` and pauses under each of the names in turn. -/
def gateRun (ids : List String) : List (ExecutionAction String String) :=
  .emit startSignal :: List.replicate 4 (.advanceDispatch 0) ++
    (ids.zipIdx.map fun p => pauseAndResume p.2 p.1).flatten

def gated (ids : List String) : Execution String String :=
  ((execution reviewFlow).run Execution.initial (gateRun ids)).getD Execution.initial

theorem gated_run {ids : List String}
    (h : ((execution reviewFlow).run Execution.initial (gateRun ids)).isSome) :
    (execution reviewFlow).run Execution.initial (gateRun ids) = some (gated ids) := by
  obtain ⟨e, he⟩ := Option.isSome_iff_exists.mp h
  rw [gated, he]
  rfl

def gateChain (ids : List String) : Signal String × List (Raise String String) :=
  (resumeChain (gated ids) "review" (List.range' 1 ids.length).reverse).getD (startSignal, [])

theorem gateChain_along {ids : List String}
    (h : (resumeChain (gated ids) "review" (List.range' 1 ids.length).reverse).isSome) :
    ResumedAlong (gated ids) "review" (gateChain ids).1 (gateChain ids).2 := by
  obtain ⟨chain, hchain⟩ := Option.isSome_iff_exists.mp h
  have hget : gateChain ids = chain := by rw [gateChain, hchain]; rfl
  rw [hget]
  exact resumeChain_sound hchain

theorem alternating_gates_reset_budget :
    ¬ ∀ (flow : Flow String String) as e, (execution flow).run Execution.initial as = some e →
      ∀ handler s raises, ResumedAlong e handler s raises → ∀ i m,
        (∀ raise ∈ raises, raise.interrupt.id = i → raise.interrupt.maxResumes = some m) →
          (resumedIds raises).count i ≤ m := by
  intro h
  have htwo := h reviewFlow _ _ (gated_run (by decide +kernel)) "review" _ _
    (@gateChain_along ["plan", "permission", "plan"] (by decide +kernel)) "plan" 1
    (by decide +kernel)
  exact absurd htwo (by decide +kernel)

theorem two_gates_keep_budget :
    (resumedIds (gateChain ["plan", "permission"]).2).count "permission" ≤ 1 ∧
      FullBudget (gateChain ["plan", "permission"]).1 "plan" 1 :=
  have hbudget := @self_resume_budget String String _ _ reviewFlow _ _
    (gated_run (by decide +kernel)) "review" _ _
    (@gateChain_along ["plan", "permission"] (by decide +kernel)) "permission"
  ⟨hbudget.1 1 (by decide +kernel) ⟨[], 1, ["plan"], by decide +kernel, by decide, by decide⟩,
    hbudget.2 (by decide +kernel) "plan" 1 (by decide) (by decide)⟩

end Agently.TriggerFlow
