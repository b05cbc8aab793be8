import Agently.TriggerFlow.PoolRecords

/-! # The waiting status

Source: `TriggerFlow/ExecutionInterrupts.py`. `pause_for` and `continue_with` write the status as a
constant beside the entry they write; `refresh_waiting_status` recomputes it at the end of a
`continue_with` that does not raise. -/

namespace Agently.TriggerFlow

open Agently.Lib Agently.Utils

variable {ε : Type}

/-- A step of the pool, or a handler that raises: its dispatch marks the execution failed. -/
inductive StatusAction (ε : Type) where
  | pool (a : PoolAction ε)
  | fail

def statusStep [DecidableEq ε] (p : Pool ε) : StatusAction ε → Option (Pool ε)
  | .pool a => poolStep p a
  | .fail => some { p with state := { p.state with status := .failed } }

def statusPool (ε : Type) [DecidableEq ε] : Machine (Pool ε) (StatusAction ε) := ⟨statusStep⟩

def PoolTask.isDone : PoolTask ε → Bool
  | .continueWith (.finished _ _) => true
  | .pauseFor (.finished _) => true
  | _ => false

def Pool.Quiescent (p : Pool ε) : Prop := ∀ t ∈ p.tasks, t.isDone = true

instance (p : Pool ε) : Decidable p.Quiescent :=
  inferInstanceAs (Decidable (∀ t ∈ p.tasks, t.isDone = true))

def StatusAgrees (st : InterruptState ε) : Prop :=
  st.status = .failed ∨ st.status = .cancelled ∨
    (st.status = .waiting ↔ hasPendingInterrupts st = true)

instance (st : InterruptState ε) : Decidable (StatusAgrees st) :=
  inferInstanceAs (Decidable (_ ∨ _ ∨ _))

def ContinuePhase.isUnsettled : ContinuePhase → Bool
  | .executionResumed | .streamPut | .dispatching | .requestCompleted => true
  | .requestAccepted | .requestDispatched | .requestFailed => false

def PoolTask.isUnsettled : PoolTask ε → Bool
  | .continueWith (.resuming phase _) => phase.isUnsettled
  | _ => false

def Compensated (st : InterruptState ε) (r : Resume ε) : Prop :=
  r.args.resumeRequestId.isSome ∧ r.request.isSome ∧
    ((st.interrupts.get? r.args.interruptId).any fun i =>
      decide (i.createdAt = r.interrupt.createdAt ∨ i.status = .waiting)) = true

instance (st : InterruptState ε) (r : Resume ε) : Decidable (Compensated st r) :=
  inferInstanceAs (Decidable (_ ∧ _ ∧ _))

/-- An interrupt waits once the pause of `interruptId` is rolled back to `previous`. -/
def WaitsWithout (st : InterruptState ε) (interruptId : String) (previous : Option (Interrupt ε)) :
    Prop :=
  (previous.any fun i => decide (i.status = .waiting)) = true ∨
    ∃ e ∈ st.interrupts, e.1 ≠ interruptId ∧ e.2.status = .waiting

instance (st : InterruptState ε) (k : String) (previous : Option (Interrupt ε)) :
    Decidable (WaitsWithout st k previous) :=
  inferInstanceAs (Decidable (_ ∨ _))

/-- The task can raise here: a `continue_with` that has set the status puts its entry back
or finds the status right, and a pause returns to waiting only beside a waiting interrupt. -/
def RaiseSettles (st : InterruptState ε) : PoolTask ε → Prop
  | .continueWith (.resuming phase r) =>
    phase.isUnsettled = true → (phase = .dispatching ∧ Compensated st r) ∨ StatusAgrees st
  | .pauseFor (.pausing _ (.persisting previous previousStatus) i) =>
    ownsWaitingPauseBoundary (st.interrupts.get? i.id) i = true → previousStatus = .waiting →
      WaitsWithout st i.id previous
  | _ => True

instance (st : InterruptState ε) (t : PoolTask ε) : Decidable (RaiseSettles st t) := by
  unfold RaiseSettles
  split <;> infer_instance

def SettlesStatus (p : Pool ε) : StatusAction ε → Prop
  | .pool (.advance index (.raised _)) =>
    (∃ t ∈ p.tasks.eraseIdx index, t.isUnsettled = true) ∨
      ∀ t ∈ p.tasks[index]?, RaiseSettles p.state t
  | _ => True

instance (p : Pool ε) (a : StatusAction ε) : Decidable (SettlesStatus p a) := by
  unfold SettlesStatus
  split <;> infer_instance

variable {st : InterruptState ε}

theorem hasPending_iff :
    hasPendingInterrupts st = true ↔ ∃ e ∈ st.interrupts, e.2.status = .waiting := by
  unfold hasPendingInterrupts Dict.vals
  simp

theorem statusAgrees_of_waiting (hs : st.status = .waiting)
    {e : String × Interrupt ε} (he : e ∈ st.interrupts) (hw : e.2.status = .waiting) :
    StatusAgrees st :=
  .inr (.inr (iff_of_true hs (hasPending_iff.mpr ⟨e, he, hw⟩)))

variable {i : Interrupt ε}

theorem store_waiting_agrees (st : InterruptState ε) (k : String)
    (hw : i.status = .waiting) : StatusAgrees (atomicStoreInterrupt st k i (some .waiting)) :=
  statusAgrees_of_waiting rfl (Dict.mem_of_get? (get?_atomicStore st k i _)) hw

theorem refreshWaitingStatus_agrees (st : InterruptState ε) :
    StatusAgrees (refreshWaitingStatus st) := by
  have hsame : hasPendingInterrupts (refreshWaitingStatus st) = hasPendingInterrupts st := by
    unfold hasPendingInterrupts
    rw [refreshWaitingStatus_interrupts]
  refine .inr (.inr ?_)
  rw [hsame]
  unfold refreshWaitingStatus
  by_cases hp : hasPendingInterrupts st = true
  · rw [if_pos hp]
    exact iff_of_true rfl hp
  · rw [if_neg hp]
    by_cases hw : st.status = .waiting
    · rw [if_pos hw]
      exact iff_of_false Status.noConfusion hp
    · rw [if_neg hw]
      exact iff_of_false hw hp

theorem applyLocalEnvelope_agrees (h : StatusAgrees st) (i : Interrupt ε) :
    StatusAgrees (applyLocalEnvelope st i) := by
  unfold applyLocalEnvelope atomicMutateInterrupt
  split
  · exact h
  next stored _ =>
    split
    · exact h
    next hwaits =>
      have hw : stored.status = .waiting := by simpa using hwaits
      exact store_waiting_agrees st i.id hw

theorem resumeForSignal_agrees [DecidableEq ε] (h : StatusAgrees st)
    (s : Signal ε) : StatusAgrees (resumeForSignal st s) := by
  unfold resumeForSignal
  split
  · exact h
  · split
    · exact refreshWaitingStatus_agrees _
    · exact h

theorem cancelPending_agrees (h : StatusAgrees st) (reason : String) :
    StatusAgrees (cancelPendingInterrupts st reason) := by
  unfold cancelPendingInterrupts
  split
  · exact .inr (.inl rfl)
  · exact h

theorem restored_agrees {restored : Ledger ε} {previousStatus : Status}
    (h : previousStatus = .waiting →
      (restored.vals.any fun j => decide (j.status = .waiting)) = true) :
    StatusAgrees (writeInterruptState st restored
      (some (if restored.vals.any fun j => decide (j.status = .waiting) then .waiting
        else previousStatus))) := by
  refine .inr (.inr ?_)
  show (if restored.vals.any fun j => decide (j.status = .waiting) then Status.waiting
    else previousStatus) = .waiting ↔
      (restored.vals.any fun j => decide (j.status = .waiting)) = true
  by_cases hany : (restored.vals.any fun j => decide (j.status = .waiting)) = true
  · rw [if_pos hany]
    exact iff_of_true rfl hany
  · rw [if_neg hany]
    exact iff_of_false (fun hs => hany (h hs)) hany

theorem rollbackPause_agrees (h : StatusAgrees st)
    {previous : Option (Interrupt ε)} {previousStatus : Status}
    (hraise : ownsWaitingPauseBoundary (st.interrupts.get? i.id) i = true →
      previousStatus = .waiting → WaitsWithout st i.id previous) :
    StatusAgrees (rollbackPause st i previous previousStatus) := by
  unfold rollbackPause
  split
  next howns =>
    refine restored_agrees fun hprev => ?_
    rw [List.any_eq_true]
    rcases hraise howns hprev with hwaits | ⟨e, he, hne, hw⟩
    · obtain ⟨p, rfl, hp⟩ := (Option.any_eq_true _ _).mp hwaits
      have hin : (i.id, p) ∈ st.interrupts.set i.id p :=
        Dict.mem_of_get? (Dict.get?_set_self st.interrupts i.id p)
      exact ⟨p, List.mem_map_of_mem hin, hp⟩
    · refine ⟨e.2, List.mem_map_of_mem ?_, decide_eq_true hw⟩
      cases previous with
      | none => exact List.mem_filter.mpr ⟨he, decide_eq_true hne⟩
      | some p => exact Dict.mem_set_of_ne he hne
  next => exact h

theorem store_same_agrees (h : StatusAgrees st) {k : String}
    {old new : Interrupt ε} (hk : st.interrupts.get? k = some old)
    (hsame : new.status = old.status) :
    StatusAgrees (writeInterruptState st (st.interrupts.set k new) none) := by
  have hpending : hasPendingInterrupts (writeInterruptState st (st.interrupts.set k new) none) =
      hasPendingInterrupts st := by
    have hcount := Dict.countP_vals_set (fun i : Interrupt ε => decide (i.status = .waiting))
      st.interrupts k new
    rw [hk, Option.any_some, hsame] at hcount
    rw [Bool.eq_iff_iff]
    unfold hasPendingInterrupts
    rw [List.any_eq_true, List.any_eq_true, ← List.countP_pos_iff, ← List.countP_pos_iff]
    show 0 < (st.interrupts.set k new).vals.countP _ ↔ _
    omega
  unfold StatusAgrees
  rw [hpending]
  exact h

def PoolTask.Held : PoolTask ε → Prop
  | .continueWith (.resuming .requestAccepted r) => r.interrupt.status = .waiting
  | .pauseFor (.pausing _ _ i) => i.status = .waiting
  | _ => True

variable {r : Resume ε}

theorem dispatchRequest_agrees (st : InterruptState ε) (hw : r.interrupt.status = .waiting) :
    (PoolTask.continueWith (dispatchRequest st r).2).isUnsettled = true ∨
      StatusAgrees (dispatchRequest st r).1 := by
  unfold dispatchRequest
  split
  · refine .inr (store_waiting_agrees st _ ?_)
    unfold markDispatched
    split
    · exact hw
    · exact hw
  · exact .inl rfl

theorem enterContinue_agrees (h : StatusAgrees st) (args : ContinueArgs) :
    (PoolTask.continueWith (enterContinue st args).2).isUnsettled = true ∨
      StatusAgrees (enterContinue st args).1 := by
  unfold enterContinue
  split
  · exact .inr h
  · split
    · exact .inr h
    · exact .inr h
    next r hclaim =>
      obtain ⟨-, -, -, -, -, hw, -⟩ := claim_spec hclaim
      exact .inr (store_waiting_agrees st _ hw)
    next r hclaim =>
      obtain ⟨-, -, -, -, -, hw, -⟩ := claim_spec hclaim
      exact dispatchRequest_agrees _ hw

theorem failStored_waiting (rid : String) (record : ResumeRequest) (error : String)
    {stored : Interrupt ε}
    (h : stored.createdAt = r.interrupt.createdAt ∨ stored.status = .waiting) :
    (failStored r rid record error stored).status = .waiting := by
  unfold failStored
  split
  · rfl
  next hne => exact h.resolve_left hne

theorem abortDispatch_agrees (h : Compensated st r ∨ StatusAgrees st) (error : String) :
    StatusAgrees (abortDispatch st r error).1 := by
  unfold abortDispatch failDispatch
  cases hrid : r.args.resumeRequestId with
  | none =>
    rcases h with ⟨hc, -, -⟩ | h
    · rw [hrid] at hc
      cases hc
    · exact h
  | some rid =>
    cases hreq : r.request with
    | none =>
      rcases h with ⟨-, hc, -⟩ | h
      · rw [hreq] at hc
        cases hc
      · exact h
    | some record =>
      simp only
      cases hget : st.interrupts.get? r.args.interruptId with
      | none =>
        have hagree : StatusAgrees st := by
          rcases h with ⟨-, -, hc⟩ | h
          · rw [hget] at hc
            cases hc
          · exact h
        unfold atomicMutateInterrupt
        rw [hget]
        exact hagree
      | some stored =>
        rw [atomicMutate_eq hget, Option.any_some]
        by_cases hback : stored.createdAt = r.interrupt.createdAt ∨ stored.status = .waiting
        · rw [if_pos (by simpa using hback)]
          refine store_waiting_agrees st _ ?_
          exact failStored_waiting rid _ error hback
        · have hagree : StatusAgrees st := by
            rcases h with ⟨-, -, hc⟩ | h
            · rw [hget, Option.any_some] at hc
              exact absurd (of_decide_eq_true hc) hback
            · exact h
          rw [if_neg (by simpa using hback)]
          refine store_same_agrees hagree hget ?_
          unfold failStored
          rw [if_neg fun hc => hback (.inl hc)]

theorem finishDispatch_agrees (st : InterruptState ε) (r : Resume ε) :
    (PoolTask.continueWith (finishDispatch st r).2).isUnsettled = true ∨
      StatusAgrees (finishDispatch st r).1 := by
  unfold finishDispatch
  split
  · exact .inl rfl
  · exact .inr (refreshWaitingStatus_agrees _)

variable {o : AwaitResult}

theorem advanceContinue_agrees {t : ContinueTask ε} (hheld : (PoolTask.continueWith t).Held)
    (h : (PoolTask.continueWith t).isUnsettled = true ∨ StatusAgrees st)
    (hraise : ∀ error, o = .raised error → RaiseSettles st (.continueWith t)) :
    (PoolTask.continueWith (advanceContinue st t o).2).isUnsettled = true ∨
      StatusAgrees (advanceContinue st t o).1 := by
  cases t with
  | entering args =>
    have hagree := h.resolve_left Bool.false_ne_true
    cases o with
    | ok => exact enterContinue_agrees hagree args
    | raised error => exact .inr hagree
  | finished args outcome => exact .inr (h.resolve_left Bool.false_ne_true)
  | resuming phase r =>
    cases o with
    | ok =>
      cases phase with
      | requestAccepted => exact dispatchRequest_agrees st hheld
      | requestDispatched => exact .inl rfl
      | executionResumed => exact .inl rfl
      | streamPut => exact .inl rfl
      | dispatching => exact finishDispatch_agrees st r
      | requestFailed => exact .inr (h.resolve_left Bool.false_ne_true)
      | requestCompleted => exact .inr (refreshWaitingStatus_agrees st)
    | raised error =>
      have hsettles := hraise error rfl
      cases phase with
      | requestAccepted => exact .inr (h.resolve_left Bool.false_ne_true)
      | requestDispatched => exact .inr (h.resolve_left Bool.false_ne_true)
      | requestFailed => exact .inr (h.resolve_left Bool.false_ne_true)
      | dispatching =>
        exact .inr (abortDispatch_agrees ((hsettles rfl).imp_left fun hc => hc.2) error)
      | executionResumed =>
        exact .inr ((hsettles rfl).resolve_left fun hc => nomatch hc.1)
      | streamPut => exact .inr ((hsettles rfl).resolve_left fun hc => nomatch hc.1)
      | requestCompleted => exact .inr ((hsettles rfl).resolve_left fun hc => nomatch hc.1)

theorem advancePause_agrees {t : PauseTask ε}
    (hheld : (PoolTask.pauseFor t).Held) (h : StatusAgrees st)
    (hraise : ∀ error, o = .raised error → RaiseSettles st (.pauseFor t)) :
    StatusAgrees (advancePause st t o).1 := by
  cases t with
  | finished raised => exact h
  | pausing explicit phase i =>
    have hw : i.status = .waiting := hheld
    cases o with
    | ok =>
      cases phase with
      | planned => exact store_waiting_agrees st _ hw
      | publishing => exact applyLocalEnvelope_agrees h _
      | streamPut => exact applyLocalEnvelope_agrees h _
      | _ => exact h
    | raised error =>
      cases phase with
      | persisting previous previousStatus => exact rollbackPause_agrees h (hraise error rfl)
      | publishing => exact applyLocalEnvelope_agrees h _
      | _ => exact h

theorem advanceContinue_held (st : InterruptState ε) (t : ContinueTask ε) (o : AwaitResult) :
    (PoolTask.continueWith (advanceContinue st t o).2).Held := by
  cases hnext : (advanceContinue st t o).2 with
  | entering args => trivial
  | finished args outcome => trivial
  | resuming phase r =>
    cases phase with
    | requestAccepted =>
      obtain ⟨args, hclaim⟩ := advanceContinue_accepted_claim hnext
      obtain ⟨-, -, -, -, -, hw, -⟩ := claim_spec hclaim
      exact hw
    | _ => trivial

theorem goOnIfOwned_held {explicit : Bool} {next : PausePhase ε} (hw : i.status = .waiting) :
    (PoolTask.pauseFor (goOnIfOwned st explicit next i)).Held := by
  unfold goOnIfOwned
  split
  · exact hw
  · trivial

theorem advancePause_held (st : InterruptState ε) (t : PauseTask ε) (o : AwaitResult)
    (hheld : (PoolTask.pauseFor t).Held) : (PoolTask.pauseFor (advancePause st t o).2).Held := by
  cases t with
  | finished raised => trivial
  | pausing explicit phase i =>
    have hw : i.status = .waiting := hheld
    cases o with
    | ok =>
      cases phase with
      | persisting previous previousStatus => exact goOnIfOwned_held hw
      | persistedNotice => exact goOnIfOwned_held hw
      | exposureFailed => trivial
      | exposedNotice => trivial
      | _ => exact hw
    | raised error =>
      cases phase with
      | publishing => exact hw
      | _ => trivial

/-- Some call is yet to refresh the status, or the status agrees with the ledger. -/
structure StatusInvariant (p : Pool ε) : Prop where
  held : ∀ t ∈ p.tasks, t.Held
  settled : (∃ t ∈ p.tasks, t.isUnsettled = true) ∨ StatusAgrees p.state

theorem statusInvariant_initial : StatusInvariant (Pool.initial : Pool ε) where
  held := List.forall_mem_nil _
  settled := .inr (.inr (.inr (iff_of_false Status.noConfusion Bool.false_ne_true)))

theorem unsettled_set {tasks : List (PoolTask ε)} {index : Nat} (x : PoolTask ε)
    (h : ∃ t ∈ tasks.eraseIdx index, t.isUnsettled = true) :
    ∃ t ∈ tasks.set index x, t.isUnsettled = true := by
  obtain ⟨t, ht, hu⟩ := h
  obtain ⟨j, hj, hget⟩ := List.mem_eraseIdx_iff_getElem?.mp ht
  exact ⟨t, List.mem_of_getElem? ((List.getElem?_set_ne (Ne.symm hj)).trans hget), hu⟩

theorem unsettled_split {tasks : List (PoolTask ε)} {index : Nat} {x : PoolTask ε}
    (hx : tasks[index]? = some x) (h : ∃ t ∈ tasks, t.isUnsettled = true) :
    x.isUnsettled = true ∨ ∃ t ∈ tasks.eraseIdx index, t.isUnsettled = true := by
  obtain ⟨t, ht, hu⟩ := h
  obtain ⟨j, hget⟩ := List.getElem?_of_mem ht
  by_cases hj : j = index
  · subst hj
    obtain rfl : x = t := Option.some.inj (hx.symm.trans hget)
    exact .inl hu
  · exact .inr ⟨t, List.mem_eraseIdx_iff_getElem?.mpr ⟨j, hj, hget⟩, hu⟩

theorem statusInvariant_advance {p q : Pool ε} {index : Nat} {x : PoolTask ε}
    (h : StatusInvariant p) (hx : p.tasks[index]? = some x)
    (hc : SettlesStatus p (.pool (.advance index o))) (hq : advanceTask p index o x = some q) :
    StatusInvariant q := by
  have hmem := List.mem_of_getElem? hx
  have hraise : ∀ error, o = .raised error →
      (∃ t ∈ p.tasks.eraseIdx index, t.isUnsettled = true) ∨ RaiseSettles p.state x := by
    rintro error rfl
    exact hc.imp_right fun hall => hall x hx
  have hsplit : (x.isUnsettled = true ∨ StatusAgrees p.state) ∨
      ∃ t ∈ p.tasks.eraseIdx index, t.isUnsettled = true := by
    rcases h.settled with hu | hagree
    · exact (unsettled_split hx hu).imp_left .inl
    · exact .inl (.inr hagree)
  rcases advance_cases hq with ⟨t, rfl, rfl⟩ | ⟨t, rfl, rfl⟩
  · constructor
    · intro y hy
      rcases List.mem_or_eq_of_mem_set hy with hy | rfl
      · exact h.held y hy
      · exact advanceContinue_held p.state t o
    · by_cases hother : ∃ t ∈ p.tasks.eraseIdx index, t.isUnsettled = true
      · exact .inl (unsettled_set _ hother)
      · refine (advanceContinue_agrees (h.held _ hmem) (hsplit.resolve_right hother) fun error ho =>
          (hraise error ho).resolve_left hother).imp_left fun hu => ⟨_, ?_, hu⟩
        exact List.mem_set (List.getElem?_eq_some_iff.mp hx).1 _
  · constructor
    · intro y hy
      rcases List.mem_or_eq_of_mem_set hy with hy | rfl
      · exact h.held y hy
      · exact advancePause_held p.state t o (h.held _ hmem)
    · by_cases hother : ∃ t ∈ p.tasks.eraseIdx index, t.isUnsettled = true
      · exact .inl (unsettled_set _ hother)
      · exact .inr (advancePause_agrees (h.held _ hmem)
          ((hsplit.resolve_right hother).resolve_left Bool.false_ne_true) fun error ho =>
            (hraise error ho).resolve_left hother)

theorem statusInvariant_append {p : Pool ε} (h : StatusInvariant p) {t : PoolTask ε}
    (hheld : t.Held) (log : List PoolEvent) (pauses : Nat) :
    StatusInvariant { p with tasks := p.tasks ++ [t], log := log, pauses := pauses } where
  held := by
    intro y hy
    rcases List.mem_append.mp hy with hy | hy
    · exact h.held y hy
    · rw [List.mem_singleton.mp hy]
      exact hheld
  settled := h.settled.imp_left fun ⟨y, hy, hu⟩ => ⟨y, List.mem_append_left _ hy, hu⟩

variable [DecidableEq ε]

theorem statusInvariant_step {p q : Pool ε} {a : StatusAction ε} (h : StatusInvariant p)
    (hc : SettlesStatus p a) (hq : statusStep p a = some q) : StatusInvariant q := by
  cases a with
  | fail =>
    cases hq
    exact ⟨h.held, .inr (.inl rfl)⟩
  | pool a =>
    cases a with
    | continueWith args =>
      cases hq
      have hheld : (PoolTask.continueWith (.entering args) : PoolTask ε).Held := trivial
      exact statusInvariant_append h hheld p.log p.pauses
    | pauseFor args c =>
      rcases startPause_cases hq with rfl | ⟨i, hi, rfl⟩
      · have hheld : (PoolTask.pauseFor (.finished true) : PoolTask ε).Held := trivial
        exact statusInvariant_append h hheld p.log p.pauses
      · refine statusInvariant_append h ?_ _ _
        rw [planInterrupt_eq_some hi]
        rfl
    | advance index o =>
      obtain ⟨x, hx, hadv⟩ := Option.bind_eq_some_iff.mp hq
      exact statusInvariant_advance h hx hc hadv
    | signal s =>
      cases hq
      exact ⟨h.held, h.settled.imp_right fun hagree => resumeForSignal_agrees hagree s⟩
    | cancel reason =>
      cases hq
      exact ⟨h.held, h.settled.imp_right fun hagree => cancelPending_agrees hagree reason⟩
    | sealExecution =>
      cases hq
      exact ⟨h.held, h.settled⟩

omit [DecidableEq ε] in
theorem isDone_settled {t : PoolTask ε} (h : t.isDone = true) : t.isUnsettled = false := by
  cases t with
  | continueWith t =>
    cases t with
    | finished args outcome => rfl
    | _ => cases h
  | pauseFor t => rfl

/-- Between the calls the status is waiting exactly while an interrupt waits, in every run
whose raising awaits leave the status settled. -/
theorem waiting_iff_pending {actions : List (StatusAction ε)} {p : Pool ε}
    (hc : (statusPool ε).Meets SettlesStatus Pool.initial actions)
    (hr : (statusPool ε).run Pool.initial actions = some p) (hq : p.Quiescent)
    (hfailed : p.state.status ≠ .failed) (hcancelled : p.state.status ≠ .cancelled) :
    p.state.status = .waiting ↔ ∃ i ∈ p.state.interrupts.vals, i.status = .waiting := by
  have hinv := (statusPool ε).run_invariant_meeting
    (fun _ _ _ hs hcs h => statusInvariant_step hs hcs h) statusInvariant_initial hc hr
  have hagree : StatusAgrees p.state := by
    refine hinv.settled.resolve_left ?_
    rintro ⟨t, ht, hu⟩
    rw [isDone_settled (hq t ht)] at hu
    cases hu
  have hiff := (hagree.resolve_left hfailed).resolve_left hcancelled
  rw [hiff, hasPendingInterrupts, List.any_eq_true]
  simp only [decide_eq_true_eq]

def outsidePause (now : Nat) : PauseContext String :=
  { lastSignal := none, sourceOperatorId := none, continuationEvent := none, now := now,
    freshId := "fresh", serial := 0 }

def twoPauses : List (StatusAction String) :=
  .pool (.pauseFor { interruptId := some "a" } (outsidePause 0)) ::
    (List.replicate 7 (.pool (.advance 0 .ok)) ++
      .pool (.pauseFor { interruptId := some "b" } (outsidePause 1)) ::
        List.replicate 7 (.pool (.advance 1 .ok)))

/-- `a` is continued up to its dispatch, which ends as `result` says. -/
def twoPausesContinued (result : AwaitResult) : List (StatusAction String) :=
  twoPauses ++ .pool (.continueWith { interruptId := "a" }) ::
    (List.replicate 3 (.pool (.advance 2 .ok)) ++ [.pool (.advance 2 result)])

def continuedPool : Pool String :=
  ((statusPool String).run Pool.initial (twoPausesContinued .ok)).getD Pool.initial

theorem waiting_iff_pending_two :
    continuedPool.state.status = .waiting ↔
      ∃ i ∈ continuedPool.state.interrupts.vals, i.status = .waiting :=
  @waiting_iff_pending _ _ (twoPausesContinued .ok) _ (by decide) rfl (by decide) (by decide)
    (by decide)

theorem raised_resume_leaves_running :
    ∃ p, (statusPool String).run Pool.initial
        (twoPausesContinued (.raised "no continuation event")) = some p ∧
      p.Quiescent ∧ p.state.lifecycleOpen = true ∧ p.state.status = .running ∧
      ∃ i ∈ p.state.interrupts.vals, i.status = .waiting :=
  ⟨_, rfl, by decide, by decide, by decide, by decide⟩

end Agently.TriggerFlow
