import Agently.TriggerFlow.InterruptPool

/-! # The right to dispatch a pause

Source: `TriggerFlow/ExecutionInterrupts.py`. A pause owns one right to be dispatched: it lies in
the ledger while the stored record waits unclaimed, in a pause that may still roll back to it, in
the call that claimed it, or it has been spent on an event; `tokens` counts these places. -/

namespace Agently.TriggerFlow

open Agently.Lib Agently.Utils

variable {ε : Type}

def available (serial : Nat) (i : Interrupt ε) : Bool :=
  decide (i.status = .waiting) && i.resumeClaim.isNone && decide (i.serial = serial)

def ContinueTask.record? : ContinueTask ε → Option (Resume ε)
  | .resuming _ r => some r
  | .finished _ (.completed r _) => some r
  | _ => none

def ContinueTask.claimed? : ContinueTask ε → Option (Resume ε)
  | .resuming .requestFailed _ => none
  | .resuming _ r => some r
  | .finished _ (.completed r _) => some r
  | _ => none

def ContinueTask.dispatched? : ContinueTask ε → Option (Resume ε)
  | .resuming .dispatching r => some r
  | .resuming .requestCompleted r => some r
  | .finished _ (.completed r _) => some r
  | _ => none

def ContinueTask.completed? : ContinueTask ε → Option (Resume ε)
  | .resuming .requestCompleted r => some r
  | .finished _ (.completed r _) => some r
  | _ => none

def ContinueTask.holds (serial : Nat) (t : ContinueTask ε) : Bool :=
  t.claimed?.any fun r => decide (r.interrupt.serial = serial)

def PauseTask.holds (serial : Nat) : PauseTask ε → Bool
  | .pausing _ .planned i => decide (i.serial = serial)
  | .pausing _ (.persisting previous _) _ => previous.any (available serial)
  | _ => false

def PoolTask.holds (serial : Nat) : PoolTask ε → Bool
  | .continueWith t => t.holds serial
  | .pauseFor t => t.holds serial

def ledgerCount (st : InterruptState ε) (serial : Nat) : Nat :=
  st.interrupts.vals.countP (available serial)

def startedBySignal (serial : Nat) : PoolEvent → Bool
  | .started s (.signal _) => decide (s = serial)
  | _ => false

def tokens (p : Pool ε) (serial : Nat) : Nat :=
  ledgerCount p.state serial + p.tasks.countP (PoolTask.holds serial) +
    p.log.countP (startedBySignal serial)

def availableAt (st : InterruptState ε) (k : String) (serial : Nat) : Nat :=
  ((st.interrupts.get? k).any (available serial)).toNat

theorem ledgerCount_store (st : InterruptState ε) (k : String) (i : Interrupt ε)
    (status : Option Status) (serial : Nat) :
    ledgerCount (atomicStoreInterrupt st k i status) serial + availableAt st k serial =
      ledgerCount st serial + (available serial i).toNat :=
  Dict.countP_vals_set (available serial) st.interrupts k i

theorem availableAt_store (st : InterruptState ε) (k : String) (i : Interrupt ε)
    (status : Option Status) (serial : Nat) :
    availableAt (atomicStoreInterrupt st k i status) k serial = (available serial i).toNat := by
  rw [availableAt, get?_atomicStore, Option.any_some]

theorem ledgerCount_mutate_le (st : InterruptState ε) (k : String) (f : Interrupt ε → Interrupt ε)
    (status : Option Status) (w : Bool) {serial c : Nat}
    (hf : ∀ i, st.interrupts.get? k = some i →
      (available serial (f i)).toNat ≤ (available serial i).toNat + c) :
    ledgerCount (atomicMutateInterrupt st k f status w) serial ≤ ledgerCount st serial + c := by
  unfold atomicMutateInterrupt
  cases hi : st.interrupts.get? k with
  | none => exact Nat.le_add_right _ _
  | some i =>
    show ledgerCount (if w ∧ i.status ≠ .waiting then st else
      writeInterruptState st (st.interrupts.set k (f i)) status) serial ≤ _
    split
    · exact Nat.le_add_right _ _
    · have hset := Dict.countP_vals_set (available serial) st.interrupts k (f i)
      have hle := hf i hi
      rw [hi, Option.any_some] at hset
      show (st.interrupts.set k (f i)).vals.countP (available serial) ≤ _
      unfold ledgerCount
      omega

theorem ledgerCount_refresh (st : InterruptState ε) (serial : Nat) :
    ledgerCount (refreshWaitingStatus st) serial = ledgerCount st serial := by
  rw [ledgerCount, refreshWaitingStatus_interrupts, ledgerCount]

variable {i : Interrupt ε}

theorem available_of_claimed (h : i.resumeClaim.isSome) (serial : Nat) :
    available serial i = false := by
  cases hc : i.resumeClaim with
  | none => rw [hc] at h; cases h
  | some c => simp [available, hc]

theorem available_of_resumed (h : i.status = .resumed) (serial : Nat) :
    available serial i = false := by
  simp [available, h]

theorem available_le (i : Interrupt ε) (serial : Nat) :
    (available serial i).toNat ≤ (decide (i.serial = serial)).toNat := by
  unfold available
  cases decide (i.status = .waiting) <;> cases i.resumeClaim.isNone <;>
    cases decide (i.serial = serial) <;> decide

theorem available_of_waiting (hw : i.status = .waiting) (hc : i.resumeClaim = none) (serial : Nat) :
    available serial i = decide (i.serial = serial) := by
  simp [available, hw, hc]

theorem resumeNow_balance (st : InterruptState ε) (r : Resume ε) (serial : Nat) :
    ledgerCount (resumeNow st r).1 serial + availableAt st r.args.interruptId serial =
      ledgerCount st serial := by
  have h := ledgerCount_store st r.args.interruptId (markResumed r).interrupt (some .running) serial
  rw [available_of_resumed rfl serial] at h
  exact h

theorem resumeNow_claimed (st : InterruptState ε) (r : Resume ε) :
    (resumeNow st r).2.claimed? = some (markResumed r) := rfl

theorem markDispatched_serial (r : Resume ε) :
    (markDispatched r).interrupt.serial = r.interrupt.serial ∧
      (markDispatched r).args = r.args ∧ (markDispatched r).interrupt.origin = r.interrupt.origin ∧
      (markDispatched r).interrupt.resumeClaim = r.interrupt.resumeClaim := by
  unfold markDispatched
  split <;> exact ⟨rfl, rfl, rfl, rfl⟩

theorem markDispatched_count (r : Resume ε) :
    (markDispatched r).interrupt.resumeCount = r.interrupt.resumeCount := by
  unfold markDispatched
  split <;> rfl

theorem dispatchRequest_balance (st : InterruptState ε) (r : Resume ε) (serial : Nat)
    (hc : r.interrupt.resumeClaim.isSome) :
    ledgerCount (dispatchRequest st r).1 serial + availableAt st r.args.interruptId serial =
      ledgerCount st serial := by
  unfold dispatchRequest
  split
  · have h := ledgerCount_store st r.args.interruptId (markDispatched r).interrupt
      (some .waiting) serial
    rw [available_of_claimed (by rw [(markDispatched_serial r).2.2.2]; exact hc)] at h
    exact h
  · exact resumeNow_balance st r serial

theorem dispatchRequest_claimed (st : InterruptState ε) (r : Resume ε) :
    ∃ r', (dispatchRequest st r).2.claimed? = some r' ∧ r'.args = r.args ∧
      r'.interrupt.serial = r.interrupt.serial := by
  unfold dispatchRequest
  split
  · exact ⟨_, rfl, (markDispatched_serial r).2.1, (markDispatched_serial r).1⟩
  · exact ⟨_, rfl, rfl, rfl⟩

variable {t : ContinueTask ε} {r : Resume ε}

theorem holds_of_claimed (h : t.claimed? = some r)
    (serial : Nat) : t.holds serial = decide (r.interrupt.serial = serial) := by
  rw [ContinueTask.holds, h, Option.any_some]

variable {st : InterruptState ε}

theorem claim_balance {args : ContinueArgs} {now : Bool}
    (h : claim st.interrupts args = .claimed r now) (serial : Nat) :
    ledgerCount (storeClaim st r) serial + (decide (r.interrupt.serial = serial)).toNat =
        ledgerCount st serial ∧
      availableAt (storeClaim st r) r.args.interruptId serial = 0 := by
  obtain ⟨i, hi, hw, hu, hcopy, -, hc, -⟩ := claim_spec h
  have hserial : r.interrupt.serial = i.serial := congrArg (fun k => k.serial) hcopy.origin_eq
  have hstore := ledgerCount_store st r.args.interruptId r.interrupt (some .waiting) serial
  have hat : availableAt st r.args.interruptId serial =
      (decide (r.interrupt.serial = serial)).toNat := by
    rw [availableAt, hcopy.args_eq, hi, Option.any_some, available_of_waiting hw hu, hserial]
  rw [available_of_claimed hc, hat] at hstore
  refine ⟨hstore, ?_⟩
  rw [storeClaim, availableAt_store, available_of_claimed hc]
  rfl

theorem enterContinue_balance (st : InterruptState ε) (args : ContinueArgs) (serial : Nat) :
    ledgerCount (enterContinue st args).1 serial +
        ((enterContinue st args).2.holds serial).toNat ≤ ledgerCount st serial := by
  unfold enterContinue
  split
  · exact le_rfl
  · split
    · exact le_rfl
    · exact le_rfl
    next r hclaim =>
      obtain ⟨hcount, -⟩ := claim_balance hclaim serial
      exact hcount.le
    next r hclaim =>
      obtain ⟨hcount, hat⟩ := claim_balance hclaim serial
      obtain ⟨i, -, -, -, -, -, hc, -⟩ := claim_spec hclaim
      have hdisp := dispatchRequest_balance (storeClaim st r) r serial hc
      obtain ⟨r', hr', -, hserial⟩ := dispatchRequest_claimed (storeClaim st r) r
      rw [holds_of_claimed hr', hserial]
      omega

theorem abortDispatch_balance (st : InterruptState ε) (r : Resume ε) (error : String)
    (serial : Nat)
    (hsame : ∀ stored, st.interrupts.get? r.args.interruptId = some stored →
      stored.createdAt = r.interrupt.createdAt → stored.serial = r.interrupt.serial) :
    ledgerCount (abortDispatch st r error).1 serial +
        ((abortDispatch st r error).2.holds serial).toNat ≤
      ledgerCount st serial + (decide (r.interrupt.serial = serial)).toNat := by
  unfold abortDispatch failDispatch
  split
  next st' r' heq =>
    split at heq
    next rid record hrid hrec =>
      cases heq
      refine ledgerCount_mutate_le st _ _ _ _ ?_
      intro stored hstored
      unfold failStored
      by_cases hstamp : stored.createdAt = r.interrupt.createdAt
      · rw [if_pos hstamp]
        refine (available_le _ serial).trans ?_
        show (decide (stored.serial = serial)).toNat ≤ _
        rw [hsame stored hstored hstamp]
        exact Nat.le_add_left _ _
      · rw [if_neg hstamp]
        exact Nat.le_add_right _ _
    next => cases heq
  next st' heq =>
    split at heq
    next => cases heq
    next =>
      cases heq
      exact Nat.le_add_right _ _

theorem finishDispatch_balance (st : InterruptState ε) (r : Resume ε) (serial : Nat) :
    ledgerCount (finishDispatch st r).1 serial +
        ((finishDispatch st r).2.holds serial).toNat ≤
      ledgerCount st serial + (decide (r.interrupt.serial = serial)).toNat := by
  unfold finishDispatch completeDispatch
  split
  next st' r' heq =>
    split at heq
    next rid record hrid hrec =>
      cases heq
      refine Nat.add_le_add ?_ le_rfl
      refine ledgerCount_mutate_le (c := 0) st _ _ _ _ ?_
      intro stored hstored
      have hav : available serial (completeStored r rid { record with status := .completed } stored)
          = available serial stored := by
        unfold completeStored
        split <;> rfl
      exact (congrArg Bool.toNat hav).le
    next => cases heq
  next st' heq =>
    split at heq
    next => cases heq
    next =>
      cases heq
      rw [ledgerCount_refresh]
      exact le_rfl

theorem advanceContinue_balance (st : InterruptState ε) (t : ContinueTask ε) (o : AwaitResult)
    (serial : Nat)
    (hclaim : ∀ r, t = .resuming .requestAccepted r → r.interrupt.resumeClaim.isSome)
    (hsame : ∀ r, t.record? = some r → ∀ stored,
      st.interrupts.get? r.args.interruptId = some stored →
        stored.createdAt = r.interrupt.createdAt → stored.serial = r.interrupt.serial) :
    ledgerCount (advanceContinue st t o).1 serial +
        ((advanceContinue st t o).2.holds serial).toNat ≤
      ledgerCount st serial + (t.holds serial).toNat := by
  cases t with
  | finished args outcome => cases o <;> exact le_rfl
  | entering args =>
    cases o with
    | ok => exact (enterContinue_balance st args serial).trans (Nat.le_add_right _ _)
    | raised error => exact le_rfl
  | resuming phase r =>
    cases o with
    | raised error =>
      cases phase with
      | dispatching => exact abortDispatch_balance st r error serial (hsame r rfl)
      | requestCompleted => exact le_rfl
      | _ => exact Nat.add_le_add le_rfl (Nat.zero_le _)
    | ok =>
      cases phase with
      | requestAccepted =>
        have hdisp := dispatchRequest_balance st r serial (hclaim r rfl)
        obtain ⟨r', hr', -, hserial⟩ := dispatchRequest_claimed st r
        show ledgerCount (dispatchRequest st r).1 serial +
          ((dispatchRequest st r).2.holds serial).toNat ≤ _
        rw [holds_of_claimed hr', hserial, holds_of_claimed (r := r) rfl]
        omega
      | requestDispatched =>
        have hdisp := resumeNow_balance st r serial
        show ledgerCount (resumeNow st r).1 serial +
          ((resumeNow st r).2.holds serial).toNat ≤ _
        rw [holds_of_claimed (resumeNow_claimed st r), holds_of_claimed (r := r) rfl]
        show ledgerCount (resumeNow st r).1 serial +
          (decide (r.interrupt.serial = serial)).toNat ≤ _
        omega
      | executionResumed => exact le_rfl
      | streamPut => exact le_rfl
      | dispatching => exact finishDispatch_balance st r serial
      | requestFailed => exact le_rfl
      | requestCompleted =>
        show ledgerCount (refreshWaitingStatus st) serial + _ ≤ _
        rw [ledgerCount_refresh]
        exact le_rfl

theorem ledgerCount_envelope_le (st : InterruptState ε) (i : Interrupt ε) (serial : Nat) :
    ledgerCount (applyLocalEnvelope st i) serial ≤ ledgerCount st serial :=
  ledgerCount_mutate_le (c := 0) st i.id _ _ _ fun _ _ => le_rfl

theorem rollbackPause_balance (st : InterruptState ε) (i : Interrupt ε)
    (previous : Option (Interrupt ε)) (previousStatus : Status) (serial : Nat) :
    ledgerCount (rollbackPause st i previous previousStatus) serial ≤
      ledgerCount st serial + (previous.any (available serial)).toNat := by
  unfold rollbackPause
  split
  · cases previous with
    | none =>
      exact (Dict.countP_vals_del_le (available serial) st.interrupts i.id).trans
        (Nat.le_add_right _ _)
    | some p =>
      have hset := Dict.countP_vals_set (available serial) st.interrupts i.id p
      show (st.interrupts.set i.id p).vals.countP (available serial) ≤ _
      rw [Option.any_some]
      unfold ledgerCount
      omega
  · exact Nat.le_add_right _ _

theorem advancePause_balance (st : InterruptState ε) (t : PauseTask ε) (o : AwaitResult)
    (serial : Nat) :
    ledgerCount (advancePause st t o).1 serial + ((advancePause st t o).2.holds serial).toNat ≤
      ledgerCount st serial + (t.holds serial).toNat := by
  cases t with
  | finished raised => cases o <;> exact le_rfl
  | pausing e phase i =>
    cases o with
    | ok =>
      cases phase with
      | planned =>
        have hstore := ledgerCount_store st i.id
          (setExternalWaitState i .persisted none none none) (some .waiting) serial
        have hle := available_le (setExternalWaitState i .persisted none none none) serial
        show ledgerCount (storePlanned st i) serial + availableAt st i.id serial ≤
          ledgerCount st serial + (decide (i.serial = serial)).toNat
        unfold storePlanned
        exact hstore.le.trans (Nat.add_le_add_left hle _)
      | persisting previous previousStatus =>
        show ledgerCount st serial +
          ((goOnIfOwned st e .persistedNotice i).holds serial).toNat ≤ _
        have hnone : (goOnIfOwned st e .persistedNotice i).holds serial = false := by
          unfold goOnIfOwned
          split <;> rfl
        rw [hnone]
        exact Nat.add_le_add_left (Nat.zero_le _) _
      | persistedNotice =>
        show ledgerCount st serial + ((goOnIfOwned st e .publishing i).holds serial).toNat ≤ _
        have hnone : (goOnIfOwned st e .publishing i).holds serial = false := by
          unfold goOnIfOwned
          split <;> rfl
        rw [hnone]
        exact le_rfl
      | publishing => exact ledgerCount_envelope_le st i serial
      | exposureFailed => exact le_rfl
      | raisedNotice => exact le_rfl
      | streamPut => exact ledgerCount_envelope_le st _ serial
      | exposedNotice => exact le_rfl
    | raised error =>
      cases phase with
      | planned => exact Nat.add_le_add_left (Nat.zero_le _) _
      | persisting previous previousStatus =>
        exact rollbackPause_balance st i previous previousStatus serial
      | publishing => exact ledgerCount_envelope_le st _ serial
      | _ => exact le_rfl

theorem countP_vals_map (f : Interrupt ε → Interrupt ε) (interrupts : Ledger ε)
    (q : Interrupt ε → Bool) :
    (Dict.vals (interrupts.map fun p => (p.1, f p.2))).countP q =
      interrupts.vals.countP fun i => q (f i) := by
  rw [Dict.vals, Dict.vals, List.map_map, List.countP_map, List.countP_map]
  rfl

theorem cancel_balance (st : InterruptState ε) (reason : String) (serial : Nat) :
    ledgerCount (cancelPendingInterrupts st reason) serial ≤ ledgerCount st serial := by
  unfold cancelPendingInterrupts
  split
  · refine (countP_vals_map (fun i => if cancellable i then cancelledFor reason i else i)
      st.interrupts (available serial)).le.trans ?_
    refine List.countP_mono_left ?_
    intro i _ h
    by_cases hc : cancellable i = true
    · rw [if_pos hc] at h
      simp [available, cancelledFor, setExternalWaitState] at h
    · rwa [if_neg hc] at h
  · exact le_rfl

theorem signal_balance_list [DecidableEq ε] (s : Signal ε) (serial : Nat) (l : List (Interrupt ε)) :
    l.countP (fun i => available serial (if resumableBy s i then resumedBySignal s i else i)) +
        (l.filter (resumableBy s)).countP (fun i => decide (i.serial = serial)) =
      l.countP (available serial) := by
  induction l with
  | nil => rfl
  | cons i rest ih =>
    rw [countP_cons_toNat, countP_cons_toNat, List.filter_cons]
    by_cases hr : resumableBy s i = true
    · have hfree : i.status = .waiting ∧ i.resumeClaim.isNone := by
        simp only [resumableBy, Bool.and_eq_true, decide_eq_true_eq] at hr
        exact hr.1
      have hav := available_of_waiting hfree.1 (Option.isNone_iff_eq_none.mp hfree.2) serial
      have hgone : available serial (resumedBySignal s i) = false := available_of_resumed rfl serial
      rw [if_pos hr, if_pos hr, countP_cons_toNat, hgone, hav, Bool.toNat_false]
      omega
    · rw [if_neg hr, if_neg hr]
      omega

theorem signal_balance [DecidableEq ε] (st : InterruptState ε) (s : Signal ε) (serial : Nat) :
    ledgerCount (resumeForSignal st s) serial +
        (signalEvents st.interrupts s).countP (startedBySignal serial) = ledgerCount st serial := by
  have hlist := signal_balance_list s serial st.interrupts.vals
  unfold resumeForSignal signalEvents
  by_cases hs : s.triggerType ≠ .event ∨ s.source = "interrupt"
  · rw [if_pos hs, if_pos hs]
    rfl
  · rw [if_neg hs, if_neg hs, List.countP_map]
    have hcount : (startedBySignal serial ∘ fun i : Interrupt ε =>
        PoolEvent.started i.serial (.signal s.id)) = fun i => decide (i.serial = serial) := rfl
    rw [hcount]
    by_cases ha : st.interrupts.vals.any (resumableBy s) = true
    · rw [if_pos ha, ledgerCount_refresh]
      have hmap := countP_vals_map (fun i => if resumableBy s i then resumedBySignal s i else i)
        st.interrupts (available serial)
      exact (congrArg (· + _) hmap).trans hlist
    · rw [if_neg ha]
      have hempty : st.interrupts.vals.filter (resumableBy s) = [] := by
        rw [List.filter_eq_nil_iff]
        intro i hi hr
        exact ha (List.any_eq_true.mpr ⟨i, hi, hr⟩)
      rw [hempty]
      rfl

def LedgerAll (P : String → Interrupt ε → Prop) (st : InterruptState ε) : Prop :=
  ∀ e ∈ st.interrupts, P e.1 e.2

variable {P : String → Interrupt ε → Prop}

theorem ledgerAll_store {k : String} (h : LedgerAll P st) (hi : P k i) (status : Option Status) :
    LedgerAll P (atomicStoreInterrupt st k i status) := by
  intro e he
  rcases Dict.mem_set he with he | he
  · rw [he]
    exact hi
  · exact h e he

theorem ledgerAll_mutate (h : LedgerAll P st) (k : String) {f : Interrupt ε → Interrupt ε}
    (hf : ∀ i, P k i → P k (f i)) (status : Option Status) (w : Bool) :
    LedgerAll P (atomicMutateInterrupt st k f status w) := by
  unfold atomicMutateInterrupt
  cases hi : st.interrupts.get? k with
  | none => exact h
  | some i =>
    show LedgerAll P (if w ∧ i.status ≠ .waiting then st else _)
    split
    · exact h
    · exact ledgerAll_store h (hf i (h (k, i) (Dict.mem_of_get? hi))) status

theorem ledgerAll_map
    (h : LedgerAll P st) {f : Interrupt ε → Interrupt ε} (hf : ∀ k i, P k i → P k (f i)) :
    ∀ e ∈ st.interrupts.map fun p => (p.1, f p.2), P e.1 e.2 := by
  intro e he
  obtain ⟨p, hp, rfl⟩ := List.mem_map.mp he
  exact hf p.1 p.2 (h p hp)

section Origin

variable {P : String → Interrupt ε → Prop}
  (hP : ∀ k i j, Interrupt.origin j = Interrupt.origin i → i.resumeCount ≤ j.resumeCount →
    P k i → P k j)

include hP

variable {st : InterruptState ε} {r : Resume ε}

theorem dispatchRequest_all (h : LedgerAll P st) (hr : P r.args.interruptId r.interrupt) :
    LedgerAll P (dispatchRequest st r).1 ∧
      ∀ r', (dispatchRequest st r).2.record? = some r' → P r'.args.interruptId r'.interrupt := by
  unfold dispatchRequest
  split
  · have hd : P r.args.interruptId (markDispatched r).interrupt :=
      hP _ _ _ (markDispatched_serial r).2.2.1 (markDispatched_count r).ge hr
    refine ⟨ledgerAll_store h hd _, ?_⟩
    intro r' hr'
    have he : markDispatched r = r' := Option.some.inj hr'
    rw [← he, (markDispatched_serial r).2.1]
    exact hd
  · have hd : P r.args.interruptId (markResumed r).interrupt := hP _ r.interrupt _ rfl le_rfl hr
    refine ⟨ledgerAll_store h hd _, ?_⟩
    intro r' hr'
    have he : markResumed r = r' := Option.some.inj hr'
    rw [← he]
    exact hd

theorem enterContinue_all (args : ContinueArgs) (h : LedgerAll P st) :
    LedgerAll P (enterContinue st args).1 ∧
      ∀ r', (enterContinue st args).2.record? = some r' → P r'.args.interruptId r'.interrupt := by
  have hclaimed : ∀ r now, claim st.interrupts args = .claimed r now →
      P r.args.interruptId r.interrupt := by
    intro r now hc
    obtain ⟨i, hi, -, -, hcopy, -⟩ := claim_spec hc
    rw [hcopy.args_eq]
    exact hP _ _ _ hcopy.origin_eq (charged_ge hcopy.charged) (h _ (Dict.mem_of_get? hi))
  unfold enterContinue
  split
  · exact ⟨h, by intro r' hr'; cases hr'⟩
  · split
    · exact ⟨h, by intro r' hr'; cases hr'⟩
    · exact ⟨h, by intro r' hr'; cases hr'⟩
    next r hc =>
      refine ⟨ledgerAll_store h (hclaimed r true hc) _, ?_⟩
      intro r' hr'
      have he : r = r' := Option.some.inj hr'
      rw [← he]
      exact hclaimed r true hc
    next r hc =>
      exact dispatchRequest_all hP (ledgerAll_store h (hclaimed r false hc) _) (hclaimed r false hc)

theorem abortDispatch_all (error : String)
    (h : LedgerAll P st) (hr : P r.args.interruptId r.interrupt) :
    LedgerAll P (abortDispatch st r error).1 ∧
      ∀ r', (abortDispatch st r error).2.record? = some r' → P r'.args.interruptId r'.interrupt := by
  unfold abortDispatch failDispatch
  split
  next st' r' heq =>
    split at heq
    next rid record hrid hrec =>
      cases heq
      refine ⟨ledgerAll_mutate h _ ?_ _ _, ?_⟩
      · intro i hi
        refine hP _ _ _ ?_ ?_ hi
        · unfold failStored
          split <;> rfl
        · unfold failStored
          split <;> exact le_rfl
      · intro r'' hr''
        have he := Option.some.inj hr''
        rw [← he]
        exact hP _ r.interrupt _ rfl le_rfl hr
    next => cases heq
  next st' heq =>
    split at heq
    next => cases heq
    next =>
      cases heq
      exact ⟨h, by intro r' hr'; cases hr'⟩

theorem finishDispatch_all (h : LedgerAll P st) (hr : P r.args.interruptId r.interrupt) :
    LedgerAll P (finishDispatch st r).1 ∧
      ∀ r', (finishDispatch st r).2.record? = some r' → P r'.args.interruptId r'.interrupt := by
  unfold finishDispatch completeDispatch
  split
  next st' r' heq =>
    split at heq
    next rid record hrid hrec =>
      cases heq
      refine ⟨ledgerAll_mutate h _ ?_ _ _, ?_⟩
      · intro i hi
        refine hP _ _ _ ?_ ?_ hi
        · unfold completeStored
          split <;> rfl
        · unfold completeStored
          split <;> exact le_rfl
      · intro r'' hr''
        have he := Option.some.inj hr''
        rw [← he]
        exact hP _ r.interrupt _ rfl le_rfl hr
    next => cases heq
  next st' heq =>
    split at heq
    next => cases heq
    next =>
      cases heq
      refine ⟨?_, ?_⟩
      · unfold LedgerAll
        rw [refreshWaitingStatus_interrupts]
        exact h
      · intro r' hr'
        have he : r = r' := Option.some.inj hr'
        rw [← he]
        exact hr

theorem advanceContinue_all {t : ContinueTask ε} (o : AwaitResult)
    (h : LedgerAll P st) (hr : ∀ r, t.record? = some r → P r.args.interruptId r.interrupt) :
    LedgerAll P (advanceContinue st t o).1 ∧
      ∀ r, (advanceContinue st t o).2.record? = some r → P r.args.interruptId r.interrupt := by
  cases t with
  | finished args outcome => cases o <;> exact ⟨h, hr⟩
  | entering args =>
    cases o with
    | ok => exact enterContinue_all hP args h
    | raised error => exact ⟨h, by intro r' hr'; cases hr'⟩
  | resuming phase r =>
    have hr0 := hr r rfl
    cases o with
    | raised error =>
      cases phase with
      | dispatching => exact abortDispatch_all hP error h hr0
      | requestCompleted => exact ⟨h, hr⟩
      | _ => exact ⟨h, by intro r' hr'; cases hr'⟩
    | ok =>
      cases phase with
      | requestAccepted => exact dispatchRequest_all hP h hr0
      | requestDispatched =>
        have hd : P r.args.interruptId (markResumed r).interrupt := hP _ r.interrupt _ rfl le_rfl hr0
        refine ⟨ledgerAll_store h hd _, ?_⟩
        intro r' hr'
        have he : markResumed r = r' := Option.some.inj hr'
        rw [← he]
        exact hd
      | executionResumed => exact ⟨h, hr⟩
      | streamPut => exact ⟨h, hr⟩
      | dispatching => exact finishDispatch_all hP h hr0
      | requestFailed => exact ⟨h, by intro r' hr'; cases hr'⟩
      | requestCompleted =>
        refine ⟨?_, hr⟩
        show ∀ e ∈ (refreshWaitingStatus st).interrupts, P e.1 e.2
        rw [refreshWaitingStatus_interrupts]
        exact h

end Origin

theorem pause_record_all
    (hP : ∀ k i j, Interrupt.origin j = Interrupt.origin i → i.resumeCount ≤ j.resumeCount →
    P k i → P k j)
    {t : PauseTask ε} (o : AwaitResult) (h : LedgerAll P st)
    (hr : ∀ e phase i, t = .pausing e phase i →
      P i.id i ∧ ∀ previous s, phase = .persisting (some previous) s → P i.id previous) :
    LedgerAll P (advancePause st t o).1 ∧
      ∀ e phase i, (advancePause st t o).2 = .pausing e phase i →
        P i.id i ∧ ∀ previous s, phase = .persisting (some previous) s → P i.id previous := by
  cases t with
  | finished raised => cases o <;> exact ⟨h, hr⟩
  | pausing e phase i =>
    obtain ⟨hi, hprev⟩ := hr e phase i rfl
    have henv : ∀ j : Interrupt ε, LedgerAll P (applyLocalEnvelope st j) := fun j =>
      ledgerAll_mutate (f := fun stored => { stored with externalWaitRequest := j.externalWaitRequest })
        h j.id (fun k hk => hP _ k _ rfl le_rfl hk) _ _
    have howned : ∀ next, (∀ previous s, next ≠ .persisting (some previous) s) →
        ∀ e' phase' i', goOnIfOwned st e next i = .pausing e' phase' i' →
          P i'.id i' ∧ ∀ previous s, phase' = .persisting (some previous) s → P i'.id previous := by
      intro next hnext e' phase' i' he
      unfold goOnIfOwned at he
      split at he
      · cases he
        exact ⟨hi, fun previous s hs => absurd hs (hnext previous s)⟩
      · cases he
    cases o with
    | ok =>
      cases phase with
      | planned =>
        refine ⟨ledgerAll_store (i := setExternalWaitState i .persisted none none none) h
          (hP _ i _ rfl le_rfl hi) _, ?_⟩
        rintro e' phase' i' ⟨⟩
        refine ⟨hP _ i _ rfl le_rfl hi, ?_⟩
        intro previous s hs
        have hget : st.interrupts.get? i.id = some previous := by
          injection hs
        exact h _ (Dict.mem_of_get? hget)
      | persisting previous s => exact ⟨h, howned _ (by intro _ _ he; cases he)⟩
      | persistedNotice => exact ⟨h, howned _ (by intro _ _ he; cases he)⟩
      | publishing =>
        refine ⟨henv i, ?_⟩
        rintro e' phase' i' ⟨⟩
        exact ⟨hi, by intro _ _ he; cases he⟩
      | exposureFailed => exact ⟨h, by rintro e' phase' i' ⟨⟩⟩
      | raisedNotice =>
        refine ⟨h, ?_⟩
        rintro e' phase' i' ⟨⟩
        exact ⟨hi, by intro _ _ he; cases he⟩
      | streamPut =>
        refine ⟨henv _, ?_⟩
        rintro e' phase' i' ⟨⟩
        exact ⟨hP _ i _ rfl le_rfl hi, by intro _ _ he; cases he⟩
      | exposedNotice => exact ⟨h, by rintro e' phase' i' ⟨⟩⟩
    | raised error =>
      cases phase with
      | persisting previous s =>
        refine ⟨?_, by rintro e' phase' i' ⟨⟩⟩
        show LedgerAll P (rollbackPause st i previous s)
        unfold rollbackPause
        split
        · cases previous with
          | none => exact fun e' he' => h e' (List.mem_of_mem_filter he')
          | some p =>
            intro e' he'
            rcases Dict.mem_set he' with he' | he'
            · rw [he']
              exact hprev p s rfl
            · exact h e' he'
        · exact h
      | publishing =>
        refine ⟨henv _, ?_⟩
        rintro e' phase' i' ⟨⟩
        exact ⟨hP _ i _ rfl le_rfl hi, by intro _ _ he; cases he⟩
      | _ => exact ⟨h, by rintro e' phase' i' ⟨⟩⟩

/-- The copy a call holds later is its copy of the same pause, charged the same. -/
structure SameCopy (r r' : Resume ε) : Prop where
  args : r'.args = r.args
  origin : r'.interrupt.origin = r.interrupt.origin
  count : r'.interrupt.resumeCount = r.interrupt.resumeCount

theorem SameCopy.refl (r : Resume ε) : SameCopy r r := ⟨rfl, rfl, rfl⟩

variable {r' : Resume ε}

theorem dispatchRequest_record
    (h : (dispatchRequest st r).2.record? = some r') : SameCopy r r' := by
  unfold dispatchRequest at h
  split at h
  · have he : markDispatched r = r' := Option.some.inj h
    rw [← he]
    exact ⟨(markDispatched_serial r).2.1, (markDispatched_serial r).2.2.1, markDispatched_count r⟩
  · have he : markResumed r = r' := Option.some.inj h
    rw [← he]
    exact ⟨rfl, rfl, rfl⟩

theorem abortDispatch_record {error : String}
    (h : (abortDispatch st r error).2.record? = some r') : SameCopy r r' := by
  unfold abortDispatch failDispatch at h
  split at h
  next heq =>
    split at heq
    · cases heq
      have he := Option.some.inj h
      rw [← he]
      exact ⟨rfl, rfl, rfl⟩
    · cases heq
  next => cases h

theorem finishDispatch_record (h : (finishDispatch st r).2.record? = some r') : SameCopy r r' := by
  unfold finishDispatch completeDispatch at h
  split at h
  next heq =>
    split at heq
    · cases heq
      have he := Option.some.inj h
      rw [← he]
      exact ⟨rfl, rfl, rfl⟩
    · cases heq
  next =>
    have he : r = r' := Option.some.inj h
    rw [← he]
    exact SameCopy.refl r

variable {o : AwaitResult}

theorem advanceContinue_record (h : (advanceContinue st t o).2.record? = some r') :
    (∃ r, t.record? = some r ∧ SameCopy r r') ∨
      ∃ i r, st.interrupts.get? r.args.interruptId = some i ∧ r.interrupt.origin = i.origin ∧
        chargedCount i = some r.interrupt.resumeCount ∧ SameCopy r r' := by
  cases t with
  | finished args outcome => left; cases o <;> exact ⟨r', h, SameCopy.refl r'⟩
  | entering args =>
    right
    cases o with
    | raised error => cases h
    | ok =>
      have he : (enterContinue st args).2.record? = some r' := h
      unfold enterContinue at he
      split at he
      · cases he
      · split at he
        · cases he
        · cases he
        next r hc =>
          have hr : r = r' := Option.some.inj he
          subst hr
          obtain ⟨i, hi, -, -, hcopy, -⟩ := claim_spec hc
          rw [← hcopy.args_eq] at hi
          exact ⟨i, r, hi, hcopy.origin_eq, hcopy.charged, SameCopy.refl r⟩
        next r hc =>
          obtain ⟨i, hi, -, -, hcopy, -⟩ := claim_spec hc
          rw [← hcopy.args_eq] at hi
          exact ⟨i, r, hi, hcopy.origin_eq, hcopy.charged, dispatchRequest_record he⟩
  | resuming phase r =>
    left
    refine ⟨r, rfl, ?_⟩
    cases o with
    | raised error =>
      cases phase with
      | dispatching => exact abortDispatch_record h
      | requestCompleted =>
        have hr : r = r' := Option.some.inj h
        rw [← hr]
        exact SameCopy.refl r
      | _ => cases h
    | ok =>
      cases phase with
      | requestAccepted => exact dispatchRequest_record h
      | requestDispatched =>
        have hr : markResumed r = r' := Option.some.inj h
        rw [← hr]
        exact ⟨rfl, rfl, rfl⟩
      | dispatching => exact finishDispatch_record h
      | requestFailed => cases h
      | _ =>
        have hr : r = r' := Option.some.inj h
        rw [← hr]
        exact SameCopy.refl r

theorem advanceContinue_accepted_claim
    (h : (advanceContinue st t o).2 = .resuming .requestAccepted r) :
    ∃ args, claim st.interrupts args = .claimed r true := by
  have hdisp : ∀ (st' : InterruptState ε) r', (dispatchRequest st' r').2 ≠
      .resuming .requestAccepted r := by
    intro st' r' he
    unfold dispatchRequest at he
    split at he <;> cases he
  cases t with
  | finished args outcome => cases o <;> cases h
  | entering args =>
    cases o with
    | raised error => cases h
    | ok =>
      have he : (enterContinue st args).2 = .resuming .requestAccepted r := h
      unfold enterContinue at he
      split at he
      · cases he
      · split at he
        · cases he
        · cases he
        next r' hc =>
          cases he
          exact ⟨args, hc⟩
        next r' hc => exact absurd he (hdisp _ _)
  | resuming phase r' =>
    cases o with
    | raised error =>
      cases phase with
      | dispatching =>
        have he : (abortDispatch st r' error).2 = .resuming .requestAccepted r := h
        unfold abortDispatch at he
        split at he <;> cases he
      | _ => cases h
    | ok =>
      cases phase with
      | requestAccepted => exact absurd h (hdisp st r')
      | dispatching =>
        have he : (finishDispatch st r').2 = .resuming .requestAccepted r := h
        unfold finishDispatch at he
        split at he <;> cases he
      | _ => cases h

theorem advanceContinue_accepted (h : (advanceContinue st t o).2 = .resuming .requestAccepted r) :
    r.interrupt.resumeClaim.isSome := by
  obtain ⟨args, hc⟩ := advanceContinue_accepted_claim h
  obtain ⟨-, -, -, -, -, -, hclaim, -⟩ := claim_spec hc
  exact hclaim

theorem finishDispatch_completed (st : InterruptState ε) (r : Resume ε) :
    ∃ r', (finishDispatch st r).2.completed? = some r' ∧ r'.args = r.args ∧
      r'.interrupt.serial = r.interrupt.serial := by
  unfold finishDispatch completeDispatch
  split
  next st' r' heq =>
    split at heq
    next => cases heq; exact ⟨_, rfl, rfl, rfl⟩
    next => cases heq
  next => exact ⟨_, rfl, rfl, rfl⟩

theorem dispatched_of_completed (h : t.completed? = some r) :
    t.dispatched? = some r := by
  cases t with
  | resuming phase r' => cases phase <;> first | exact h | cases h
  | finished args outcome => cases outcome <;> exact h
  | entering args => cases h

theorem claimed_of_dispatched (h : t.dispatched? = some r) :
    t.claimed? = some r := by
  cases t with
  | resuming phase r' => cases phase <;> first | exact h | cases h
  | finished args outcome => cases outcome <;> exact h
  | entering args => cases h

theorem record_of_claimed (h : t.claimed? = some r) :
    t.record? = some r := by
  cases t with
  | resuming phase r' => cases phase <;> first | exact h | cases h
  | finished args outcome => cases outcome <;> exact h
  | entering args => cases h

theorem advanceContinue_dispatched (st : InterruptState ε)
    (o : AwaitResult) (h : t.dispatched? = some r) :
    (t = .resuming .dispatching r ∧ ∃ error, o = .raised error) ∨
      ∃ r', (advanceContinue st t o).2.dispatched? = some r' ∧ r'.args = r.args ∧
        r'.interrupt.serial = r.interrupt.serial := by
  cases t with
  | entering args => cases h
  | finished args outcome =>
    right
    cases o <;> exact ⟨r, h, rfl, rfl⟩
  | resuming phase r' =>
    cases phase with
    | dispatching =>
      have he : r' = r := Option.some.inj h
      subst he
      cases o with
      | raised error => exact .inl ⟨rfl, error, rfl⟩
      | ok =>
        right
        obtain ⟨r'', hc, ha, hs⟩ := finishDispatch_completed st r'
        exact ⟨r'', dispatched_of_completed hc, ha, hs⟩
    | requestCompleted =>
      have he : r' = r := Option.some.inj h
      subst he
      right
      cases o <;> exact ⟨r', rfl, rfl, rfl⟩
    | _ => cases h

theorem advanceContinue_completed (o : AwaitResult) (h : t.completed? = some r) :
    (advanceContinue st t o).2.completed? = some r := by
  cases t with
  | entering args => cases h
  | finished args outcome => cases o <;> exact h
  | resuming phase r' =>
    cases phase with
    | requestCompleted => cases o <;> exact h
    | _ => cases h

theorem advanceContinue_claimed (h : (advanceContinue st t o).2.claimed? = some r') :
    (∃ r, t.claimed? = some r ∧ r'.args = r.args ∧ r'.interrupt.serial = r.interrupt.serial) ∨
      (o = .ok ∧ t = .entering r'.args ∧ ∃ i, st.interrupts.get? r'.args.interruptId = some i ∧
        i.status = .waiting ∧ i.resumeClaim = none ∧ r'.interrupt.serial = i.serial) := by
  cases t with
  | finished args outcome => left; cases o <;> exact ⟨r', h, rfl, rfl⟩
  | entering args =>
    right
    cases o with
    | raised error => cases h
    | ok =>
      have he : (enterContinue st args).2.claimed? = some r' := h
      unfold enterContinue at he
      split at he
      · cases he
      · split at he
        · cases he
        · cases he
        next r hc =>
          have hr : r = r' := Option.some.inj he
          subst hr
          obtain ⟨i, hi, hw, hu, hcopy, -⟩ := claim_spec hc
          have hs : r.interrupt.serial = i.serial :=
            congrArg (fun k => k.serial) hcopy.origin_eq
          rw [hcopy.args_eq]
          exact ⟨rfl, rfl, i, hi, hw, hu, hs⟩
        next r hc =>
          obtain ⟨i, hi, hw, hu, hcopy, -⟩ := claim_spec hc
          obtain ⟨r'', hr'', ha, hs⟩ := dispatchRequest_claimed (storeClaim st r) r
          have hr : r'' = r' := Option.some.inj (hr''.symm.trans he)
          subst hr
          have hs' : r.interrupt.serial = i.serial :=
            congrArg (fun k => k.serial) hcopy.origin_eq
          rw [ha, hcopy.args_eq]
          exact ⟨rfl, rfl, i, hi, hw, hu, hs.trans hs'⟩
  | resuming phase r =>
    left
    cases o with
    | raised error =>
      cases phase with
      | dispatching =>
        have he : (abortDispatch st r error).2.claimed? = some r' := h
        unfold abortDispatch at he
        split at he <;> cases he
      | requestCompleted =>
        have hr : r = r' := Option.some.inj h
        exact ⟨r, rfl, by rw [hr], by rw [hr]⟩
      | _ => cases h
    | ok =>
      cases phase with
      | requestAccepted =>
        obtain ⟨r'', hr'', ha, hs⟩ := dispatchRequest_claimed st r
        have hr : r'' = r' := Option.some.inj (hr''.symm.trans h)
        subst hr
        exact ⟨r, rfl, ha, hs⟩
      | requestDispatched =>
        have hr : markResumed r = r' := Option.some.inj h
        subst hr
        exact ⟨r, rfl, rfl, rfl⟩
      | dispatching =>
        obtain ⟨r'', hr'', ha, hs⟩ := finishDispatch_completed st r
        have hc := claimed_of_dispatched (dispatched_of_completed hr'')
        have hr : r'' = r' := Option.some.inj (hc.symm.trans h)
        subst hr
        exact ⟨r, rfl, ha, hs⟩
      | requestFailed => cases h
      | _ =>
        have hr : r = r' := Option.some.inj h
        exact ⟨r, rfl, by rw [hr], by rw [hr]⟩

end Agently.TriggerFlow
