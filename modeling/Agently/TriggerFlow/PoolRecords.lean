import Agently.TriggerFlow.DispatchTokens

/-! # Records of the interrupt pool and their pauses

Source: `TriggerFlow/ExecutionInterrupts.py`. Every record in the ledger, in a call and in a pause
belongs to one logged pause; two pauses of one id are told apart by `created_at` as long as the
clock advances between them. -/

namespace Agently.TriggerFlow

open Agently.Lib Agently.Utils

variable {ε : Type}

def ClockAdvances (p : Pool ε) : PoolAction ε → Prop
  | .pauseFor args c => ∀ serial, .paused (args.interruptId.getD c.freshId) serial c.now ∉ p.log
  | _ => True

def stampedAt (interruptId : String) (createdAt : Nat) : PoolEvent → Bool
  | .paused id _ c => decide (id = interruptId ∧ c = createdAt)
  | _ => false

variable {log : List PoolEvent}

theorem no_stampedAt_iff {interruptId : String} {createdAt : Nat} :
    (¬ log.any (stampedAt interruptId createdAt)) ↔
      ∀ serial, .paused interruptId serial createdAt ∉ log := by
  rw [List.any_eq_true]
  constructor
  · intro h serial hm
    exact h ⟨_, hm, by simp [stampedAt]⟩
  · rintro h ⟨e, he, hs⟩
    cases e with
    | paused id serial c =>
      obtain ⟨rfl, rfl⟩ : id = interruptId ∧ c = createdAt := by simpa [stampedAt] using hs
      exact h serial he
    | _ => cases hs

instance (p : Pool ε) (a : PoolAction ε) : Decidable (ClockAdvances p a) :=
  match a with
  | .pauseFor args c =>
    decidable_of_iff (¬ p.log.any (stampedAt (args.interruptId.getD c.freshId) c.now))
      no_stampedAt_iff
  | .continueWith _ | .advance _ _ | .signal _ | .cancel _ | .sealExecution => isTrue trivial

def Recorded (log : List PoolEvent) (k : String) (i : Interrupt ε) : Prop :=
  i.id = k ∧ .paused k i.serial i.createdAt ∈ log

theorem recorded_of_origin (k : String) (i j : Interrupt ε)
    (h : j.origin = i.origin) (_ : i.resumeCount ≤ j.resumeCount) (hi : Recorded log k i) :
    Recorded log k j := by
  have hid : j.id = i.id := congrArg (fun k => k.id) h
  have hserial : j.serial = i.serial := congrArg (fun k => k.serial) h
  have hstamp : j.createdAt = i.createdAt := congrArg (fun k => k.createdAt) h
  rw [Recorded, hid, hserial, hstamp]
  exact hi

theorem recorded_append {k : String} {i : Interrupt ε}
    (h : Recorded log k i) (more : List PoolEvent) : Recorded (more ++ log) k i :=
  ⟨h.1, List.mem_append_right more h.2⟩

structure RecordsSatisfy (P : String → Interrupt ε → Prop) (p : Pool ε) : Prop where
  ledger : LedgerAll P p.state
  calls : ∀ (n : Nat) (t : ContinueTask ε), p.tasks[n]? = some (PoolTask.continueWith t) →
    ∀ r, t.record? = some r → P r.args.interruptId r.interrupt
  pausing : ∀ (n : Nat) (t : PauseTask ε), p.tasks[n]? = some (PoolTask.pauseFor t) →
    ∀ e phase i, t = .pausing e phase i →
      P i.id i ∧ ∀ previous s, phase = .persisting (some previous) s → P i.id previous

structure PoolRecords (p : Pool ε) : Prop extends RecordsSatisfy (Recorded p.log) p where
  accepted : ∀ (n : Nat) (r : Resume ε),
    p.tasks[n]? = some (PoolTask.continueWith (.resuming .requestAccepted r)) →
      r.interrupt.resumeClaim.isSome
  fresh : ∀ k s c, .paused k s c ∈ p.log → s < p.pauses
  stamps : ∀ k s s' c, .paused k s c ∈ p.log → .paused k s' c ∈ p.log → s = s'
  spent : ∀ s id, .started s (.signal id) ∈ p.log → s < p.pauses

theorem recordsSatisfy_initial (P : String → Interrupt ε → Prop) :
    RecordsSatisfy P (Pool.initial : Pool ε) where
  ledger := by intro e he; cases he
  calls := by intro n t h; simp [Pool.initial] at h
  pausing := by intro n t h; simp [Pool.initial] at h

theorem poolRecords_initial : PoolRecords (Pool.initial : Pool ε) where
  toRecordsSatisfy := recordsSatisfy_initial _
  accepted := by intro n r h; simp [Pool.initial] at h
  fresh := by intro k s c h; cases h
  stamps := by intro k s s' c h; cases h
  spent := by intro s id h; cases h

variable {P : String → Interrupt ε → Prop} {p : Pool ε}

theorem recordsSatisfy_mono {Q : String → Interrupt ε → Prop}
    (h : RecordsSatisfy P p) (hPQ : ∀ k i, P k i → Q k i) : RecordsSatisfy Q p where
  ledger := fun e he => hPQ e.1 e.2 (h.ledger e he)
  calls := fun n t hn r hr => hPQ _ _ (h.calls n t hn r hr)
  pausing := by
    intro n t hn e phase i hi
    obtain ⟨h1, h2⟩ := h.pausing n t hn e phase i hi
    exact ⟨hPQ _ _ h1, fun previous s hs => hPQ _ _ (h2 previous s hs)⟩

/-- Events of the log that a step may add besides `paused`. -/
def Unpaused (more : List PoolEvent) : Prop := ∀ k s c, PoolEvent.paused k s c ∉ more

theorem continueEvents_unpaused (n : Nat) (t : ContinueTask ε) (o : AwaitResult) :
    Unpaused (continueEvents n t o) := by
  intro k s c h
  unfold continueEvents at h
  split at h <;> simp at h

theorem continueEvents_not_signal (n : Nat) (t : ContinueTask ε) (o : AwaitResult) (s : Nat)
    (id : String) : PoolEvent.started s (.signal id) ∉ continueEvents n t o := by
  intro h
  unfold continueEvents at h
  split at h <;> simp at h

theorem mem_append_unpaused {more : List PoolEvent} {k : String} {s c : Nat}
    (hm : Unpaused more) (h : PoolEvent.paused k s c ∈ more ++ log) : .paused k s c ∈ log :=
  (List.mem_append.mp h).resolve_left (hm k s c)

theorem getElem?_concat {α : Type} {l : List α} {x y : α} {n : Nat} (h : (l ++ [x])[n]? = some y) :
    l[n]? = some y ∨ y = x := by
  rcases Nat.lt_trichotomy n l.length with hn | hn | hn
  · left
    rwa [List.getElem?_append_left hn] at h
  · right
    subst hn
    simpa [eq_comm] using h
  · have hlen : (l ++ [x]).length ≤ n := by simp; omega
    rw [List.getElem?_eq_none hlen] at h
    cases h

theorem getElem?_set_cases {α : Type} {l : List α} {x y : α} {m n : Nat}
    (h : (l.set m x)[n]? = some y) : (n ≠ m ∧ l[n]? = some y) ∨ (n = m ∧ y = x) := by
  by_cases hn : m = n
  · subst hn
    right
    rw [List.getElem?_set_self'] at h
    cases hl : l[m]? with
    | none => simp [hl] at h
    | some z => exact ⟨rfl, by simpa [hl, eq_comm] using h⟩
  · left
    rw [List.getElem?_set_ne hn] at h
    exact ⟨fun e => hn e.symm, h⟩

theorem set_of_getElem? {α : Type} {l : List α} {x : α} {n : Nat} (h : l[n]? = some x) :
    l.set n x = l := by
  obtain ⟨hlen, rfl⟩ := List.getElem?_eq_some_iff.mp h
  exact List.set_getElem_self hlen

theorem recordsSatisfy_append_task (h : RecordsSatisfy P p) {t : PoolTask ε}
    (hc : ∀ c, t = .continueWith c → c.record? = none)
    (hp : ∀ e phase i, t = .pauseFor (.pausing e phase i) → phase = .planned ∧ P i.id i)
    (log : List PoolEvent) (pauses : Nat) :
    RecordsSatisfy P { p with tasks := p.tasks ++ [t], log := log, pauses := pauses } where
  ledger := h.ledger
  calls := by
    intro n c hn r hr
    rcases getElem?_concat hn with hn | hn
    · exact h.calls n c hn r hr
    · rw [hc c hn.symm] at hr
      cases hr
  pausing := by
    intro n c hn e phase i hi
    rcases getElem?_concat hn with hn | hn
    · exact h.pausing n c hn e phase i hi
    · obtain ⟨hphase, hrec⟩ := hp e phase i (hi ▸ hn.symm)
      subst hphase
      exact ⟨hrec, by intro previous s hs; cases hs⟩

theorem poolRecords_append_task (h : PoolRecords p) {t : PoolTask ε}
    (hc : ∀ c, t = .continueWith c → c.record? = none)
    (hp : ∀ e phase i, t ≠ .pauseFor (.pausing e phase i)) :
    PoolRecords { p with tasks := p.tasks ++ [t] } where
  toRecordsSatisfy := recordsSatisfy_append_task h.toRecordsSatisfy hc
    (fun e phase i he => absurd he (hp e phase i)) _ _
  accepted := by
    intro n r hn
    rcases getElem?_concat hn with hn | hn
    · exact h.accepted n r hn
    · cases hc _ hn.symm
  fresh := h.fresh
  stamps := h.stamps
  spent := h.spent

variable {q : Pool ε}

theorem startPause_cases {args : PauseArgs ε} {c : PauseContext ε}
    (h : startPause p args c = some q) :
    q = { p with tasks := p.tasks ++ [.pauseFor (.finished true)] } ∨
      ∃ i, planInterrupt args { c with serial := p.pauses } = some i ∧
        q = { p with
          tasks := p.tasks ++ [.pauseFor (.pausing args.interruptId.isSome .planned i)]
          log := .paused i.id i.serial i.createdAt :: p.log
          pauses := p.pauses + 1 } := by
  unfold startPause at h
  split at h
  · cases h
  · split at h
    next => exact .inl (Option.some.inj h).symm
    next i hi => exact .inr ⟨i, hi, (Option.some.inj h).symm⟩

theorem poolRecords_startPause {args : PauseArgs ε} {c : PauseContext ε}
    (h : PoolRecords p) (hclock : ClockAdvances p (.pauseFor args c))
    (hq : startPause p args c = some q) : PoolRecords q := by
  rcases startPause_cases hq with rfl | ⟨i, hi, rfl⟩
  · exact poolRecords_append_task h (by intro c hc; cases hc) (by intro e phase i hi; cases hi)
  · have hplan := planInterrupt_eq_some hi
    have hid : i.id = args.interruptId.getD c.freshId := congrArg (fun j => j.id) hplan
    have hserial : i.serial = p.pauses := congrArg (fun j => j.serial) hplan
    have hstamp : i.createdAt = c.now := congrArg (fun j => j.createdAt) hplan
    have hnew : ∀ s, PoolEvent.paused i.id s i.createdAt ∉ p.log := by
      rw [hid, hstamp]
      exact hclock
    have hlog : RecordsSatisfy (Recorded (.paused i.id i.serial i.createdAt :: p.log)) p :=
      recordsSatisfy_mono h.toRecordsSatisfy (fun k j hj => recorded_append hj [_])
    exact
      { toRecordsSatisfy := by
          refine recordsSatisfy_append_task hlog (by intro c hc; cases hc) ?_ _ _
          intro e phase j hj
          cases hj
          exact ⟨rfl, rfl, List.mem_cons_self⟩
        accepted := by
          intro n r hn
          rcases getElem?_concat hn with hn | hn
          · exact h.accepted n r hn
          · cases hn
        fresh := by
          intro k s t hm
          rcases List.mem_cons.mp hm with hm | hm
          · cases hm
            show i.serial < p.pauses + 1
            rw [hserial]
            exact Nat.lt_succ_self _
          · exact Nat.lt_succ_of_lt (h.fresh k s t hm)
        stamps := by
          intro k s s' t hm hm'
          rcases List.mem_cons.mp hm with hm | hm
          · cases hm
            rcases List.mem_cons.mp hm' with hm' | hm'
            · cases hm'
              rfl
            · exact absurd hm' (hnew s')
          · rcases List.mem_cons.mp hm' with hm' | hm'
            · cases hm'
              exact absurd hm (hnew s)
            · exact h.stamps k s s' t hm hm'
        spent := by
          intro s id hm
          rcases List.mem_cons.mp hm with hm | hm
          · cases hm
          · exact Nat.lt_succ_of_lt (h.spent s id hm) }

variable {o : AwaitResult} {x : PoolTask ε}

theorem advance_cases {index : Nat} (h : advanceTask p index o x = some q) :
    (∃ t, x = .continueWith t ∧ q =
        { p with
          state := (advanceContinue p.state t o).1
          tasks := p.tasks.set index (.continueWith (advanceContinue p.state t o).2)
          log := continueEvents index t o ++ p.log }) ∨
      ∃ t, x = .pauseFor t ∧ q =
        { p with
          state := (advancePause p.state t o).1
          tasks := p.tasks.set index (.pauseFor (advancePause p.state t o).2) } := by
  cases x with
  | continueWith t =>
    by_cases hw : waitsAtBoundary p.tasks t = true
    · rw [advanceTask, if_pos hw] at h
      cases h
    · rw [advanceTask, if_neg hw] at h
      exact .inl ⟨t, rfl, (Option.some.inj h).symm⟩
  | pauseFor t => exact .inr ⟨t, rfl, (Option.some.inj h).symm⟩

theorem recordsSatisfy_advance
    (hP : ∀ k i j, Interrupt.origin j = Interrupt.origin i → i.resumeCount ≤ j.resumeCount →
      P k i → P k j)
    {index : Nat} (h : RecordsSatisfy P p)
    (hx : p.tasks[index]? = some x) (hq : advanceTask p index o x = some q) :
    RecordsSatisfy P q := by
  rcases advance_cases hq with ⟨t, rfl, rfl⟩ | ⟨t, rfl, rfl⟩
  · obtain ⟨hledger, hrecord⟩ := advanceContinue_all hP o h.ledger (h.calls index t hx)
    refine ⟨hledger, ?_, ?_⟩
    · intro n c hn r hr
      rcases getElem?_set_cases hn with ⟨-, hn⟩ | ⟨-, hn⟩
      · exact h.calls n c hn r hr
      · cases hn
        exact hrecord r hr
    · intro n c hn e phase i hi
      rcases getElem?_set_cases hn with ⟨-, hn⟩ | ⟨-, hn⟩
      · exact h.pausing n c hn e phase i hi
      · cases hn
  · obtain ⟨hledger, hrecord⟩ := pause_record_all hP o h.ledger (h.pausing index t hx)
    refine ⟨hledger, ?_, ?_⟩
    · intro n c hn r hr
      rcases getElem?_set_cases hn with ⟨-, hn⟩ | ⟨-, hn⟩
      · exact h.calls n c hn r hr
      · cases hn
    · intro n c hn e phase i hi
      rcases getElem?_set_cases hn with ⟨-, hn⟩ | ⟨-, hn⟩
      · exact h.pausing n c hn e phase i hi
      · injection hn with hn
        exact hrecord e phase i (hn.symm.trans hi)

theorem poolRecords_advance {index : Nat}
    (h : PoolRecords p) (hx : p.tasks[index]? = some x) (hq : advanceTask p index o x = some q) :
    PoolRecords q := by
  have hrec := recordsSatisfy_advance recorded_of_origin h.toRecordsSatisfy hx hq
  rcases advance_cases hq with ⟨t, rfl, rfl⟩ | ⟨t, rfl, rfl⟩
  · have hun := continueEvents_unpaused index t o
    exact
      { toRecordsSatisfy := recordsSatisfy_mono hrec (fun k j hj => recorded_append hj _)
        accepted := by
          intro n r hn
          rcases getElem?_set_cases hn with ⟨-, hn⟩ | ⟨-, hn⟩
          · exact h.accepted n r hn
          · injection hn with hn
            exact advanceContinue_accepted hn.symm
        fresh := fun k s c hm => h.fresh k s c (mem_append_unpaused hun hm)
        stamps := fun k s s' c hm hm' =>
          h.stamps k s s' c (mem_append_unpaused hun hm) (mem_append_unpaused hun hm')
        spent := fun s id hm => h.spent s id
          ((List.mem_append.mp hm).resolve_left (continueEvents_not_signal index t o s id)) }
  · exact
      { toRecordsSatisfy := hrec
        accepted := by
          intro n r hn
          rcases getElem?_set_cases hn with ⟨-, hn⟩ | ⟨-, hn⟩
          · exact h.accepted n r hn
          · cases hn
        fresh := h.fresh
        stamps := h.stamps
        spent := h.spent }

variable [DecidableEq ε]

theorem mem_signalEvents {interrupts : Ledger ε} {s : Signal ε} {e : PoolEvent}
    (h : e ∈ signalEvents interrupts s) :
    ∃ i ∈ interrupts.vals, resumableBy s i = true ∧ e = .started i.serial (.signal s.id) := by
  unfold signalEvents at h
  split at h
  · cases h
  · obtain ⟨i, hi, rfl⟩ := List.mem_map.mp h
    exact ⟨i, List.mem_of_mem_filter hi, (List.mem_filter.mp hi).2, rfl⟩

theorem resumeForSignal_all
    (hP : ∀ k i j, Interrupt.origin j = Interrupt.origin i → i.resumeCount ≤ j.resumeCount →
      P k i → P k j)
    {st : InterruptState ε} (h : LedgerAll P st) (s : Signal ε) :
    LedgerAll P (resumeForSignal st s) := by
  unfold resumeForSignal
  split
  · exact h
  · split
    · unfold LedgerAll
      rw [refreshWaitingStatus_interrupts]
      refine ledgerAll_map (f := fun i => if resumableBy s i then resumedBySignal s i else i) h ?_
      intro k i hi
      show P k (if resumableBy s i then resumedBySignal s i else i)
      split
      · exact hP k i _ rfl le_rfl hi
      · exact hi
    · exact h

omit [DecidableEq ε] in
theorem cancelPending_all
    (hP : ∀ k i j, Interrupt.origin j = Interrupt.origin i → i.resumeCount ≤ j.resumeCount →
      P k i → P k j)
    {st : InterruptState ε} (h : LedgerAll P st) (reason : String) :
    LedgerAll P (cancelPendingInterrupts st reason) := by
  unfold cancelPendingInterrupts
  split
  · refine ledgerAll_map (f := fun i => if cancellable i then cancelledFor reason i else i) h ?_
    intro k i hi
    show P k (if cancellable i then cancelledFor reason i else i)
    split
    · exact hP k i _ rfl le_rfl hi
    · exact hi
  · exact h

theorem recordsSatisfy_step
    (hP : ∀ k i j, Interrupt.origin j = Interrupt.origin i → i.resumeCount ≤ j.resumeCount →
      P k i → P k j)
    {a : PoolAction ε} (h : RecordsSatisfy P p)
    (ha : ∀ args c, a ≠ .pauseFor args c) (hq : poolStep p a = some q) :
    RecordsSatisfy P q ∧ q.pauses = p.pauses := by
  cases a with
  | continueWith args =>
    cases hq
    exact ⟨recordsSatisfy_append_task h (by intro c hc; cases hc; rfl)
      (by intro e phase i hi; cases hi) _ _, rfl⟩
  | pauseFor args c => exact absurd rfl (ha args c)
  | advance index o =>
    obtain ⟨x, hx, hadv⟩ := Option.bind_eq_some_iff.mp hq
    refine ⟨recordsSatisfy_advance hP h hx hadv, ?_⟩
    rcases advance_cases hadv with ⟨t, -, rfl⟩ | ⟨t, -, rfl⟩ <;> rfl
  | signal s =>
    cases hq
    exact ⟨⟨resumeForSignal_all hP h.ledger s, h.calls, h.pausing⟩, rfl⟩
  | cancel reason =>
    cases hq
    exact ⟨⟨cancelPending_all hP h.ledger reason, h.calls, h.pausing⟩, rfl⟩
  | sealExecution =>
    cases hq
    exact ⟨⟨h.ledger, h.calls, h.pausing⟩, rfl⟩

omit [DecidableEq ε] in
theorem serial_lt_of_mem (h : PoolRecords p) {i : Interrupt ε}
    (hi : i ∈ p.state.interrupts.vals) : i.serial < p.pauses := by
  obtain ⟨e, he, rfl⟩ := List.mem_map.mp hi
  exact h.fresh _ _ _ (h.ledger e he).2

theorem poolRecords_signal (h : PoolRecords p) (s : Signal ε) :
    PoolRecords { p with
      state := resumeForSignal p.state s
      log := signalEvents p.state.interrupts s ++ p.log } := by
  have hun : Unpaused (signalEvents p.state.interrupts s) := by
    intro k n c hm
    obtain ⟨i, -, -, he⟩ := mem_signalEvents hm
    cases he
  have hlog : RecordsSatisfy (Recorded (signalEvents p.state.interrupts s ++ p.log)) p :=
    recordsSatisfy_mono h.toRecordsSatisfy (fun k j hj => recorded_append hj _)
  exact
    { ledger := resumeForSignal_all recorded_of_origin hlog.ledger s
      calls := hlog.calls
      pausing := hlog.pausing
      accepted := h.accepted
      fresh := fun k n c hm => h.fresh k n c (mem_append_unpaused hun hm)
      stamps := fun k n n' c hm hm' =>
        h.stamps k n n' c (mem_append_unpaused hun hm) (mem_append_unpaused hun hm')
      spent := by
        intro n id hm
        rcases List.mem_append.mp hm with hm | hm
        · obtain ⟨i, hi, -, he⟩ := mem_signalEvents hm
          cases he
          exact serial_lt_of_mem h hi
        · exact h.spent n id hm }

theorem poolRecords_step {a : PoolAction ε} (h : PoolRecords p)
    (hclock : ClockAdvances p a) (hq : poolStep p a = some q) : PoolRecords q := by
  cases a with
  | continueWith args =>
    cases hq
    exact poolRecords_append_task h (by intro c hc; cases hc; rfl) (by intro e phase i hi; cases hi)
  | pauseFor args c => exact poolRecords_startPause h hclock hq
  | advance index o =>
    obtain ⟨x, hx, hadv⟩ := Option.bind_eq_some_iff.mp hq
    exact poolRecords_advance h hx hadv
  | signal s =>
    cases hq
    exact poolRecords_signal h s
  | cancel reason =>
    cases hq
    exact
      { ledger := cancelPending_all recorded_of_origin h.ledger reason
        calls := h.calls, pausing := h.pausing, accepted := h.accepted, fresh := h.fresh
        stamps := h.stamps, spent := h.spent }
  | sealExecution =>
    cases hq
    exact
      { ledger := h.ledger
        calls := h.calls, pausing := h.pausing, accepted := h.accepted, fresh := h.fresh
        stamps := h.stamps, spent := h.spent }

end Agently.TriggerFlow
