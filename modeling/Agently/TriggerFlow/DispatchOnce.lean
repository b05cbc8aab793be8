import Agently.TriggerFlow.PoolRecords

/-! # Every pause is dispatched at most once

Source: `TriggerFlow/ExecutionInterrupts.py`. Runs of the interrupt pool: the right to dispatch a
pause is never duplicated as long as two pauses of one id never carry the same `created_at`, and a
completed request rests as long as it is presented only to the pause its first presentation claimed. -/

namespace Agently.TriggerFlow

open Agently.Lib Agently.Utils

variable {ε : Type}

def OpenDispatch (log : List PoolEvent) (serial : Nat) (resumer : Resumer) : Prop :=
  .started serial resumer ∈ log ∧ .raised serial resumer ∉ log

def DispatchedAtMostOnce : List PoolEvent → Prop
  | [] => True
  | e :: older => DispatchedAtMostOnce older ∧
      ∀ serial resumer, e = .started serial resumer → ∀ earlier, ¬ OpenDispatch older serial earlier

def RepeatsRequest (earlier later : ContinueArgs) : Prop :=
  earlier.interruptId = later.interruptId ∧
    ∃ rid, earlier.resumeRequestId = some rid ∧ later.resumeRequestId = some rid ∧
      Value.pyEq earlier.value.serializable later.value.serializable = true

def CompletedRequestsRest : List PoolEvent → Prop
  | [] => True
  | e :: older => CompletedRequestsRest older ∧
      ∀ serial index args, e = .started serial (.call index args) →
        ∀ serial' index' args', .completed serial' (.call index' args') ∈ older →
          ¬ RepeatsRequest args' args

/-- A call about to claim does not repeat the request of a call that holds, or has spent,
a claim on another pause. -/
def RequestsStayWithPause (p : Pool ε) : PoolAction ε → Prop
  | .advance index .ok => ∀ args i, p.tasks[index]? = some (PoolTask.continueWith (.entering args)) →
      p.state.interrupts.get? args.interruptId = some i → i.status = .waiting →
        i.resumeClaim = none → ∀ (n : Nat) (t : ContinueTask ε) (r : Resume ε),
          p.tasks[n]? = some (PoolTask.continueWith t) → t.claimed? = some r →
          RepeatsRequest r.args args ∨ RepeatsRequest args r.args → r.interrupt.serial = i.serial
  | _ => True

variable {p : Pool ε}

theorem tokens_fresh (h : PoolRecords p) {serial : Nat} (hs : p.pauses ≤ serial) :
    tokens p serial = 0 := by
  have hold : ∀ k (i : Interrupt ε), Recorded p.log k i → i.serial ≠ serial := by
    intro k i hi
    have hlt := h.fresh _ _ _ hi.2
    omega
  have hledger : ledgerCount p.state serial = 0 := by
    refine List.countP_eq_zero.mpr ?_
    intro i hi hav
    have hlt := serial_lt_of_mem h hi
    have he : i.serial = serial := by simpa [available] using (Bool.and_eq_true_iff.mp hav).2
    omega
  have htasks : p.tasks.countP (PoolTask.holds serial) = 0 := by
    refine List.countP_eq_zero.mpr ?_
    intro x hx hh
    obtain ⟨n, hn⟩ := List.mem_iff_getElem?.mp hx
    cases x with
    | continueWith t =>
      have ht : (t.claimed?.any fun r => decide (r.interrupt.serial = serial)) = true := hh
      obtain ⟨r, hr, hrs⟩ := (Option.any_eq_true _ _).mp ht
      exact hold _ _ (h.calls n t hn r (record_of_claimed hr)) (by simpa using hrs)
    | pauseFor t =>
      cases t with
      | finished raised => cases hh
      | pausing e phase i =>
        obtain ⟨hi, hprev⟩ := h.pausing n _ hn e phase i rfl
        cases phase with
        | planned =>
          have he : decide (i.serial = serial) = true := hh
          exact hold _ _ hi (by simpa using he)
        | persisting previous s =>
          have hp : previous.any (available serial) = true := hh
          obtain ⟨j, hj, hav⟩ := (Option.any_eq_true _ _).mp hp
          exact hold _ _ (hprev j s (by rw [hj]))
            (by simpa [available] using (Bool.and_eq_true_iff.mp hav).2)
        | _ => cases hh
  have hlog : p.log.countP (startedBySignal serial) = 0 := by
    refine List.countP_eq_zero.mpr ?_
    intro e he hh
    cases e with
    | started s by' =>
      cases by' with
      | signal id =>
        have hlt := h.spent s id he
        have hs' : s = serial := by simpa [startedBySignal] using hh
        omega
      | call n args => cases hh
    | _ => cases hh
  rw [tokens, hledger, htasks, hlog]

theorem continueEvents_no_signal_start (n : Nat) (t : ContinueTask ε) (o : AwaitResult)
    (serial : Nat) : (continueEvents n t o).countP (startedBySignal serial) = 0 := by
  unfold continueEvents
  split <;> rfl

variable {q : Pool ε} {index : Nat} {o : AwaitResult} {x : PoolTask ε}

theorem tokens_advance
    (h : PoolRecords p) (hx : p.tasks[index]? = some x) (hq : advanceTask p index o x = some q)
    (serial : Nat) : tokens q serial ≤ tokens p serial := by
  rcases advance_cases hq with ⟨t, rfl, rfl⟩ | ⟨t, rfl, rfl⟩
  · have hbal := advanceContinue_balance p.state t o serial
      (fun r hr => h.accepted index r (hr ▸ hx))
      (by
        intro r hr stored hstored hstamp
        have hrec := h.calls index t hx r hr
        have hsto := h.ledger _ (Dict.mem_of_get? hstored)
        have hpaused := hrec.2
        rw [← hstamp] at hpaused
        exact h.stamps _ _ _ _ hsto.2 hpaused)
    have hset := countP_set_add (PoolTask.holds serial)
      (b := PoolTask.continueWith (advanceContinue p.state t o).2) hx
    have hlog := continueEvents_no_signal_start index t o serial
    simp only [tokens, List.countP_append, PoolTask.holds] at hset ⊢
    omega
  · have hbal := advancePause_balance p.state t o serial
    have hset := countP_set_add (PoolTask.holds serial)
      (b := PoolTask.pauseFor (advancePause p.state t o).2) hx
    simp only [tokens, PoolTask.holds] at hset ⊢
    omega

theorem tokens_append_task (p : Pool ε) (x : PoolTask ε) (serial : Nat) :
    tokens { p with tasks := p.tasks ++ [x] } serial = tokens p serial + (x.holds serial).toNat := by
  simp only [tokens, List.countP_append, countP_cons_toNat, List.countP_nil]
  omega

structure DispatchInv (p : Pool ε) : Prop where
  records : PoolRecords p
  tokens : ∀ serial, tokens p serial ≤ 1
  started : ∀ serial (n : Nat) args, .started serial (.call n args) ∈ p.log →
    .raised serial (.call n args) ∈ p.log ∨ ∃ (t : ContinueTask ε) (r : Resume ε),
      p.tasks[n]? = some (PoolTask.continueWith t) ∧ t.dispatched? = some r ∧
        r.interrupt.serial = serial ∧ r.args = args
  once : DispatchedAtMostOnce p.log

variable {t : ContinueTask ε}

theorem holds_of_dispatched {r : Resume ε} (h : t.dispatched? = some r) :
    (PoolTask.continueWith t).holds r.interrupt.serial = true := by
  have hh := holds_of_claimed (claimed_of_dispatched h) r.interrupt.serial
  rw [decide_eq_true rfl] at hh
  exact hh

theorem openDispatch_place (h : DispatchInv p) {serial : Nat} {resumer : Resumer}
    (ho : OpenDispatch p.log serial resumer) :
    1 ≤ p.log.countP (startedBySignal serial) ∨
      ∃ (n : Nat) (t : ContinueTask ε) (r : Resume ε),
        p.tasks[n]? = some (PoolTask.continueWith t) ∧ t.dispatched? = some r ∧
          r.interrupt.serial = serial := by
  cases resumer with
  | signal id =>
    left
    exact List.countP_pos_iff.mpr ⟨_, ho.1, by simp [startedBySignal]⟩
  | call n args =>
    right
    rcases h.started serial n args ho.1 with hr | ⟨t, r, ht, hd, hs, -⟩
    · exact absurd hr ho.2
    · exact ⟨n, t, r, ht, hd, hs⟩

theorem no_open_of_holder (h : DispatchInv p) {serial : Nat}
    (ht : p.tasks[index]? = some (PoolTask.continueWith t))
    (hh : t.holds serial = true) (hd : t.dispatched? = none) (resumer : Resumer) :
    ¬ OpenDispatch p.log serial resumer := by
  intro ho
  have htok := h.tokens serial
  unfold tokens at htok
  have hone : ((PoolTask.continueWith t).holds serial).toNat = 1 := by
    rw [PoolTask.holds, hh]
    rfl
  rcases openDispatch_place h ho with hlog | ⟨n, t', r', ht', hd', hs'⟩
  · have hle := toNat_le_countP (PoolTask.holds serial) ht
    omega
  · have hn : n ≠ index := by
      intro e
      subst e
      rw [ht] at ht'
      cases ht'
      rw [hd] at hd'
      cases hd'
    have hholds := holds_of_dispatched hd'
    rw [hs'] at hholds
    have hle := toNat_add_toNat_le_countP (PoolTask.holds serial) hn ht' ht
    rw [hone, hholds] at hle
    simp only [Bool.toNat_true] at hle
    omega

theorem no_open_of_available (h : DispatchInv p) {i : Interrupt ε}
    (hi : i ∈ p.state.interrupts.vals) (ha : available i.serial i = true) (resumer : Resumer) :
    ¬ OpenDispatch p.log i.serial resumer := by
  intro ho
  have htok := h.tokens i.serial
  unfold tokens ledgerCount at htok
  have hpos : 0 < p.state.interrupts.vals.countP (available i.serial) :=
    List.countP_pos_iff.mpr ⟨i, hi, ha⟩
  rcases openDispatch_place h ho with hlog | ⟨n, t', r', ht', hd', hs'⟩
  · omega
  · have hholds := holds_of_dispatched hd'
    rw [hs'] at hholds
    have hle := toNat_le_countP (PoolTask.holds i.serial) ht'
    rw [hholds, Bool.toNat_true] at hle
    omega

theorem dispatchedAtMostOnce_signal {log more : List PoolEvent}
    (hlog : DispatchedAtMostOnce log)
    (hall : ∀ e ∈ more, ∃ serial id, e = .started serial (.signal id) ∧
      ∀ resumer, ¬ OpenDispatch log serial resumer)
    (hcount : ∀ serial, more.countP (startedBySignal serial) ≤ 1) :
    DispatchedAtMostOnce (more ++ log) := by
  induction more with
  | nil => exact hlog
  | cons e rest ih =>
    have hrest := ih (List.forall_mem_cons.mp hall).2 (by
      intro serial
      have hc := hcount serial
      rw [countP_cons_toNat] at hc
      omega)
    refine ⟨hrest, ?_⟩
    intro serial resumer he earlier ho
    obtain ⟨serial', id, he', hnone⟩ := hall e List.mem_cons_self
    rw [he] at he'
    cases he'
    rcases List.mem_append.mp ho.1 with hm | hm
    · obtain ⟨serial'', id', he'', -⟩ := hall _ (List.mem_cons_of_mem _ hm)
      cases he''
      have hpos : 0 < rest.countP (startedBySignal serial) :=
        List.countP_pos_iff.mpr ⟨_, hm, by simp [startedBySignal]⟩
      have hc := hcount serial
      rw [he, countP_cons_toNat] at hc
      simp only [startedBySignal, decide_true, Bool.toNat_true] at hc
      omega
    · exact hnone earlier ⟨hm, fun hr => ho.2 (List.mem_append_right _ hr)⟩

theorem started_advance
    (h : DispatchInv p) (hx : p.tasks[index]? = some x) (hq : advanceTask p index o x = some q)
    (serial : Nat) (n : Nat) (args : ContinueArgs)
    (hm : .started serial (.call n args) ∈ q.log) :
    .raised serial (.call n args) ∈ q.log ∨ ∃ (t : ContinueTask ε) (r : Resume ε),
      q.tasks[n]? = some (PoolTask.continueWith t) ∧ t.dispatched? = some r ∧
        r.interrupt.serial = serial ∧ r.args = args := by
  obtain ⟨hlen, -⟩ := List.getElem?_eq_some_iff.mp hx
  rcases advance_cases hq with ⟨t, rfl, rfl⟩ | ⟨t, rfl, rfl⟩
  · have hself : (p.tasks.set index (.continueWith (advanceContinue p.state t o).2))[index]? =
        some (PoolTask.continueWith (advanceContinue p.state t o).2) :=
      List.getElem?_set_self hlen
    rcases List.mem_append.mp hm with hev | hm
    · right
      unfold continueEvents at hev
      split at hev
      next r =>
        cases List.mem_singleton.mp hev
        exact ⟨_, r, hself, rfl, rfl, rfl⟩
      next => cases List.mem_singleton.mp hev
      next => cases List.mem_singleton.mp hev
      next => cases hev
    · rcases h.started serial n args hm with hr | ⟨t', r, ht', hd, hs, ha⟩
      · exact .inl (List.mem_append_right _ hr)
      · by_cases hn : n = index
        · subst hn
          rw [hx] at ht'
          cases ht'
          rcases advanceContinue_dispatched p.state o hd with ⟨rfl, error, rfl⟩ | ⟨r', hd', ha', hs'⟩
          · left
            refine List.mem_append_left _ ?_
            rw [continueEvents, hs, ha]
            exact List.mem_singleton_self _
          · exact .inr ⟨_, r', hself, hd', hs'.trans hs, ha'.trans ha⟩
        · right
          exact ⟨t', r, (List.getElem?_set_ne (Ne.symm hn)).trans ht', hd, hs, ha⟩
  · rcases h.started serial n args hm with hr | ⟨t', r, ht', hd, hs, ha⟩
    · exact .inl hr
    · right
      have hn : index ≠ n := by
        rintro rfl
        rw [hx] at ht'
        cases ht'
      exact ⟨t', r, (List.getElem?_set_ne hn).trans ht', hd, hs, ha⟩

theorem once_advance
    (h : DispatchInv p) (hx : p.tasks[index]? = some x) (hq : advanceTask p index o x = some q) :
    DispatchedAtMostOnce q.log := by
  rcases advance_cases hq with ⟨t, rfl, rfl⟩ | ⟨t, rfl, rfl⟩
  · show DispatchedAtMostOnce (continueEvents index t o ++ p.log)
    unfold continueEvents
    split
    next r =>
      refine ⟨h.once, ?_⟩
      intro serial resumer he
      cases he
      refine no_open_of_holder h hx ?_ rfl
      rw [holds_of_claimed (r := r) rfl]
      exact decide_eq_true rfl
    next => exact ⟨h.once, by intro serial resumer he; cases he⟩
    next => exact ⟨h.once, by intro serial resumer he; cases he⟩
    next => exact h.once
  · exact h.once

theorem started_append_task (h : DispatchInv p) (x : PoolTask ε) (serial : Nat)
    (n : Nat) (args : ContinueArgs) (hm : .started serial (.call n args) ∈ p.log) :
    .raised serial (.call n args) ∈ p.log ∨ ∃ (t : ContinueTask ε) (r : Resume ε),
      (p.tasks ++ [x])[n]? = some (PoolTask.continueWith t) ∧ t.dispatched? = some r ∧
        r.interrupt.serial = serial ∧ r.args = args := by
  rcases h.started serial n args hm with hr | ⟨t, r, ht, hrest⟩
  · exact .inl hr
  · obtain ⟨hlen, -⟩ := List.getElem?_eq_some_iff.mp ht
    exact .inr ⟨t, r, (List.getElem?_append_left hlen).trans ht, hrest⟩

theorem dispatchInv_initial : DispatchInv (Pool.initial : Pool ε) where
  records := poolRecords_initial
  tokens := fun _ => Nat.zero_le _
  started := by intro serial n args hm; cases hm
  once := trivial

structure RequestInv (p : Pool ε) : Prop where
  same : ∀ (n n' : Nat) (t t' : ContinueTask ε) (r r' : Resume ε),
    p.tasks[n]? = some (PoolTask.continueWith t) → p.tasks[n']? = some (PoolTask.continueWith t') →
      t.claimed? = some r → t'.claimed? = some r' → RepeatsRequest r.args r'.args →
        r.interrupt.serial = r'.interrupt.serial
  completed : ∀ serial (n : Nat) args, .completed serial (.call n args) ∈ p.log →
    ∃ (t : ContinueTask ε) (r : Resume ε), p.tasks[n]? = some (PoolTask.continueWith t) ∧
      t.completed? = some r ∧ r.interrupt.serial = serial ∧ r.args = args
  rest : CompletedRequestsRest p.log

theorem requestInv_initial : RequestInv (Pool.initial : Pool ε) where
  same := by intro n n' t t' r r' h; simp [Pool.initial] at h
  completed := by intro serial n args hm; cases hm
  rest := trivial

theorem claimed_after_advance
    (hx : p.tasks[index]? = some (PoolTask.continueWith t)) {n : Nat} {t' : ContinueTask ε}
    {r' : Resume ε}
    (hn : (p.tasks.set index (.continueWith (advanceContinue p.state t o).2))[n]? =
      some (PoolTask.continueWith t')) (hc : t'.claimed? = some r') :
    (∃ (t₀ : ContinueTask ε) (r₀ : Resume ε), p.tasks[n]? = some (PoolTask.continueWith t₀) ∧
        t₀.claimed? = some r₀ ∧ r'.args = r₀.args ∧ r'.interrupt.serial = r₀.interrupt.serial) ∨
      (n = index ∧ o = .ok ∧ t = .entering r'.args ∧
        ∃ i, p.state.interrupts.get? r'.args.interruptId = some i ∧ i.status = .waiting ∧
          i.resumeClaim = none ∧ r'.interrupt.serial = i.serial) := by
  rcases getElem?_set_cases hn with ⟨-, hn⟩ | ⟨hni, hn⟩
  · exact .inl ⟨t', r', hn, hc, rfl, rfl⟩
  · injection hn with hn
    subst hn
    rcases advanceContinue_claimed hc with ⟨r, hr, ha, hs⟩ | hclaim
    · exact .inl ⟨t, r, hni ▸ hx, hr, ha, hs⟩
    · exact .inr ⟨hni, hclaim⟩

theorem same_advance (h : RequestInv p) (hx : p.tasks[index]? = some (PoolTask.continueWith t))
    (hcond : RequestsStayWithPause p (.advance index o)) {n n' : Nat} {u u' : ContinueTask ε}
    {r r' : Resume ε}
    (hn : (p.tasks.set index (.continueWith (advanceContinue p.state t o).2))[n]? =
      some (PoolTask.continueWith u))
    (hn' : (p.tasks.set index (.continueWith (advanceContinue p.state t o).2))[n']? =
      some (PoolTask.continueWith u'))
    (hc : u.claimed? = some r) (hc' : u'.claimed? = some r') (hrep : RepeatsRequest r.args r'.args) :
    r.interrupt.serial = r'.interrupt.serial := by
  rcases claimed_after_advance hx hn hc with ⟨t₀, r₀, ht₀, hr₀, ha, hs⟩ | ⟨hi, ho, ht, i, hget, hw, hu, hs⟩
  · rcases claimed_after_advance hx hn' hc' with
      ⟨t₁, r₁, ht₁, hr₁, ha', hs'⟩ | ⟨hi', ho, ht, i, hget, hw, hu, hs'⟩
    · rw [hs, hs']
      exact h.same n n' t₀ t₁ r₀ r₁ ht₀ ht₁ hr₀ hr₁ (ha ▸ ha' ▸ hrep)
    · subst ho
      rw [hs, hs']
      exact hcond r'.args i (ht ▸ hx) hget hw hu n t₀ r₀ ht₀ hr₀ (.inl (ha ▸ hrep))
  · rcases claimed_after_advance hx hn' hc' with
      ⟨t₁, r₁, ht₁, hr₁, ha', hs'⟩ | ⟨hi', -, ht', i', hget', -, -, hs'⟩
    · subst ho
      rw [hs, hs']
      exact (hcond r.args i (ht ▸ hx) hget hw hu n' t₁ r₁ ht₁ hr₁ (.inr (ha' ▸ hrep))).symm
    · have he : r.args = r'.args := by
        rw [ht] at ht'
        injection ht'
      rw [← he, hget] at hget'
      rw [hs, hs', Option.some.inj hget']

theorem completed_advance
    (h : RequestInv p) (hx : p.tasks[index]? = some x) (hq : advanceTask p index o x = some q)
    (serial : Nat) (n : Nat) (args : ContinueArgs)
    (hm : .completed serial (.call n args) ∈ q.log) :
    ∃ (t : ContinueTask ε) (r : Resume ε), q.tasks[n]? = some (PoolTask.continueWith t) ∧
      t.completed? = some r ∧ r.interrupt.serial = serial ∧ r.args = args := by
  obtain ⟨hlen, -⟩ := List.getElem?_eq_some_iff.mp hx
  rcases advance_cases hq with ⟨t, rfl, rfl⟩ | ⟨t, rfl, rfl⟩
  · have hself : (p.tasks.set index (.continueWith (advanceContinue p.state t o).2))[index]? =
        some (PoolTask.continueWith (advanceContinue p.state t o).2) :=
      List.getElem?_set_self hlen
    rcases List.mem_append.mp hm with hev | hm
    · unfold continueEvents at hev
      split at hev
      next => cases List.mem_singleton.mp hev
      next r =>
        cases List.mem_singleton.mp hev
        obtain ⟨r', hc, ha, hs⟩ := finishDispatch_completed p.state r
        exact ⟨_, r', hself, hc, hs, ha⟩
      next => cases List.mem_singleton.mp hev
      next => cases hev
    · obtain ⟨t', r, ht', hc, hs, ha⟩ := h.completed serial n args hm
      by_cases hn : n = index
      · subst hn
        rw [hx] at ht'
        cases ht'
        exact ⟨_, r, hself, advanceContinue_completed o hc, hs, ha⟩
      · exact ⟨t', r, (List.getElem?_set_ne (Ne.symm hn)).trans ht', hc, hs, ha⟩
  · obtain ⟨t', r, ht', hc, hs, ha⟩ := h.completed serial n args hm
    have hn : index ≠ n := by
      rintro rfl
      rw [hx] at ht'
      cases ht'
    exact ⟨t', r, (List.getElem?_set_ne hn).trans ht', hc, hs, ha⟩

theorem rest_advance (hd : DispatchInv p) (h : RequestInv p) (hx : p.tasks[index]? = some x)
    (hq : advanceTask p index o x = some q) : CompletedRequestsRest q.log := by
  rcases advance_cases hq with ⟨t, rfl, rfl⟩ | ⟨t, rfl, rfl⟩
  · show CompletedRequestsRest (continueEvents index t o ++ p.log)
    unfold continueEvents
    split
    next r =>
      refine ⟨h.rest, ?_⟩
      intro serial n args he serial' n' args' hm hrep
      cases he
      obtain ⟨t', r', ht', hc', hs', ha'⟩ := h.completed serial' n' args' hm
      have hdisp := dispatched_of_completed hc'
      have hsame := h.same n' index t' _ r' r ht' hx (claimed_of_dispatched hdisp) rfl
        (ha' ▸ hrep)
      have hn : n' ≠ index := by
        intro e
        subst e
        rw [hx] at ht'
        cases ht'
        cases hc'
      have htok := hd.tokens r.interrupt.serial
      unfold tokens at htok
      have hholds := holds_of_dispatched hdisp
      have hholds' : (PoolTask.continueWith (.resuming .streamPut r)).holds r.interrupt.serial
          = true := decide_eq_true rfl
      have hle := toNat_add_toNat_le_countP (PoolTask.holds r.interrupt.serial) hn ht' hx
      rw [hsame] at hholds
      rw [hholds, hholds'] at hle
      simp only [Bool.toNat_true] at hle
      omega
    next => exact ⟨h.rest, by intro serial n args he; cases he⟩
    next => exact ⟨h.rest, by intro serial n args he; cases he⟩
    next => exact h.rest
  · exact h.rest

theorem requestInv_append_task (h : RequestInv p) (x : PoolTask ε)
    (hx : ∀ t, x = .continueWith t → t.claimed? = none) :
    RequestInv { p with tasks := p.tasks ++ [x] } where
  same := by
    intro n n' t t' r r' hn hn' hc hc' hrep
    rcases getElem?_concat hn with hn | hn
    · rcases getElem?_concat hn' with hn' | hn'
      · exact h.same n n' t t' r r' hn hn' hc hc' hrep
      · rw [hx t' hn'.symm] at hc'
        cases hc'
    · rw [hx t hn.symm] at hc
      cases hc
  completed := by
    intro serial n args hm
    obtain ⟨t, r, ht, hrest⟩ := h.completed serial n args hm
    obtain ⟨hlen, -⟩ := List.getElem?_eq_some_iff.mp ht
    exact ⟨t, r, (List.getElem?_append_left hlen).trans ht, hrest⟩
  rest := h.rest

theorem requestInv_advance (hd : DispatchInv p) (h : RequestInv p)
    (hcond : RequestsStayWithPause p (.advance index o)) (hx : p.tasks[index]? = some x)
    (hq : advanceTask p index o x = some q) : RequestInv q := by
  refine ⟨?_, completed_advance h hx hq, rest_advance hd h hx hq⟩
  intro n n' u u' r r' hn hn' hc hc' hrep
  rcases advance_cases hq with ⟨t, rfl, rfl⟩ | ⟨t, rfl, rfl⟩
  · exact same_advance h hx hcond hn hn' hc hc' hrep
  · rcases getElem?_set_cases hn with ⟨-, hn⟩ | ⟨-, hn⟩
    · rcases getElem?_set_cases hn' with ⟨-, hn'⟩ | ⟨-, hn'⟩
      · exact h.same n n' u u' r r' hn hn' hc hc' hrep
      · cases hn'
    · cases hn

variable [DecidableEq ε]

variable {a : PoolAction ε}

theorem tokens_step (h : PoolRecords p)
    (hq : poolStep p a = some q) (ht : ∀ serial, tokens p serial ≤ 1) (serial : Nat) :
    tokens q serial ≤ 1 := by
  cases a with
  | continueWith args =>
    cases hq
    rw [tokens_append_task]
    exact ht serial
  | pauseFor args c =>
    rcases startPause_cases hq with rfl | ⟨i, hi, rfl⟩
    · rw [tokens_append_task]
      exact ht serial
    · have hserial : i.serial = p.pauses :=
        congrArg (fun j => j.serial) (planInterrupt_eq_some hi)
      have happ := tokens_append_task p
        (.pauseFor (.pausing args.interruptId.isSome .planned i)) serial
      have hholds : (PoolTask.pauseFor
          (.pausing args.interruptId.isSome .planned i)).holds serial =
          decide (i.serial = serial) := rfl
      rw [hholds, hserial] at happ
      show tokens { p with
        tasks := p.tasks ++ [.pauseFor (.pausing args.interruptId.isSome .planned i)] } serial ≤ 1
      rw [happ]
      by_cases hs : p.pauses = serial
      · rw [tokens_fresh h hs.le]
        simp [hs]
      · simpa [hs] using ht serial
  | advance index o =>
    obtain ⟨x, hx, hadv⟩ := Option.bind_eq_some_iff.mp hq
    exact (tokens_advance h hx hadv serial).trans (ht serial)
  | signal s =>
    cases hq
    have hbal := signal_balance p.state s serial
    have hold := ht serial
    simp only [tokens, List.countP_append] at hold ⊢
    omega
  | cancel reason =>
    cases hq
    have hbal := cancel_balance p.state reason serial
    have hold := ht serial
    simp only [tokens] at hold ⊢
    omega
  | sealExecution =>
    cases hq
    exact ht serial

theorem dispatchInv_step (h : DispatchInv p)
    (hclock : ClockAdvances p a) (hq : poolStep p a = some q) : DispatchInv q := by
  have hrec := poolRecords_step h.records hclock hq
  have htok := tokens_step h.records hq h.tokens
  cases a with
  | continueWith args =>
    cases hq
    exact ⟨hrec, htok, started_append_task h _, h.once⟩
  | pauseFor args c =>
    rcases startPause_cases hq with rfl | ⟨i, hi, rfl⟩
    · exact ⟨hrec, htok, started_append_task h _, h.once⟩
    · refine ⟨hrec, htok, ?_, h.once, by intro serial resumer he; cases he⟩
      intro serial n args' hm
      have hm' : PoolEvent.started serial (.call n args') ∈ p.log :=
        (List.mem_cons.mp hm).resolve_left nofun
      rcases started_append_task h
        (.pauseFor (.pausing args.interruptId.isSome .planned i)) serial n args' hm' with hr | ht
      · exact .inl (List.mem_cons_of_mem _ hr)
      · exact .inr ht
  | advance index o =>
    obtain ⟨x, hx, hadv⟩ := Option.bind_eq_some_iff.mp hq
    exact ⟨hrec, htok, started_advance h hx hadv, once_advance h hx hadv⟩
  | signal s =>
    cases hq
    refine ⟨hrec, htok, ?_, ?_⟩
    · intro serial n args hm
      rcases List.mem_append.mp hm with hm | hm
      · obtain ⟨i, -, -, he⟩ := mem_signalEvents hm
        cases he
      · rcases h.started serial n args hm with hr | ht
        · exact .inl (List.mem_append_right _ hr)
        · exact .inr ht
    · refine dispatchedAtMostOnce_signal h.once ?_ ?_
      · intro e he
        obtain ⟨i, hi, hr, rfl⟩ := mem_signalEvents he
        refine ⟨i.serial, s.id, rfl, no_open_of_available h hi ?_⟩
        have hfree := (Bool.and_eq_true_iff.mp hr).1
        rw [available, hfree]
        exact decide_eq_true rfl
      · intro serial
        have hbal := signal_balance p.state s serial
        have hone := h.tokens serial
        unfold tokens at hone
        omega
  | cancel reason =>
    cases hq
    exact ⟨hrec, htok, h.started, h.once⟩
  | sealExecution =>
    cases hq
    exact ⟨hrec, htok, h.started, h.once⟩

theorem completedRequestsRest_signal {log more : List PoolEvent}
    (hlog : CompletedRequestsRest log)
    (hall : ∀ e ∈ more, ∃ serial id, e = .started serial (.signal id)) :
    CompletedRequestsRest (more ++ log) := by
  induction more with
  | nil => exact hlog
  | cons e rest ih =>
    refine ⟨ih (List.forall_mem_cons.mp hall).2, ?_⟩
    intro serial n args he
    obtain ⟨serial', id, he'⟩ := hall e List.mem_cons_self
    rw [he'] at he
    cases he

theorem requestInv_step (hd : DispatchInv p)
    (h : RequestInv p) (hcond : RequestsStayWithPause p a) (hq : poolStep p a = some q) :
    RequestInv q := by
  cases a with
  | continueWith args =>
    cases hq
    exact requestInv_append_task h _ (by intro t ht; cases ht; rfl)
  | pauseFor args c =>
    rcases startPause_cases hq with rfl | ⟨i, hi, rfl⟩
    · exact requestInv_append_task h _ (by intro t ht; cases ht)
    · have happ := requestInv_append_task h
        (.pauseFor (.pausing args.interruptId.isSome .planned i)) (by intro t ht; cases ht)
      refine ⟨happ.same, ?_, h.rest, by intro serial n args' he; cases he⟩
      intro serial n args' hm
      exact happ.completed serial n args'
        ((List.mem_cons.mp hm).resolve_left nofun)
  | advance index o =>
    obtain ⟨x, hx, hadv⟩ := Option.bind_eq_some_iff.mp hq
    exact requestInv_advance hd h hcond hx hadv
  | signal s =>
    cases hq
    refine ⟨h.same, ?_, ?_⟩
    · intro serial n args hm
      rcases List.mem_append.mp hm with hm | hm
      · obtain ⟨i, -, -, he⟩ := mem_signalEvents hm
        cases he
      · exact h.completed serial n args hm
    · refine completedRequestsRest_signal h.rest ?_
      intro e he
      obtain ⟨i, -, -, he⟩ := mem_signalEvents he
      exact ⟨i.serial, s.id, he⟩
  | cancel reason =>
    cases hq
    exact ⟨h.same, h.completed, h.rest⟩
  | sealExecution =>
    cases hq
    exact ⟨h.same, h.completed, h.rest⟩

/-- In every run in which the clock tells re-pauses of one id apart, each pause is dispatched at
most once until a dispatch raises; if no call repeats the request of another pause, a completed
request is never dispatched again. -/
theorem interrupts_dispatched_at_most_once {as : List (PoolAction ε)} {p : Pool ε}
    (hclock : (interruptPool ε).Meets ClockAdvances Pool.initial as)
    (hrun : (interruptPool ε).run Pool.initial as = some p) :
    DispatchedAtMostOnce p.log ∧
      ((interruptPool ε).Meets RequestsStayWithPause Pool.initial as →
        CompletedRequestsRest p.log) := by
  constructor
  · exact ((interruptPool ε).run_invariant_meeting
      (fun s a t hi hc hs => dispatchInv_step hi hc hs) dispatchInv_initial hclock hrun).once
  · intro hreq
    have hboth := (interruptPool ε).meets_and hclock hreq
    exact ((interruptPool ε).run_invariant_meeting (I := fun s => DispatchInv s ∧ RequestInv s)
      (fun s a t hi hc hs => ⟨dispatchInv_step hi.1 hc.1 hs, requestInv_step hi.1 hi.2 hc.2 hs⟩)
      ⟨dispatchInv_initial, requestInv_initial⟩ hboth hrun).2.rest

def gatePause : PauseArgs String := { interruptId := some "gate" }

def gateContext (now : Nat) : PauseContext String :=
  { lastSignal := none, sourceOperatorId := none, continuationEvent := some "Chunk[gate]-Done"
    now := now, freshId := "fresh", serial := 0 }

def gateCall : ContinueArgs :=
  { interruptId := "gate", value := .bool true, resumeRequestId := some "request-1" }

def repausedRun : List (PoolAction String) :=
  .pauseFor gatePause (gateContext 1) :: List.replicate 8 (.advance 0 .ok) ++
    .continueWith gateCall :: List.replicate 7 (.advance 1 .ok) ++
    .pauseFor gatePause (gateContext 2) :: List.replicate 8 (.advance 2 .ok) ++
    .continueWith gateCall :: List.replicate 5 (.advance 3 .ok)

theorem repaused_gate_dispatches_again :
    ¬ ∀ (as : List (PoolAction String)) p, (interruptPool String).run Pool.initial as = some p →
      DispatchedAtMostOnce p.log ∧ CompletedRequestsRest p.log := by
  intro h
  have hrest := (h repausedRun _ rfl).2
  exact hrest.2 1 3 gateCall rfl 0 1 gateCall (by decide) ⟨rfl, "request-1", rfl, rfl, by decide⟩

theorem repaused_gate_dispatched_at_most_once :
    DispatchedAtMostOnce
      (((interruptPool String).run Pool.initial repausedRun).get (by decide)).log :=
  (@interrupts_dispatched_at_most_once String _ repausedRun _ (by decide)
    (Option.some_get (by decide)).symm).1

end Agently.TriggerFlow
