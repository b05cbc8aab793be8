import Agently.TaskDAG.TaskRuns

/-! # Approval gating in a run of a task graph

Source: `TaskDAG/TaskDAGRuntime.py`, `TriggerFlow/ExecutionInterrupts.py`,
`PolicyApproval/PolicyApproval.py`. A resumed task runner skips its gate and never looks at the
decision; which runs of a graph keep to the approvals all the same is settled here. -/

namespace Agently.DynamicTask

open Agently.Lib Agently.Utils Agently.TriggerFlow Agently.Operation

def ApprovedBefore (graph : TaskDAG) : List DagNotice → Prop
  | [] => True
  | x :: older => ApprovedBefore graph older ∧
      ∀ t, x = .ran t → graph.approvalRequired t = true →
        ∃ serial value, .gated t serial ∈ older ∧ .continued serial value ∈ older ∧
          approves value = true

structure ApprovalsGate (graph : TaskDAG) (log : List DagNotice) : Prop where
  approved : ApprovedBefore graph log
  denied : ∀ t serial value, .gated t serial ∈ log → .continued serial value ∈ log →
    approves value = false → .ran t ∉ log
  once : ∀ t, log.count (.completed t) ≤ 1

def BringsApproval (p : Pool DagEvent) (index : Nat) : Prop :=
  p.tasks[index]?.all fun x => match x with
    | .continueWith (.resuming .streamPut r) => approves r.args.value
    | _ => true

def PausesAlone (flow : Flow DagEvent DagHandler) (e : Execution DagEvent DagHandler)
    (inv : Invocation DagEvent DagHandler) : Prop :=
  e.lastSignal = some inv.signal ∧ iterHandlers flow e inv.signal = [inv.handler]

def AsksFirst (value : Value) : Prop :=
  (normalizeDecision "" value).all fun d => decide (d.status ≠ .approved)

def KeepsToItself (graph : TaskDAG) (chunkId : DagHandler → String) (r : DagRun) : DagAction → Prop
  | .engine (.advance index .ok _) => BringsApproval r.execution.pool index
  | .engine (.advance index (.raised _) _) => AwaitsNeither r.execution.pool index
  | .engine _ => True
  | .runner n c => ∀ inv ∈ r.execution.invocations[n]?,
      match phaseOf graph r n inv with
      | .gating => AsksFirst c.value
      | .pausing _ => PausesAlone (compileTaskDag graph chunkId) r.execution inv
      | _ => True

instance (graph : TaskDAG) (chunkId : DagHandler → String) (r : DagRun) (a : DagAction) :
    Decidable (KeepsToItself graph chunkId r a) :=
  match a with
  | .engine (.advance _ .ok _) => inferInstanceAs (Decidable (_ = true))
  | .engine (.advance _ (.raised _) _) => inferInstanceAs (Decidable (_ = true))
  | .engine (.emit _) | .engine (.emitNowait _) | .engine (.advanceDispatch _)
  | .engine (.failDispatch _) | .engine (.pauseFor _ _ _ _) | .engine (.endHandler _)
  | .engine (.continueWith _) | .engine (.cancel _) | .engine (.bind _) | .engine (.unbind _ _ _)
  | .engine .sealExecution | .engine .close => isTrue trivial
  | .runner n c =>
    have : ∀ inv, Decidable (match phaseOf graph r n inv with
        | .gating => AsksFirst c.value
        | .pausing _ => PausesAlone (compileTaskDag graph chunkId) r.execution inv
        | _ => True) := fun inv =>
      match phaseOf graph r n inv with
      | .gating => inferInstanceAs (Decidable (_ = true))
      | .pausing _ => inferInstanceAs (Decidable (_ ∧ _))
      | .kickoff _ | .joining | .joined _ | .finalizing | .starting | .paused _ _ | .executing
      | .recording _ | .announced _ | .failing | .failed | .returning _ | .suspended _ | .over =>
        isTrue trivial
    inferInstanceAs (Decidable (∀ inv ∈ r.execution.invocations[n]?, _))

def DagEvent.tracked : DagEvent → Bool
  | .flowStart | .start _ | .done _ | .joined _ => true
  | _ => false

structure NoticesKept (graph : TaskDAG) (r : DagRun) : Prop where
  approving : ∀ serial value, .continued serial value ∈ r.log → approves value = true
  continued : ∀ call serial s, (DispatchCause.resumed call serial, s) ∈ sources r.execution →
    ∃ value, .continued serial value ∈ r.log
  finished : ∀ t, .completed t ∈ r.log →
    ∃ n x p, Runs graph r n x p ∧ x.2.1 = .run t ∧ p.finished = true
  approved : ApprovedBefore graph r.log
  once : ∀ t, r.log.count (.completed t) ≤ 1

structure RaisedBy (graph : TaskDAG) (r : DagRun) (serial : Nat) (raise : Raise DagEvent DagHandler)
    (t : String) (n : Nat) (x : Nat × DagHandler × Signal DagEvent) (p : RunnerPhase) : Prop where
  runs : Runs graph r n x p
  handler : x.2.1 = .run t
  raiser : raise.handler = .run t
  fresh : x.2.2.isResume = false
  held : p.heldBy serial
  interrupt : raise.interrupt.id = approvalInterruptId graph t
  gated : .gated t serial ∈ r.log

structure DagInv (graph : TaskDAG) (chunkId : DagHandler → String) (r : DagRun) : Prop where
  solo : SoloResume (compileTaskDag graph chunkId) r.execution
  known : ∀ (n : Nat) p, r.phases.get? n = some p → n < (deliveries r.execution).length
  gates : ∀ n x p, Runs graph r n x p → p.asking = true →
    ∃ t, x.2.1 = .run t ∧ graph.approvalRequired t = true ∧ x.2.2.isResume = false
  raises : ∀ (serial : Nat) raise, r.execution.raises[serial]? = some raise →
    ∃ t n x p, RaisedBy graph r serial raise t n x p
  pauses : ∀ n x serial index, Runs graph r n x (.paused serial index) →
    ∃ t, r.execution.pool.tasks[index]? = some (PoolTask.pauseFor t) ∧ t.healthy = true
  emittedOnce : ∀ (m n : Nat) s s', (sources r.execution)[m]? = some (.emitted, s) →
    (sources r.execution)[n]? = some (.emitted, s') → s.triggerEvent = s'.triggerEvent →
      s.triggerEvent.tracked = true → m = n
  spent : ∀ s, (DispatchCause.emitted, s) ∈ sources r.execution → Spent graph r s.triggerEvent
  joins : ∀ key filled, r.joins.get? key = some filled → ∀ d ∈ filled, Handled graph r key.1 d
  kicks : ∀ n x rest, Runs graph r n x (.kickoff rest) → rest.Nodup
  notices : NoticesKept graph r

section Uniqueness

variable {graph : TaskDAG} {chunkId : DagHandler → String} {r : DagRun}
  (h : DagInv graph chunkId r) {m n : Nat} {x y : Nat × DagHandler × Signal DagEvent}
  {p q : RunnerPhase} (hn : Runs graph r n x p) (hm : Runs graph r m y q)

include h hn hm

theorem fresh_eq (hh : x.2.1 = y.2.1) (hx : x.2.2.isResume = false) (hy : y.2.2.isResume = false)
    (he : x.2.2.triggerEvent = y.2.2.triggerEvent) (ht : x.2.2.triggerEvent.tracked = true) :
    n = m := by
  have hsx : (sources r.execution)[x.1]? = some (.emitted, x.2.2) := by
    rcases h.solo.origin hn.1 with ⟨hs, -⟩ | ⟨c, s, raise, -, hres, -⟩
    · exact hs
    · rw [hx] at hres
      cases hres
  have hsy : (sources r.execution)[y.1]? = some (.emitted, y.2.2) := by
    rcases h.solo.origin hm.1 with ⟨hs, -⟩ | ⟨c, s, raise, -, hres, -⟩
    · exact hs
    · rw [hy] at hres
      cases hres
  exact h.solo.run_eq hn.1 compileTaskDag_nodup hm.1 (h.emittedOnce _ _ _ _ hsx hsy he ht) hh

omit h hm in
theorem run_event (h : DagInv graph chunkId r) {t : String} (hx : x.2.1 = .run t) :
    ∃ task ∈ graph.tasks, task.id = t ∧ x.2.2.triggerEvent = taskTrigger task := by
  rcases listens_cases (h.solo.listens hn.1) with ⟨hk, -⟩ | ⟨hk, -⟩ | ⟨task, htask, hk, he⟩ | ⟨ds, hk, -⟩
  · rw [hx] at hk
    cases hk
  · rw [hx] at hk
    cases hk
  · rw [hx] at hk
    cases hk
    exact ⟨task, htask, rfl, he⟩
  · rw [hx] at hk
    cases hk

omit h hn hm in
theorem taskTrigger_tracked (task : TaskDAGNode) : (taskTrigger task).tracked = true := by
  unfold taskTrigger
  split <;> rfl

theorem fresh_run_eq {t : String} (hx : x.2.1 = .run t) (hy : y.2.1 = .run t)
    (hfx : x.2.2.isResume = false) (hfy : y.2.2.isResume = false) : n = m := by
  obtain ⟨task, htask, hid, he⟩ := run_event hn h hx
  obtain ⟨task', htask', hid', he'⟩ := run_event hm h hy
  have hsame := task_eq_of_id htask htask' (hid.trans hid'.symm)
  subst hsame
  refine fresh_eq h hn hm (hx.trans hy.symm) hfx hfy (he.trans he'.symm) ?_
  rw [he]
  exact taskTrigger_tracked task

omit hm in
theorem resumed_raise (hx : x.2.2.isResume = true) :
    ∃ call serial raise t n' x' p', (sources r.execution)[x.1]? = some (.resumed call serial, x.2.2) ∧
      x.2.1 = .run t ∧ RaisedBy graph r serial raise t n' x' p' := by
  rcases h.solo.origin hn.1 with ⟨-, hf⟩ | ⟨call, serial, raise, hs, -, hraise, hh⟩
  · rw [hx] at hf
    cases hf
  · obtain ⟨t, n', x', p', hby⟩ := h.raises serial raise hraise
    exact ⟨call, serial, raise, t, n', x', p', hs, hh.trans hby.raiser, hby⟩

omit hm in
theorem fresh_of_not_run (hx : ∀ t, x.2.1 ≠ .run t) : x.2.2.isResume = false := by
  cases hres : x.2.2.isResume with
  | false => rfl
  | true =>
    obtain ⟨call, serial, raise, t, n', x', p', -, ht, -⟩ := resumed_raise h hn hres
    exact absurd ht (hx t)

omit h hn hm in
theorem RunnerPhase.heldBy_inj {p : RunnerPhase} {s s' : Nat} (hs : p.heldBy s) (hs' : p.heldBy s') :
    s = s' := by
  cases p <;> simp_all [RunnerPhase.heldBy]

theorem run_conflict {t : String} (hx : x.2.1 = .run t) (hy : y.2.1 = .run t) (hne : n ≠ m) :
    (∃ s, p.heldBy s) ∨ ∃ s, q.heldBy s := by
  cases hfx : x.2.2.isResume with
  | false =>
    cases hfy : y.2.2.isResume with
    | false => exact absurd (fresh_run_eq h hn hm hx hy hfx hfy) hne
    | true =>
      obtain ⟨call, serial, raise, t', n', x', p', -, ht, hby⟩ := resumed_raise h hm hfy
      rw [hy] at ht
      cases ht
      have hsame := fresh_run_eq h hn hby.runs hx hby.handler hfx hby.fresh
      subst hsame
      obtain ⟨-, rfl⟩ := hn.eq hby.runs
      exact .inl ⟨serial, hby.held⟩
  | true =>
    obtain ⟨call, serial, raise, t', n', x', p', hs, ht, hby⟩ := resumed_raise h hn hfx
    rw [hx] at ht
    cases ht
    cases hfy : y.2.2.isResume with
    | false =>
      have hsame := fresh_run_eq h hm hby.runs hy hby.handler hfy hby.fresh
      subst hsame
      obtain ⟨-, rfl⟩ := hm.eq hby.runs
      exact .inr ⟨serial, hby.held⟩
    | true =>
      obtain ⟨call', serial', raise', t', n₂, x₂, p₂, hs', ht', hby'⟩ := resumed_raise h hm hfy
      rw [hy] at ht'
      cases ht'
      have hsame := fresh_run_eq h hby.runs hby'.runs hby.handler hby'.handler hby.fresh hby'.fresh
      subst hsame
      obtain ⟨-, rfl⟩ := hby.runs.eq hby'.runs
      have hserial := RunnerPhase.heldBy_inj hby.held hby'.held
      subst hserial
      have hplace := h.solo.single _ _ _ _ _ _ _ hs hs'
      exact absurd (h.solo.run_eq hn.1 compileTaskDag_nodup hm.1 hplace (hx.trans hy.symm)) hne

end Uniqueness

section RunnerSteps

variable {graph : TaskDAG} {chunkId : DagHandler → String} {r r' : DagRun}
  {n : Nat} {x : Nat × DagHandler × Signal DagEvent} {p p' : RunnerPhase}

theorem RunsKept.finished (hk : RunsKept graph r r') {t : String}
    (h : ∃ n x p, Runs graph r n x p ∧ x.2.1 = .run t ∧ p.finished = true) :
    ∃ n x p, Runs graph r' n x p ∧ x.2.1 = .run t ∧ p.finished = true := by
  obtain ⟨m, y, q, hr, hh, hq⟩ := h
  obtain ⟨q', hr', hkept⟩ := hk m y q hr
  exact ⟨m, y, q', hr', hh, hkept.finished hq⟩

theorem RunsKept.raisedBy (hk : RunsKept graph r r') (hlog : ∀ x ∈ r.log, x ∈ r'.log)
    {serial : Nat} {raise : Raise DagEvent DagHandler}
    (h : ∃ t n x p, RaisedBy graph r serial raise t n x p) :
    ∃ t n x p, RaisedBy graph r' serial raise t n x p := by
  obtain ⟨t, m, y, q, hby⟩ := h
  obtain ⟨q', hr', hkept⟩ := hk m y q hby.runs
  exact ⟨t, m, y, q', hr', hby.handler, hby.raiser, hby.fresh, hkept.held serial hby.held,
    hby.interrupt, hlog _ hby.gated⟩

theorem noticesKept_quiet (h : NoticesKept graph r) (hk : RunsKept graph r r') (hlog : r'.log = r.log)
    (hs : ∀ c serial s, (DispatchCause.resumed c serial, s) ∈ sources r'.execution →
      (DispatchCause.resumed c serial, s) ∈ sources r.execution) : NoticesKept graph r' where
  approving := by rw [hlog]; exact h.approving
  continued := by
    rw [hlog]
    intro c serial s hm
    exact h.continued c serial s (hs c serial s hm)
  finished := by
    rw [hlog]
    intro t ht
    exact hk.finished (h.finished t ht)
  approved := by rw [hlog]; exact h.approved
  once := by rw [hlog]; exact h.once

theorem noticesKept_cons (h : NoticesKept graph r) (hk : RunsKept graph r r') {x : DagNotice}
    (hlog : r'.log = x :: r.log) (hs : sources r'.execution = sources r.execution)
    (hcontinued : ∀ serial value, x ≠ .continued serial value)
    (hran : ∀ t, x = .ran t → graph.approvalRequired t = true → ∃ serial value,
      .gated t serial ∈ r.log ∧ .continued serial value ∈ r.log ∧ approves value = true)
    (hcompleted : ∀ t, x = .completed t → .completed t ∉ r.log ∧
      ∃ n x p, Runs graph r' n x p ∧ x.2.1 = .run t ∧ p.finished = true) : NoticesKept graph r' := by
  refine ⟨?_, ?_, ?_, ?_, ?_⟩
  · intro serial value hm
    rw [hlog] at hm
    exact h.approving serial value
      ((List.mem_cons.mp hm).resolve_left fun he => hcontinued serial value he.symm)
  · intro c serial s hm
    rw [hs] at hm
    obtain ⟨value, hv⟩ := h.continued c serial s hm
    exact ⟨value, by rw [hlog]; exact List.mem_cons_of_mem _ hv⟩
  · intro t ht
    rw [hlog] at ht
    rcases List.mem_cons.mp ht with ht | ht
    · exact (hcompleted t ht.symm).2
    · exact hk.finished (h.finished t ht)
  · rw [hlog]
    exact ⟨h.approved, hran⟩
  · intro t
    have hold := h.once t
    rw [hlog, List.count_cons]
    split
    next he =>
      have hx : x = .completed t := by simpa using he
      rw [List.count_eq_zero.mpr (hcompleted t hx).1]
    next => simpa using hold

def EmitsFresh (graph : TaskDAG) (r r' : DagRun) : Prop :=
  sources r'.execution = sources r.execution ∨
    ∃ s, sources r'.execution = sources r.execution ++ [(.emitted, s)] ∧
      Spent graph r' s.triggerEvent ∧ (s.triggerEvent.tracked = true → ¬ Spent graph r s.triggerEvent)

theorem EmitsFresh.resumed (h : EmitsFresh graph r r') {c serial : Nat} {s : Signal DagEvent}
    (hs : (DispatchCause.resumed c serial, s) ∈ sources r'.execution) :
    (DispatchCause.resumed c serial, s) ∈ sources r.execution := by
  rcases h with h | ⟨s', h, -, -⟩
  · rw [h] at hs
    exact hs
  · rw [h] at hs
    rcases List.mem_append.mp hs with hs | hs
    · exact hs
    · cases List.mem_singleton.mp hs

theorem dagInv_runner (h : DagInv graph chunkId r) (hx : Runs graph r n x p)
    (hsolo : SoloResume (compileTaskDag graph chunkId) r'.execution)
    (hdel : deliveries r'.execution = deliveries r.execution)
    (hraises : ∀ (serial : Nat) raise, r'.execution.raises[serial]? = some raise →
      r.execution.raises[serial]? = some raise ∨ ∃ t n x p, RaisedBy graph r' serial raise t n x p)
    (htasks : ∀ (i : Nat) t, r.execution.pool.tasks[i]? = some t →
      r'.execution.pool.tasks[i]? = some t)
    (hsources : EmitsFresh graph r r') (hphases : r'.phases = r.phases.set n p')
    (hkept : PhaseKept p p')
    (hask : p'.asking = true →
      ∃ t, x.2.1 = .run t ∧ graph.approvalRequired t = true ∧ x.2.2.isResume = false)
    (hpaused : ∀ serial index, p' = .paused serial index →
      ∃ t, r'.execution.pool.tasks[index]? = some (PoolTask.pauseFor t) ∧ t.healthy = true)
    (hkick : ∀ rest, p' = .kickoff rest → rest.Nodup)
    (hjoins : ∀ key filled, r'.joins.get? key = some filled → ∀ d ∈ filled, Handled graph r' key.1 d)
    (hlog : ∀ x ∈ r.log, x ∈ r'.log) (hnotices : NoticesKept graph r') :
    DagInv graph chunkId r' := by
  have hk := runsKept_setPhase hdel hphases hx hkept
  obtain ⟨hlen, -⟩ := List.getElem?_eq_some_iff.mp hx.1
  have hcases : ∀ m y q, Runs graph r' m y q → Runs graph r m y q ∨ (y = x ∧ q = p') := by
    intro m y q hm
    rcases runs_setPhase hdel hphases hm with ⟨-, hm⟩ | ⟨rfl, rfl⟩
    · exact .inl hm
    · exact .inr ⟨(hm.eq (runs_moved hdel hphases hx)).1, rfl⟩
  refine ⟨hsolo, ?_, ?_, ?_, ?_, ?_, ?_, hjoins, ?_, hnotices⟩
  · intro m q hm
    rw [hphases, Dict.get?_set] at hm
    rw [hdel]
    split at hm
    next hmn => exact hmn ▸ hlen
    next => exact h.known m q hm
  · intro m y q hm hq
    rcases hcases m y q hm with hm | ⟨rfl, rfl⟩
    · exact h.gates m y q hm hq
    · exact hask hq
  · intro serial raise hr
    rcases hraises serial raise hr with hr | hr
    · exact hk.raisedBy hlog (h.raises serial raise hr)
    · exact hr
  · intro m y serial index hm
    rcases hcases m y _ hm with hm | ⟨-, hp⟩
    · obtain ⟨t, ht, hh⟩ := h.pauses m y serial index hm
      exact ⟨t, htasks index _ ht, hh⟩
    · exact hpaused serial index hp.symm
  · intro i j s s' hi hj he ht
    rcases hsources with hsame | ⟨s₀, hmore, -, hnew⟩
    · rw [hsame] at hi hj
      exact h.emittedOnce i j s s' hi hj he ht
    · have hone : ∀ (i : Nat) s, (sources r'.execution)[i]? = some (DispatchCause.emitted, s) →
          s.triggerEvent.tracked = true → (sources r.execution)[i]? = some (.emitted, s) ∧
            Spent graph r s.triggerEvent ∨ i = (sources r.execution).length ∧ s = s₀ := by
        intro i s hi hs
        rw [hmore] at hi
        rcases getElem?_append_cases hi with hi | ⟨hge, hi⟩
        · exact .inl ⟨hi, h.spent s (List.mem_of_getElem? hi)⟩
        · obtain ⟨hlt, hget⟩ := List.getElem?_eq_some_iff.mp hi
          simp only [List.length_singleton] at hlt
          refine .inr ⟨by omega, ?_⟩
          simpa using hget.symm
      rcases hone i s hi ht with ⟨hi, hsi⟩ | ⟨hi, rfl⟩
      · rcases hone j s' hj (he ▸ ht) with ⟨hj, -⟩ | ⟨-, rfl⟩
        · exact h.emittedOnce i j s s' hi hj he ht
        · rw [he] at hsi ht
          exact absurd hsi (hnew ht)
      · rcases hone j s' hj (he ▸ ht) with ⟨-, hsj⟩ | ⟨hj, -⟩
        · rw [← he] at hsj
          exact absurd hsj (hnew ht)
        · omega
  · intro s hs
    rcases hsources with hsame | ⟨s₀, hmore, hspent, -⟩
    · rw [hsame] at hs
      exact hk.spent (h.spent s hs)
    · rw [hmore] at hs
      rcases List.mem_append.mp hs with hs | hs
      · exact hk.spent (h.spent s hs)
      · cases List.mem_singleton.mp hs
        exact hspent
  · intro m y rest hm
    rcases hcases m y _ hm with hm | ⟨-, hp⟩
    · exact h.kicks m y rest hm
    · exact hkick rest hp.symm

theorem joins_kept (h : DagInv graph chunkId r) (hk : RunsKept graph r r')
    (hj : r'.joins = r.joins) :
    ∀ key filled, r'.joins.get? key = some filled → ∀ d ∈ filled, Handled graph r' key.1 d := by
  rw [hj]
  intro key filled hf d hd
  exact hk.handled (h.joins key filled hf d hd)

variable {inv : Invocation DagEvent DagHandler}

theorem not_broken (h : DagInv graph chunkId r) (hx : Runs graph r n x p) :
    ∀ serial index, p = .paused serial index →
      r.execution.pool.tasks[index]? ≠ some (PoolTask.pauseFor (.finished true)) := by
  intro serial index hp ht
  subst hp
  obtain ⟨t, ht', hh⟩ := h.pauses n x serial index hx
  rw [ht] at ht'
  cases ht'
  cases hh

theorem dagInv_quiet (h : DagInv graph chunkId r) (hx : Runs graph r n inv.delivery p)
    (hq : Quiet graph r inv p p') : DagInv graph chunkId (setRunner r n p') := by
  have hkept := PhaseKept.of_quiet hq (not_broken h hx)
  have hk : RunsKept graph r (setRunner r n p') := runsKept_setPhase rfl rfl hx hkept
  refine dagInv_runner h hx h.solo rfl (fun i x hi => .inl hi) (fun i t ht => ht) (.inl rfl) rfl hkept ?_ ?_ ?_ (joins_kept h hk rfl)
    (fun x hx => hx) (noticesKept_quiet h.notices hk rfl fun c s x hs => hs)
  · intro hp
    cases hq with
    | gates task hh hr hf => exact ⟨task.id, hh, hr, hf⟩
    | asks d task hh hr hf => exact ⟨task.id, hh, hr, hf⟩
    | leaves output p' hp' => rcases hp' with rfl | rfl <;> cases hp
    | _ => cases hp
  · intro serial index hp
    cases hq with
    | leaves output p' hp' => rcases hp' with rfl | rfl <;> cases hp
    | _ => cases hp
  · intro rest hp
    cases hq with
    | leaves output p' hp' => rcases hp' with rfl | rfl <;> cases hp
    | _ => cases hp

variable {task : TaskDAGNode}

theorem dagInv_runs (h : DagInv graph chunkId r) (hx : Runs graph r n inv.delivery p)
    (hh : inv.handler = .run task.id) (hp : p = .starting ∨ p = .gating)
    (hres : graph.approvalRequired task.id = true → inv.signal.isResume = true) :
    DagInv graph chunkId (execute r n task.id) := by
  have hkept : PhaseKept p .executing := by
    rcases hp with rfl | rfl
    · constructor <;> simp [RunnerPhase.heldBy, RunnerPhase.announces, RunnerPhase.finished,
        RunnerPhase.passed]
    · constructor <;> simp [RunnerPhase.heldBy, RunnerPhase.announces, RunnerPhase.finished,
        RunnerPhase.passed]
  have hk : RunsKept graph r (execute r n task.id) := runsKept_setPhase rfl rfl hx hkept
  refine dagInv_runner h hx h.solo rfl (fun i x hi => .inl hi) (fun i t ht => ht) (.inl rfl) rfl
    hkept (fun ha => by cases ha)
    (by intro serial index hp; cases hp) (by intro rest hp; cases hp) (joins_kept h hk rfl)
    (fun x hx => List.mem_cons_of_mem _ hx) ?_
  refine noticesKept_cons h.notices hk rfl rfl (by intro serial value he; cases he) ?_
    (by intro t he; cases he)
  intro t ht hreq
  cases ht
  obtain ⟨call, serial, raise, t', n', x', p', hs, ht', hby⟩ := resumed_raise h hx (hres hreq)
  have hsame : DagHandler.run task.id = .run t' := hh.symm.trans ht'
  cases hsame
  obtain ⟨value, hv⟩ := h.notices.continued call serial _ (List.mem_of_getElem? hs)
  exact ⟨serial, value, hby.gated, hv, h.notices.approving serial value hv⟩

theorem dagInv_completes (h : DagInv graph chunkId r) (hx : Runs graph r n inv.delivery .executing)
    (hh : inv.handler = .run task.id) (output : Value) :
    DagInv graph chunkId (complete r n task.id output) := by
  have hkept : PhaseKept .executing (.recording output) := by
    constructor <;> simp [RunnerPhase.heldBy, RunnerPhase.announces, RunnerPhase.finished,
      RunnerPhase.passed]
  have hk : RunsKept graph r (complete r n task.id output) := runsKept_setPhase rfl rfl hx hkept
  have hfirst : .completed task.id ∉ r.log := by
    intro hm
    obtain ⟨m, y, q, hr, hy, hq⟩ := h.notices.finished task.id hm
    by_cases hnm : n = m
    · subst hnm
      obtain ⟨-, rfl⟩ := hx.eq hr
      cases hq
    · rcases run_conflict h hx hr hh hy hnm with ⟨s, hs⟩ | ⟨s, hs⟩
      · exact hs
      · cases q <;> simp_all [RunnerPhase.heldBy, RunnerPhase.finished]
  refine dagInv_runner h hx h.solo rfl (fun i x hi => .inl hi) (fun i t ht => ht) (.inl rfl) rfl hkept
    (fun ha => by cases ha) (by intro serial index hp; cases hp) (by intro rest hp; cases hp)
    (joins_kept h hk rfl) (fun x hx => List.mem_cons_of_mem _ hx)
    (noticesKept_cons h.notices hk rfl rfl (by intro serial value he; cases he)
      (by intro t he; cases he) ?_)
  intro t ht
  cases ht
  exact ⟨hfirst, n, inv.delivery, .recording output, runs_moved (r := r) rfl rfl hx, hh, rfl⟩

theorem soloResume_emitDag (h : SoloResume (compileTaskDag graph chunkId) r.execution)
    (s : Signal DagEvent) (freshId : String) (event : DagEvent) (value : Value) (marks : List String) :
    SoloResume (compileTaskDag graph chunkId) (emitDag r (emitFrom s freshId event value marks)).execution :=
  soloResume_step (a := .emit (emitFrom s freshId event value marks)) h
    (isResume_emitFrom s freshId event value marks) rfl

theorem sources_emitDag (r : DagRun) (s : Signal DagEvent) :
    sources (emitDag r s).execution = sources r.execution ++ [(.emitted, s)] :=
  List.map_append

theorem dagInv_emits (h : DagInv graph chunkId r) (hx : Runs graph r n inv.delivery p)
    {handler : DagHandler} (hh : inv.handler = handler) {event : DagEvent}
    (he : Emits handler p event p') (freshId : String) (value : Value)
    (results : Dict String Value) :
    DagInv graph chunkId (setRunner (emitDag { r with results := results }
      (emitFrom inv.signal freshId event value inv.signal.layerMarks)) n p') := by
  have hkept := PhaseKept.of_emits he
  let r' := setRunner (emitDag { r with results := results }
    (emitFrom inv.signal freshId event value inv.signal.layerMarks)) n p'
  have hk : RunsKept graph r r' := runsKept_setPhase rfl rfl hx hkept
  have hfresh : EmitsFresh graph r r' := by
    refine .inr ⟨_, sources_emitDag _ _, ?_, ?_⟩
    · show Spent graph r' event
      cases he with
      | done t output => exact ⟨n, _, _, runs_moved (r := r) rfl rfl hx, hh, rfl⟩
      | _ => trivial
    · show event.tracked = true → ¬ Spent graph r event
      intro ht hspent
      cases he with
      | done t output =>
        -- another runner of the task would have announced
        obtain ⟨m, y, q, hr, hy, hq⟩ := hspent
        by_cases hnm : n = m
        · subst hnm
          obtain ⟨-, rfl⟩ := hx.eq hr
          cases hq
        · rcases run_conflict h hx hr hh hy hnm with ⟨s, hs⟩ | ⟨s, hs⟩
          · exact hs
          · cases q <;> simp_all [RunnerPhase.heldBy, RunnerPhase.announces]
      | _ => cases ht
  refine dagInv_runner h hx (soloResume_emitDag (r := { r with results := results }) h.solo _ _ _ _ _)
    rfl (fun i x hi => .inl hi) (fun i t ht => ht) hfresh rfl hkept ?_ ?_ ?_ (joins_kept h hk rfl) (fun x hx => hx)
    (noticesKept_quiet h.notices hk rfl fun c s x hs => hfresh.resumed hs)
  · intro hp
    cases he <;> cases hp
  · intro serial index hp
    cases he <;> cases hp
  · intro rest hp
    cases he <;> cases hp

theorem dagInv_kicks (h : DagInv graph chunkId r) {t : String} {rest : List String}
    (hx : Runs graph r n inv.delivery (.kickoff (t :: rest))) (hh : inv.handler = .kickoff)
    {freshId : String} {value : Value} {e : Execution DagEvent DagHandler}
    (he : executionStep (compileTaskDag graph chunkId) r.execution
      (.emitNowait (emitFrom inv.signal freshId (.start t) value inv.signal.layerMarks)) = some e) :
    DagInv graph chunkId (setRunner { r with execution := e } n (.kickoff rest)) := by
  have hnodup := List.nodup_cons.mp (h.kicks n _ _ hx)
  have hkept : PhaseKept (.kickoff (t :: rest)) (.kickoff rest) := by
    constructor <;> simp [RunnerPhase.heldBy, RunnerPhase.announces, RunnerPhase.finished,
      RunnerPhase.passed]
  let r' := setRunner { r with execution := e } n (.kickoff rest)
  have hsolo : SoloResume (compileTaskDag graph chunkId) e :=
    soloResume_step (a := .emitNowait (emitFrom inv.signal freshId (.start t) value
      inv.signal.layerMarks)) h.solo (isResume_emitFrom inv.signal freshId _ value _) he
  have hsame : deliveries e = deliveries r.execution ∧ e.raises = r.execution.raises ∧
      e.pool.tasks = r.execution.pool.tasks := by
    simp only [executionStep] at he
    split at he
    · cases he
      exact ⟨rfl, rfl, rfl⟩
    · cases he
      exact ⟨rfl, rfl, rfl⟩
  have hk : RunsKept graph r r' := runsKept_setPhase hsame.1 rfl hx hkept
  have hfresh : EmitsFresh graph r r' := by
    have hs := (executionStep_log he).1
    simp only [newSources] at hs
    split at hs
    · refine .inr ⟨_, hs, ?_, ?_⟩
      · exact ⟨n, _, _, runs_moved (r := r) hsame.1 rfl hx, hh, hnodup.1⟩
      · intro _ hspent
        obtain ⟨m, y, q, hr, hy, hq⟩ := hspent
        have hkick : ∀ {m : Nat} {y : Nat × DagHandler × Signal DagEvent} {q : RunnerPhase},
            Runs graph r m y q → y.2.1 = .kickoff →
              y.2.2.isResume = false ∧ y.2.2.triggerEvent = .flowStart := by
          intro m y q hr hy
          refine ⟨fresh_of_not_run h hr (by rw [hy]; intro t ht; cases ht), ?_⟩
          rcases listens_cases (h.solo.listens hr.1) with ⟨-, he⟩ | ⟨hf, -⟩ | ⟨task, -, hf, -⟩ | ⟨ds, hf, -⟩
          · exact he
          · rw [hy] at hf
            cases hf
          · rw [hy] at hf
            cases hf
          · rw [hy] at hf
            cases hf
        obtain ⟨hfx, hex⟩ := hkick hx hh
        obtain ⟨hfy, hey⟩ := hkick hr hy
        have hnm := fresh_eq h hx hr (hh.trans hy.symm) hfx hfy (hex.trans hey.symm) (by rw [hex]; rfl)
        subst hnm
        obtain ⟨-, rfl⟩ := hx.eq hr
        exact hq List.mem_cons_self
    · exact .inl (hs.trans (List.append_nil _))
  refine dagInv_runner h hx hsolo hsame.1 (fun i x hi => .inl (hsame.2.1 ▸ hi))
    (fun i t ht => hsame.2.2.symm ▸ ht) hfresh rfl hkept (fun ha => by cases ha)
    (by intro serial index hp; cases hp) (by intro l hl; cases hl; exact hnodup.2)
    (joins_kept h hk rfl) (fun x hx => hx)
    (noticesKept_quiet h.notices hk rfl fun c s x hs => hfresh.resumed hs)

variable {ds filled : List String}

theorem joins_filled (h : DagInv graph chunkId r) (hk : RunsKept graph r r')
    (hx' : Runs graph r' n inv.delivery p') (hp : p' ≠ .joining)
    (hh : inv.handler = .join ds)
    (hf : ∀ d ∈ filled, d ∈ (r.joins.get? (ds, inv.signal.layerKey)).getD [] ∨
      inv.signal.triggerEvent = .done d) :
    ∀ d ∈ filled, Handled graph r' ds d := by
  intro d hd
  rcases hf d hd with hold | hnew
  · cases hj : r.joins.get? (ds, inv.signal.layerKey) with
    | none =>
      rw [hj] at hold
      cases hold
    | some old =>
      rw [hj] at hold
      exact hk.handled (h.joins _ old hj d hold)
  · exact ⟨n, inv.delivery, p', hx', hh, hnew, hp⟩

theorem joins_set (h : DagInv graph chunkId r) (hk : RunsKept graph r r')
    {key : String} (hj : r'.joins = r.joins.set (ds, key) filled)
    (hf : ∀ d ∈ filled, Handled graph r' ds d) :
    ∀ key filled, r'.joins.get? key = some filled → ∀ d ∈ filled, Handled graph r' key.1 d := by
  intro key' filled' hget d hd
  rw [hj, Dict.get?_set] at hget
  split at hget
  next hkey =>
    cases hget
    rw [← hkey]
    exact hf d hd
  next => exact hk.handled (h.joins key' filled' hget d hd)

theorem dagInv_joins (h : DagInv graph chunkId r) (hx : Runs graph r n inv.delivery .joining)
    (hh : inv.handler = .join ds)
    (hf : ∀ d ∈ filled, d ∈ (r.joins.get? (ds, inv.signal.layerKey)).getD [] ∨
      inv.signal.triggerEvent = .done d) :
    DagInv graph chunkId (setRunner
      { r with joins := r.joins.set (ds, inv.signal.layerKey) filled } n .over) := by
  have hkept : PhaseKept .joining .over := by
    constructor <;> simp [RunnerPhase.heldBy, RunnerPhase.announces, RunnerPhase.finished,
      RunnerPhase.passed]
  let r' := setRunner { r with joins := r.joins.set (ds, inv.signal.layerKey) filled } n .over
  have hk : RunsKept graph r r' := runsKept_setPhase rfl rfl hx hkept
  have hx' : Runs graph r' n inv.delivery .over := runs_moved (r := r) rfl rfl hx
  exact dagInv_runner h hx h.solo rfl (fun i x hi => .inl hi) (fun i t ht => ht) (.inl rfl) rfl
    hkept (fun ha => by cases ha)
    (by intro serial index hp; cases hp) (by intro rest hp; cases hp)
    (joins_set h hk rfl (joins_filled h hk hx' (by simp) hh hf)) (fun x hx => hx)
    (noticesKept_quiet h.notices hk rfl fun c s x hs => hs)

theorem dagInv_fires (h : DagInv graph chunkId r) (hx : Runs graph r n inv.delivery .joining)
    (hh : inv.handler = .join ds)
    (hf : ∀ d ∈ filled, d ∈ (r.joins.get? (ds, inv.signal.layerKey)).getD [] ∨
      inv.signal.triggerEvent = .done d)
    (hm : ∀ d ∈ ds, d ∈ filled) (freshId : String) (value : Value) :
    DagInv graph chunkId (setRunner
      (emitDag { r with joins := r.joins.set (ds, inv.signal.layerKey) filled }
        (emitFrom inv.signal freshId (.joined ds) value inv.signal.layerMarks)) n
      (.joined (ds, inv.signal.layerKey))) := by
  have hkept : PhaseKept .joining (.joined (ds, inv.signal.layerKey)) := by
    constructor <;> simp [RunnerPhase.heldBy, RunnerPhase.announces, RunnerPhase.finished,
      RunnerPhase.passed]
  let r' := setRunner (emitDag { r with joins := r.joins.set (ds, inv.signal.layerKey) filled }
    (emitFrom inv.signal freshId (.joined ds) value inv.signal.layerMarks)) n
    (.joined (ds, inv.signal.layerKey))
  have hk : RunsKept graph r r' := runsKept_setPhase rfl rfl hx hkept
  have hx' : Runs graph r' n inv.delivery (.joined (ds, inv.signal.layerKey)) :=
    runs_moved (r := r) rfl rfl hx
  have hfilled : ∀ d ∈ filled, Handled graph r' ds d := joins_filled h hk hx' (by simp) hh hf
  have hjoin : ∀ {m : Nat} {y : Nat × DagHandler × Signal DagEvent} {q : RunnerPhase},
      Runs graph r m y q → y.2.1 = .join ds → y.2.2.isResume = false ∧
        ∃ d ∈ ds, y.2.2.triggerEvent = .done d := by
    intro m y q hr hy
    refine ⟨fresh_of_not_run h hr (by rw [hy]; intro t ht; cases ht), ?_⟩
    rcases listens_cases (h.solo.listens hr.1) with ⟨hf, -⟩ | ⟨hf, -⟩ | ⟨task, -, hf, -⟩ | ⟨ds', hf, hd⟩
    · rw [hy] at hf
      cases hf
    · rw [hy] at hf
      cases hf
    · rw [hy] at hf
      cases hf
    · rw [hy] at hf
      cases hf
      exact hd
  have hfresh : EmitsFresh graph r r' := by
    refine .inr ⟨_, sources_emitDag _ _, fun d hd => hfilled d (hm d hd), ?_⟩
    intro _ hspent
    obtain ⟨hfx, d, hd, hex⟩ := hjoin hx hh
    obtain ⟨m, y, q, hr, hy, hey, hq⟩ := hspent d hd
    obtain ⟨hfy, -⟩ := hjoin hr hy
    have hnm := fresh_eq h hx hr (hh.trans hy.symm) hfx hfy (hex.trans hey.symm) (by rw [hex]; rfl)
    subst hnm
    obtain ⟨-, rfl⟩ := hx.eq hr
    exact hq rfl
  exact dagInv_runner h hx
    (soloResume_emitDag (r := { r with joins := r.joins.set (ds, inv.signal.layerKey) filled })
      h.solo _ _ _ _ _) rfl (fun i x hi => .inl hi) (fun i t ht => ht) hfresh rfl
      hkept (fun ha => by cases ha)
    (by intro serial index hp; cases hp) (by intro rest hp; cases hp)
    (joins_set h hk rfl hfilled) (fun x hx => hx)
    (noticesKept_quiet h.notices hk rfl fun c s x hs => hfresh.resumed hs)

theorem dagInv_clears (h : DagInv graph chunkId r) {key : List String × String}
    (hx : Runs graph r n inv.delivery (.joined key)) :
    DagInv graph chunkId (setRunner { r with joins := r.joins.del key } n .over) := by
  have hkept : PhaseKept (.joined key) .over := by
    constructor <;> simp [RunnerPhase.heldBy, RunnerPhase.announces, RunnerPhase.finished,
      RunnerPhase.passed]
  let r' := setRunner { r with joins := r.joins.del key } n .over
  have hk : RunsKept graph r r' := runsKept_setPhase rfl rfl hx hkept
  refine dagInv_runner h hx h.solo rfl (fun i x hi => .inl hi) (fun i t ht => ht) (.inl rfl) rfl
    hkept (fun ha => by cases ha)
    (by intro serial index hp; cases hp) (by intro rest hp; cases hp) ?_ (fun x hx => hx)
    (noticesKept_quiet h.notices hk rfl fun c s x hs => hs)
  intro key' filled hget d hd
  have hdel : (r.joins.del key).get? key' = some filled := hget
  by_cases hkey : key = key'
  · subst hkey
    rw [Dict.get?_del_self] at hdel
    cases hdel
  · rw [Dict.get?_del_of_ne _ hkey] at hdel
    exact hk.handled (h.joins key' filled hdel d hd)

variable {d : PolicyApprovalDecision}

theorem approval_unpaused (h : DagInv graph chunkId r)
    (hx : Runs graph r n inv.delivery (.pausing d))
    (hh : inv.handler = .run task.id) (serial now : Nat) :
    .paused (approvalInterruptId graph task.id) serial now ∉ r.execution.pool.log := by
  intro hm
  obtain ⟨raise, hraise, hid⟩ := h.solo.named _ _ _ hm
  obtain ⟨t, n', x', p', hby⟩ := h.raises serial raise hraise
  have ht : t = task.id := approvalInterruptId_inj (hby.interrupt.symm.trans hid)
  subst ht
  obtain ⟨t', ht', hreq, hfresh⟩ := h.gates n _ _ hx rfl
  have hsame := fresh_run_eq h hx hby.runs hh hby.handler hfresh hby.fresh
  subst hsame
  obtain ⟨-, rfl⟩ := hx.eq hby.runs
  exact hby.held

theorem pausesSolo_of_alone (h : DagInv graph chunkId r)
    (hx : Runs graph r n inv.delivery (.pausing d))
    (hh : inv.handler = .run task.id)
    (ha : PausesAlone (compileTaskDag graph chunkId) r.execution inv) (now : Nat) (freshId : String) :
    PausesSolo (compileTaskDag graph chunkId) r.execution inv (approvalPause graph task d) now
      freshId := by
  refine ⟨rfl, ha.1, ?_, ?_⟩
  · have hone := ha.2
    simpa [iterHandlers, h.solo.static] using hone
  · intro serial
    exact approval_unpaused h hx hh serial now

theorem dagInv_pauses (h : DagInv graph chunkId r) (hx : Runs graph r n inv.delivery (.pausing d))
    (hh : inv.handler = .run task.id)
    (ha : PausesAlone (compileTaskDag graph chunkId) r.execution inv) {now : Nat} {freshId : String}
    {e : Execution DagEvent DagHandler}
    (he : pauseFrom (compileTaskDag graph chunkId) r.execution inv (approvalPause graph task d)
      now freshId = some e) :
    DagInv graph chunkId (if r.execution.raises.length < e.raises.length then
        setRunner { r with execution := e, log := .gated task.id r.execution.raises.length :: r.log } n
          (.paused r.execution.raises.length r.execution.pool.tasks.length)
      else setRunner { r with execution := e } n .failing) := by
  have hsolo := soloResume_pauseFrom h.solo (pausesSolo_of_alone h hx hh ha now freshId) he
  obtain ⟨t, ht, hreq, hfresh⟩ := h.gates n _ _ hx rfl
  have htasks : ∀ (more : List (PoolTask DagEvent)) (i : Nat) t,
      r.execution.pool.tasks[i]? = some t → (r.execution.pool.tasks ++ more)[i]? = some t := by
    intro more i t hi
    rw [List.getElem?_append_left (List.getElem?_eq_some_iff.mp hi).1]
    exact hi
  rcases pauseFrom_cases he with rfl | ⟨i, hplan, rfl⟩
  · rw [if_neg (Nat.lt_irrefl _)]
    have hkept : PhaseKept (.pausing d) .failing := by
      constructor <;> simp [RunnerPhase.heldBy, RunnerPhase.announces, RunnerPhase.finished,
        RunnerPhase.passed]
    have hk : ∀ {r' : DagRun}, deliveries r'.execution = deliveries r.execution →
        r'.phases = r.phases.set n .failing → RunsKept graph r r' :=
      fun hd hp => runsKept_setPhase hd hp hx hkept
    exact dagInv_runner h hx hsolo rfl (fun i x hi => .inl hi) (htasks _) (.inl rfl) rfl hkept
      (fun ha => by cases ha) (by intro serial index hp; cases hp) (by intro rest hp; cases hp)
      (joins_kept h (hk rfl rfl) rfl) (fun x hx => hx)
      (noticesKept_quiet h.notices (hk rfl rfl) rfl fun c s x hs => hs)
  · have hi := planInterrupt_eq_some hplan
    rw [if_pos (by simp)]
    have hkept : PhaseKept (.pausing d)
        (.paused r.execution.raises.length r.execution.pool.tasks.length) := by
      constructor <;> simp [RunnerPhase.heldBy, RunnerPhase.announces, RunnerPhase.finished,
        RunnerPhase.passed]
    have hk : ∀ {r' : DagRun}, deliveries r'.execution = deliveries r.execution →
        r'.phases = r.phases.set n
          (.paused r.execution.raises.length r.execution.pool.tasks.length) → RunsKept graph r r' :=
      fun hd hp => runsKept_setPhase hd hp hx hkept
    refine dagInv_runner h hx hsolo rfl ?_ (htasks _) (.inl rfl) rfl hkept
      (fun ha => by cases ha) ?_ (by intro rest hp; cases hp)
      (joins_kept h (hk rfl rfl) rfl) (fun x hx => List.mem_cons_of_mem _ hx)
      (noticesKept_cons h.notices (hk rfl rfl) rfl rfl (by intro serial value he; cases he)
        (by intro t he; cases he) (by intro t he; cases he))
    · intro serial raise hr
      rcases getElem?_append_cases hr with hr | ⟨hge, hr⟩
      · exact .inl hr
      · right
        obtain ⟨hlt, hget⟩ := List.getElem?_eq_some_iff.mp hr
        simp only [List.length_singleton] at hlt
        have hserial : serial = r.execution.raises.length := by omega
        have hraise : raise = raiseOf r.execution inv i := by simpa using hget.symm
        subst hraise
        refine ⟨task.id, n, inv.delivery, _, runs_moved (r := r) rfl rfl hx, hh, hh, hfresh, ?_, ?_, ?_⟩
        · exact hserial.symm
        · rw [raiseOf, hi]
          rfl
        · rw [hserial]
          exact List.mem_cons_self
    · intro serial index hp
      cases hp
      exact ⟨_, List.getElem?_concat_length, rfl⟩

end RunnerSteps

section EngineSteps

variable {graph : TaskDAG} {chunkId : DagHandler → String} {r r' : DagRun}

theorem initialPhase_new (h : DagHandler) :
    (initialPhase graph h).asking = false ∧
      (∀ serial index, initialPhase graph h ≠ .paused serial index) ∧
      ∀ rest, initialPhase graph h = .kickoff rest → rest.Nodup := by
  cases h with
  | kickoff =>
    refine ⟨rfl, (by intro serial index hp; cases hp), ?_⟩
    intro rest hp
    cases hp
    exact roots_nodup
  | run t | join ds | finalize =>
    exact ⟨rfl, (by intro serial index hp; cases hp), (by intro rest hp; cases hp)⟩

variable {a : ExecutionAction DagEvent DagHandler} {e : Execution DagEvent DagHandler}

theorem dagInv_engine (h : DagInv graph chunkId r) {more : List DagNotice}
    (hc : SoloStep (compileTaskDag graph chunkId) r.execution a)
    (hp : ∀ n args now freshId, a ≠ .pauseFor n args now freshId)
    (hnew : ∀ s, (DispatchCause.emitted, s) ∉ newSources r.execution a)
    (he : executionStep (compileTaskDag graph chunkId) r.execution a = some e)
    (hnotices : NoticesKept graph { r with execution := e, log := more ++ r.log }) :
    DagInv graph chunkId { r with execution := e, log := more ++ r.log } := by
  obtain ⟨hsources, grown, hdel⟩ := executionStep_log he
  let r' : DagRun := { r with execution := e, log := more ++ r.log }
  have hk : RunsKept graph r r' := runsKept_engine hdel rfl
  have hphases : r'.phases = r.phases := rfl
  have hcases : ∀ m y q, Runs graph r' m y q → Runs graph r m y q ∨ q = initialPhase graph y.2.1 := by
    intro m y q hm
    exact runs_engine h.known hdel hphases hm
  have hold : ∀ (i : Nat) s, (sources e)[i]? = some (DispatchCause.emitted, s) →
      (sources r.execution)[i]? = some (.emitted, s) := by
    intro i s hi
    rw [hsources] at hi
    rcases getElem?_append_cases hi with hi | ⟨-, hi⟩
    · exact hi
    · exact absurd (List.mem_of_getElem? hi) (hnew s)
  refine ⟨soloResume_step h.solo hc he, ?_, ?_, ?_, ?_, ?_, ?_, ?_, ?_, hnotices⟩
  · intro n p hn
    have hlt := h.known n p hn
    show n < (deliveries e).length
    rw [hdel, List.length_append]
    omega
  · intro m y q hm hq
    rcases hcases m y q hm with hm | rfl
    · exact h.gates m y q hm hq
    · rw [(initialPhase_new y.2.1).1] at hq
      cases hq
  · intro serial raise hr
    have hr' : r.execution.raises[serial]? = some raise := executionStep_raises_eq hp he ▸ hr
    exact hk.raisedBy (fun x hx => List.mem_append_right _ hx) (h.raises serial raise hr')
  · intro m y serial index hm
    rcases hcases m y _ hm with hm | hp
    · obtain ⟨t, ht, hh⟩ := h.pauses m y serial index hm
      exact healthy_step hc he ht hh
    · exact absurd hp.symm ((initialPhase_new y.2.1).2.1 serial index)
  · intro i j s s' hi hj hev ht
    exact h.emittedOnce i j s s' (hold i s hi) (hold j s' hj) hev ht
  · intro s hs
    obtain ⟨i, hi⟩ := List.mem_iff_getElem?.mp hs
    exact hk.spent (h.spent s (List.mem_of_getElem? (hold i s hi)))
  · intro key filled hget d hd
    exact hk.handled (h.joins key filled hget d hd)
  · intro m y rest hm
    rcases hcases m y _ hm with hm | hp
    · exact h.kicks m y rest hm
    · exact (initialPhase_new y.2.1).2.2 rest hp.symm

theorem dagInv_ends (h : DagInv graph chunkId r) {n : Nat}
    (he : executionStep (compileTaskDag graph chunkId) r.execution (.endHandler n) = some e) :
    DagInv graph chunkId { r with execution := e } := by
  obtain ⟨grown, hdel⟩ := (executionStep_log he).2
  have hs : sources e = sources r.execution :=
    (executionStep_log he).1.trans (List.append_nil _)
  show DagInv graph chunkId { r with execution := e, log := [] ++ r.log }
  exact dagInv_engine (a := .endHandler n) h trivial (by simp)
    (by intro s hm; cases hm) he
    (noticesKept_quiet h.notices (runsKept_engine hdel rfl) rfl fun c s x hx => hs ▸ hx)

theorem continuedNotice_spec {x : DagNotice} (hx : x ∈ continuedNotice e a) :
    ∃ index freshId c, a = .advance index .ok freshId ∧
      e.pool.tasks[index]? = some (PoolTask.continueWith (.resuming .streamPut c)) ∧
      x = .continued c.interrupt.serial c.args.value ∧ continuedNotice e a = [x] := by
  unfold continuedNotice at hx ⊢
  split at hx
  next index freshId =>
    split at hx
    next c htask =>
      have hx := List.mem_singleton.mp hx
      exact ⟨index, freshId, c, rfl, htask, hx, by simp [hx]⟩
    next => cases hx
  next => cases hx

theorem noticesKept_engine (h : DagInv graph chunkId r)
    (hc : KeepsToItself graph chunkId r (.engine a))
    (he : executionStep (compileTaskDag graph chunkId) r.execution a = some e) :
    NoticesKept graph { r with execution := e, log := continuedNotice r.execution a ++ r.log } := by
  obtain ⟨grown, hdel⟩ := (executionStep_log he).2
  have hk : RunsKept graph r { r with execution := e, log := continuedNotice r.execution a ++ r.log } :=
    runsKept_engine hdel rfl
  have hform : continuedNotice r.execution a = [] ∨ ∃ serial value,
      continuedNotice r.execution a = [.continued serial value] ∧ approves value = true := by
    cases hn : continuedNotice r.execution a with
    | nil => exact .inl rfl
    | cons x rest =>
      obtain ⟨index, freshId, c, rfl, htask, rfl, hone⟩ :=
        continuedNotice_spec (hn ▸ List.mem_cons_self : x ∈ continuedNotice r.execution a)
      right
      refine ⟨_, _, hn.symm.trans hone, ?_⟩
      simpa [KeepsToItself, BringsApproval, htask] using hc
  refine ⟨?_, ?_, ?_, ?_, ?_⟩
  · intro serial value hm
    rcases List.mem_append.mp hm with hm | hm
    · rcases hform with hnil | ⟨s, v, hone, ha⟩
      · rw [hnil] at hm
        cases hm
      · rw [hone] at hm
        cases List.mem_singleton.mp hm
        exact ha
    · exact h.notices.approving serial value hm
  · intro c serial s hs
    rw [(executionStep_log he).1] at hs
    rcases List.mem_append.mp hs with hs | hs
    · obtain ⟨value, hv⟩ := h.notices.continued c serial s hs
      exact ⟨value, List.mem_append_right _ hv⟩
    · obtain ⟨-, freshId, x, rfl, htask, rfl⟩ := mem_newSources_resumed hs
      exact ⟨x.args.value, by simp [continuedNotice, htask]⟩
  · intro t ht
    rcases List.mem_append.mp ht with ht | ht
    · rcases hform with hnil | ⟨s, v, hone, -⟩
      · rw [hnil] at ht
        cases ht
      · rw [hone] at ht
        cases List.mem_singleton.mp ht
    · exact hk.finished (h.notices.finished t ht)
  · rcases hform with hnil | ⟨s, v, hone, -⟩
    · rw [hnil]
      exact h.notices.approved
    · rw [hone]
      exact ⟨h.notices.approved, by intro t ht; cases ht⟩
  · intro t
    rcases hform with hnil | ⟨s, v, hone, -⟩
    · rw [hnil]
      exact h.notices.once t
    · rw [hone]
      show List.count _ (.continued s v :: r.log) ≤ 1
      rw [List.count_cons_of_ne (by intro he; cases he)]
      exact h.notices.once t

theorem soloStep_of_keeps (ha : engineAllowed a = true)
    (hc : KeepsToItself graph chunkId r (.engine a)) :
    SoloStep (compileTaskDag graph chunkId) r.execution a ∧
      (∀ n args now freshId, a ≠ .pauseFor n args now freshId) ∧
      ∀ s, (DispatchCause.emitted, s) ∉ newSources r.execution a := by
  cases a with
  | advance index o freshId =>
    refine ⟨?_, (by intro n args now f he; cases he), ?_⟩
    · cases o with
      | ok => trivial
      | raised error => exact hc
    · intro s hs
      simp only [newSources, resumeDispatches] at hs
      split at hs
      · split at hs
        · cases List.mem_singleton.mp hs
        · cases hs
      · cases hs
  | advanceDispatch index | failDispatch index | continueWith args | cancel reason
  | sealExecution | close =>
    exact ⟨trivial, (by intro n args now f he; cases he), (by intro s hs; cases hs)⟩
  | _ => cases ha

end EngineSteps

theorem dagInv_step {graph : TaskDAG} {chunkId : DagHandler → String} {r r' : DagRun} {a : DagAction}
    (h : DagInv graph chunkId r) (hc : KeepsToItself graph chunkId r a)
    (hr : dagStep graph chunkId r a = some r') : DagInv graph chunkId r' := by
  cases a with
  | engine a =>
    simp only [dagStep] at hr
    split at hr
    next ha =>
      obtain ⟨e, he, rfl⟩ := Option.map_eq_some_iff.mp hr
      obtain ⟨hsolo, hp, hnew⟩ := soloStep_of_keeps ha hc
      exact dagInv_engine h hsolo hp hnew he (noticesKept_engine h hc he)
    next => cases hr
  | runner n c =>
    obtain ⟨inv, hinv, hstep⟩ := Option.bind_eq_some_iff.mp hr
    split at hstep
    next =>
      have hx : Runs graph r n inv.delivery (phaseOf graph r n inv) := by
        refine ⟨?_, rfl⟩
        rw [deliveries, List.getElem?_map, hinv]
        rfl
      have hcond := hc inv hinv
      have hmove := runnerStep_of_handler hinv (h.gates n _ _ hx) hstep
      generalize hphase : phaseOf graph r n inv = p at hx hmove hcond
      cases hmove with
      | ends he => exact dagInv_ends h he
      | quiet hq => exact dagInv_quiet h hx hq
      | runs task hh hp =>
        rcases hp with ⟨rfl, hres⟩ | ⟨rfl, d, hd, hst⟩
        · exact dagInv_runs h hx hh (.inl rfl) hres
        · simp [AsksFirst, hd, hst] at hcond
      | completes task output hh => exact dagInv_completes h hx hh output
      | emits event value results he => exact dagInv_emits h hx rfl he c.freshId value results
      | kicks t rest value hh e he => exact dagInv_kicks h hx hh he
      | pauses d task hh e he => exact dagInv_pauses h hx hh hcond he
      | joins ds filled hh hf hm => exact dagInv_joins h hx hh hf
      | fires ds filled value hh hf hm => exact dagInv_fires h hx hh hf hm c.freshId value
      | clears key => exact dagInv_clears h hx
    next => cases hstep

def graphStart (graphInput : Value) : Signal DagEvent :=
  { id := "start", triggerEvent := .flowStart, value := graphInput }

theorem dagInv_initial (graph : TaskDAG) (chunkId : DagHandler → String) (graphInput : Value) :
    DagInv graph chunkId (DagRun.initial graphInput) where
  solo := soloResume_step (a := .emit (graphStart graphInput)) (soloResume_initial _) rfl rfl
  known := by intro n p hn; simp [DagRun.initial] at hn
  gates := by intro n x p hr; simp [Runs, deliveries, DagRun.initial, Execution.initial] at hr
  raises := by intro serial raise hr; simp [DagRun.initial, Execution.initial] at hr
  pauses := by
    intro n x serial index hr
    simp [Runs, deliveries, DagRun.initial, Execution.initial] at hr
  emittedOnce := by
    intro m n s s' hm hn _ _
    have hlm := (List.getElem?_eq_some_iff.mp hm).1
    have hln := (List.getElem?_eq_some_iff.mp hn).1
    simp [sources, DagRun.initial] at hlm hln
    omega
  spent := by
    intro s hs
    cases List.mem_singleton.mp hs
    trivial
  joins := by intro key filled hget; simp [DagRun.initial] at hget
  kicks := by intro n x rest hr; simp [Runs, deliveries, DagRun.initial, Execution.initial] at hr
  notices :=
    { approving := by intro serial value hm; cases hm
      continued := by intro c serial s hs; cases List.mem_singleton.mp hs
      finished := by intro t ht; cases ht
      approved := trivial
      once := by intro t; simp [DagRun.initial] }

/-- In every run whose policy handler never approves on its own, whose pauses are taken at
the last signal by the only listener of its event, and whose continuations approve, every
task that requires approval runs on its own approval and no task completes twice. -/
theorem approvals_gate_tasks {graph : TaskDAG} {chunkId : DagHandler → String} {graphInput : Value}
    {as : List DagAction} {r : DagRun}
    (hcond : (taskDagRun graph chunkId).Meets (KeepsToItself graph chunkId)
      (DagRun.initial graphInput) as)
    (hrun : (taskDagRun graph chunkId).run (DagRun.initial graphInput) as = some r) :
    ApprovalsGate graph r.log := by
  have hinv := (taskDagRun graph chunkId).run_invariant_meeting
    (fun s a t hi hc hs => dagInv_step hi hc hs) (dagInv_initial graph chunkId graphInput) hcond hrun
  refine ⟨hinv.notices.approved, ?_, hinv.notices.once⟩
  intro t serial value _ hcontinued hdenied
  rw [hinv.notices.approving serial value hcontinued] at hdenied
  cases hdenied

def deployGraph : TaskDAG where
  graphId := "release"
  tasks := [{ id := "deploy", approvalRequired := true }]
  nonempty := by simp
  ids_nodup := by simp
  known := by simp
  acyclic := ⟨fun _ => 0, by simp⟩

def chunkName : DagHandler → String := fun _ => "chunk"

def handOut (index : Nat) : List DagAction :=
  List.replicate 4 (.engine (.advanceDispatch index))

/-- The task pauses at its gate, the pause is continued with `answer`, and the resumed
runner goes on to the end of the node. -/
def deployRun (answer : Value) : List DagAction :=
  handOut 0 ++ .runner 0 { freshId := "s1" } :: handOut 1 ++
    [.runner 1 {}, .runner 1 { value := .dict [("status", .str "pending")] },
      .runner 1 { now := 1 }] ++
    List.replicate 7 (.engine (.advance 0 .ok "")) ++ [.runner 1 {}, .runner 1 {}] ++
    .engine (.continueWith { interruptId := "task:release:deploy", value := answer }) ::
    List.replicate 3 (.engine (.advance 1 .ok "s2")) ++ handOut 2 ++
    [.runner 2 {}, .runner 2 { value := .str "deployed" }]

theorem deployRun_runs (answer : Bool) :
    ((taskDagRun deployGraph chunkName).run (DagRun.initial .none)
      (deployRun (.bool answer))).isSome = true := by
  revert answer
  decide +kernel

def deployed (answer : Bool) : DagRun :=
  ((taskDagRun deployGraph chunkName).run (DagRun.initial .none)
    (deployRun (.bool answer))).get (deployRun_runs answer)

theorem denied_task_runs :
    ¬ ∀ (graph : TaskDAG) (chunkId : DagHandler → String) (graphInput : Value) as r,
      (taskDagRun graph chunkId).run (DagRun.initial graphInput) as = some r →
        ApprovalsGate graph r.log := by
  intro h
  have hgate := h deployGraph chunkName .none (deployRun (.bool false)) (deployed false)
    (Option.some_get _).symm
  exact hgate.denied "deploy" 0 (.bool false) (by decide +kernel) (by decide +kernel)
    (by decide +kernel) (by decide +kernel)

theorem approved_task_runs : ApprovalsGate deployGraph (deployed true).log :=
  @approvals_gate_tasks deployGraph chunkName .none (deployRun (.bool true)) (deployed true)
    (by decide +kernel) (Option.some_get _).symm

end Agently.DynamicTask
