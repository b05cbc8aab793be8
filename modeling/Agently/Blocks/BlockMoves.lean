import Agently.Blocks.BlockOrder

/-! # What a step does to the runs of the blocks

One run goes on and others begin; results and cancellations are never taken back. -/

namespace Agently.Blocks

open Agently.Lib Agently.Utils Agently.TaskDAGValidation

def BlockRun.Executes (run : BlockRun) : Prop :=
  run.phase ≠ .beginning ∧ ∀ r, run.result? = some r → r.state ≠ .cancelled

structure Moves (s : BlocksExecution) (run next : BlockRun) : Prop where
  block : next.block = run.block
  result : ∀ r, next.result? = some r → run.result? = some r ∨
    (run.phase = .beginning ∧ run.block ∈ s.cancelled ∧ r.state = .cancelled) ∨
    ∃ output, run.phase = .checking output ∧ r.output = output ∧
      r.state = if s.waiting then .waiting else .completed
  executes : next.Executes → run.Executes ∨ (run.phase = .beginning ∧ run.block ∉ s.cancelled)

structure Grows (s t : BlocksExecution) : Prop where
  results : ∀ r ∈ s.results, r ∈ t.results
  cancelled : ∀ c ∈ s.cancelled, c ∈ t.cancelled

/-- The result a run has recorded, and what it has still to announce of it. -/
def BlockRun.unsaid? (run : BlockRun) : Option (BlockResult × List Announcement) :=
  match run.phase with
  | .announcing r rest => some (r, rest)
  | .completing r | .delivering r | .returning r | .ended r => some (r, [])
  | _ => none

inductive Tells (graph : ExecutionBlockGraph) (reprOf : Value → String) (s : BlocksExecution)
    (run next : BlockRun) (t : BlocksExecution) : Prop
  | still (hnext : next.unsaid? = run.unsaid?) (hc : t.cancelled = s.cancelled)
  | begins (r : BlockResult) (hrun : run.unsaid? = none)
      (hnext : next.unsaid? = some (r, announcements graph reprOf r)) (hc : t.cancelled = s.cancelled)
  | tells (r : BlockResult) (x : Announcement) (rest : List Announcement)
      (hrun : run.phase = .announcing r (x :: rest))
      (hnext : next.unsaid? = some (r, following s x ++ rest))
      (hc : t.cancelled = (announce s x).cancelled)

section Steps

variable {graph : ExecutionBlockGraph} {recorder : Recorder} {reprOf : Value → String}
  {s t : BlocksExecution}

theorem Moves.keep {run next : BlockRun} (hb : next.block = run.block)
    (hr : next.result? = run.result?) (hp : run.phase ≠ .beginning) : Moves s run next := by
  refine ⟨hb, fun r hx => .inl (hr ▸ hx), fun hx => .inl ⟨hp, fun r hr' => hx.2 r ?_⟩⟩
  rw [hr]
  exact hr'

theorem announce_grows (s : BlocksExecution) (x : Announcement) : Grows s (announce s x) := by
  cases x with
  | cancel id => exact ⟨fun _ h => h, fun _ h => List.mem_append_left _ h⟩
  | _ => exact ⟨fun _ h => h, fun _ h => h⟩

theorem appendItem_grows (s : BlocksExecution) (item : LedgerItem) : Grows s (appendItem s item) := by
  cases item <;> exact ⟨fun _ h => h, fun _ h => h⟩

theorem stepBlock_moves {n : Nat} {run : BlockRun} {answer : HandlerAnswer}
    (ht : stepBlock graph recorder reprOf s n run answer = some t) :
    ∃ next more, t.blockRuns = s.blockRuns.set n next ++ more ∧
      (∀ r ∈ more, r.phase = .beginning) ∧ Moves s run next ∧ Tells graph reprOf s run next t ∧
      Grows s t := by
  have hsame : Grows s s := ⟨fun _ h => h, fun _ h => h⟩
  obtain ⟨block, paused, phase⟩ := run
  cases phase with
  | beginning =>
    simp only [stepBlock] at ht
    split at ht
    · rename_i hin
      cases ht
      refine ⟨_, [], (List.append_nil _).symm, List.forall_mem_nil _, ⟨rfl, ?_, ?_⟩,
        .still rfl rfl, hsame.1, hsame.2⟩
      · intro r hr
        cases hr
        exact .inr (.inl ⟨rfl, hin, rfl⟩)
      · exact fun hx => absurd rfl (hx.2 _ rfl)
    · rename_i hnot
      cases ht
      exact ⟨_, [], (List.append_nil _).symm, List.forall_mem_nil _,
        ⟨rfl, (fun _ hr => by cases hr), fun _ => .inr ⟨rfl, hnot⟩⟩, .still rfl rfl, hsame.1, hsame.2⟩
  | executing =>
    obtain ⟨next, hnext, ht⟩ := Option.bind_eq_some_iff.mp ht
    cases ht
    refine ⟨_, [], (List.append_nil _).symm, List.forall_mem_nil _, .keep rfl ?_ (by simp),
      .still ?_ rfl, hsame.1, hsame.2⟩ <;>
    rcases answered_phase hnext with ⟨output, rfl⟩ | ⟨message, rfl⟩ | ⟨byGate, signal, rfl⟩ | ⟨result, rfl⟩ <;> rfl
  | storing byGate signal source =>
    cases ht
    refine ⟨_, [], (List.append_nil _).symm, List.forall_mem_nil _, .keep rfl ?_ (by simp),
      .still ?_ rfl, hsame.1, hsame.2⟩ <;> cases byGate <;> rfl
  | checking output =>
    cases ht
    refine ⟨_, [], (List.append_nil _).symm, List.forall_mem_nil _, ⟨rfl, ?_, ?_⟩,
      .still rfl rfl, hsame.1, hsame.2⟩
    · intro r hr
      cases hr
      exact .inr (.inr ⟨output, rfl, rfl, rfl⟩)
    · exact fun _ => .inl ⟨by simp, fun _ hr => by cases hr⟩
  | recording r =>
    cases ht
    exact ⟨_, [], (List.append_nil _).symm, List.forall_mem_nil _, .keep rfl rfl (by simp),
      .still rfl rfl, fun _ h => List.mem_append_left _ h, hsame.2⟩
  | ledger r items =>
    cases items with
    | nil =>
      cases ht
      exact ⟨_, [], (List.append_nil _).symm, List.forall_mem_nil _, .keep rfl rfl (by simp),
        .begins r rfl rfl rfl, hsame.1, hsame.2⟩
    | cons item rest =>
      cases ht
      obtain ⟨-, -, -, -, hb, -, -⟩ := appendItem_same s item
      have hg := appendItem_grows s item
      refine ⟨⟨block, paused, .ledger r rest⟩, [], ?_, List.forall_mem_nil _,
        .keep rfl rfl (by simp), .still rfl ?_, hg.1, hg.2⟩
      · rw [List.append_nil]
        exact setBlockRun_of_eq hb
      · cases item <;> rfl
  | announcing r rest =>
    cases rest with
    | nil =>
      cases ht
      refine ⟨_, [], (List.append_nil _).symm, List.forall_mem_nil _, .keep rfl ?_ (by simp),
        .still ?_ rfl, hsame.1, hsame.2⟩ <;> dsimp only <;> split <;> rfl
    | cons x rest =>
      cases ht
      obtain ⟨-, -, -, -, hb, -, -⟩ := announce_same s x
      have hg := announce_grows s x
      refine ⟨⟨block, paused, .announcing r (following s x ++ rest)⟩, [], ?_,
        List.forall_mem_nil _, .keep rfl rfl (by simp), .tells r x rest rfl rfl rfl, hg.1, hg.2⟩
      rw [List.append_nil]
      exact setBlockRun_of_eq hb
  | delivering r =>
    cases ht
    refine ⟨⟨block, paused, .returning r⟩, _, rfl, ?_, .keep rfl rfl (by simp),
      .still rfl rfl, hsame.1, hsame.2⟩
    intro x hx
    obtain ⟨b, -, rfl⟩ := List.mem_map.mp hx
    rfl
  | returning r =>
    cases ht
    generalize hu : (if paused = true ∧ r.state = .waiting then s else returned s block) = u
    have hreturned : u.blockRuns = s.blockRuns ∧ u.cancelled = s.cancelled ∧ Grows s u := by
      rw [← hu]
      unfold returned
      split
      · exact ⟨rfl, rfl, hsame⟩
      · split
        · exact ⟨rfl, rfl, hsame⟩
        · exact ⟨rfl, rfl, hsame.1, hsame.2⟩
    refine ⟨⟨block, paused, .ended r⟩, [], ?_, List.forall_mem_nil _, .keep rfl rfl (by simp),
      .still rfl hreturned.2.1, hreturned.2.2.1, hreturned.2.2.2⟩
    rw [List.append_nil]
    exact setBlockRun_of_eq hreturned.1
  | ended r => cases ht
  | raised message => cases ht
  | starting | pausing byGate signal | gated result | completing r | failing message
  | raising message =>
    cases ht
    exact ⟨_, [], (List.append_nil _).symm, List.forall_mem_nil _, .keep rfl rfl (by simp),
      .still rfl rfl, hsame.1, hsame.2⟩

theorem deliver_begins (graph : ExecutionBlockGraph) (s : BlocksExecution) (e : BlockEvent) :
    ∃ more, (deliver graph s e).blockRuns = s.blockRuns ++ more ∧
      ∀ r ∈ more, r.phase = .beginning := by
  refine ⟨_, rfl, fun r hr => ?_⟩
  obtain ⟨b, -, rfl⟩ := List.mem_map.mp hr
  rfl

theorem step_moves {a : BlocksAction} (ht : blocksStep graph recorder reprOf s a = some t) :
    Grows s t ∧ ∃ more, (∀ r ∈ more, r.phase = .beginning) ∧
      (t.blockRuns = s.blockRuns ++ more ∧ t.cancelled = s.cancelled ∨
        ∃ n answer run next, a = .block n answer ∧ s.blockRuns[n]? = some run ∧
          t.blockRuns = s.blockRuns.set n next ++ more ∧ Moves s run next ∧
          Tells graph reprOf s run next t) := by
  have hstill : s.blockRuns = s.blockRuns ++ [] := (List.append_nil _).symm
  cases a with
  | block n answer =>
    obtain ⟨run, hn, ht⟩ := Option.bind_eq_some_iff.mp ht
    obtain ⟨next, more, hruns, hmore, hmoves, htells, hgrows⟩ := stepBlock_moves ht
    exact ⟨hgrows, more, hmore, .inr ⟨n, answer, run, next, rfl, hn, hruns, hmoves, htells⟩⟩
  | gate n =>
    obtain ⟨run, -, ht⟩ := Option.bind_eq_some_iff.mp ht
    obtain ⟨gate, source, phase⟩ := run
    cases phase with
    | delivering =>
      cases ht
      obtain ⟨more, hmore, hbegin⟩ := deliver_begins graph
        (setGateRun s n ⟨gate, source, .clearing⟩) (.joined gate)
      exact ⟨⟨fun _ h => h, fun _ h => h⟩, more, hbegin, .inl ⟨hmore, rfl⟩⟩
    | ended => cases ht
    | arriving | firing | clearing =>
      cases ht
      exact ⟨⟨fun _ h => h, fun _ h => h⟩, [], List.forall_mem_nil _, .inl ⟨hstill, rfl⟩⟩
  | finalize n =>
    obtain ⟨phase, -, ht⟩ := Option.bind_eq_some_iff.mp ht
    cases phase with
    | returning =>
      cases ht
      unfold returned
      split <;> exact ⟨⟨fun _ h => h, fun _ h => h⟩, [], List.forall_mem_nil _, .inl ⟨hstill, rfl⟩⟩
    | ended => cases ht
    | reading | writing results =>
      cases ht
      exact ⟨⟨fun _ h => h, fun _ h => h⟩, [], List.forall_mem_nil _, .inl ⟨hstill, rfl⟩⟩
  | continueWith k =>
    obtain ⟨i, -, ht⟩ := Option.bind_eq_some_iff.mp ht
    split at ht
    · cases ht
      exact ⟨⟨fun _ h => h, fun _ h => h⟩, [], List.forall_mem_nil _, .inl ⟨hstill, rfl⟩⟩
    · cases ht
  | resuming n =>
    obtain ⟨call, -, ht⟩ := Option.bind_eq_some_iff.mp ht
    obtain ⟨event, phase⟩ := call
    cases phase with
    | remembering =>
      cases ht
      exact ⟨⟨fun _ h => h, fun _ h => h⟩, [], List.forall_mem_nil _, .inl ⟨hstill, rfl⟩⟩
    | delivering =>
      cases ht
      obtain ⟨more, hmore, hbegin⟩ := deliver_begins graph
        { s with resumeCalls := s.resumeCalls.set n ⟨event, .ended⟩ } event
      exact ⟨⟨fun _ h => h, fun _ h => h⟩, more, hbegin, .inl ⟨hmore, rfl⟩⟩
    | ended => cases ht

/-- A run goes on, has just begun, or is the one that the step is about. -/
theorem step_runs {a : BlocksAction} (ht : blocksStep graph recorder reprOf s a = some t)
    {run : BlockRun} (hrun : run ∈ t.blockRuns) :
    run ∈ s.blockRuns ∨ run.phase = .beginning ∨ ∃ n answer old, a = .block n answer ∧
      s.blockRuns[n]? = some old ∧ Moves s old run ∧ Tells graph reprOf s old run t := by
  obtain ⟨-, more, hmore, ⟨hruns, -⟩ | ⟨n, answer, old, next, rfl, hn, hruns, hmoves, htells⟩⟩ :=
    step_moves ht
  · rw [hruns] at hrun
    exact (List.mem_append.mp hrun).imp_right fun hrun => .inl (hmore run hrun)
  · rw [hruns] at hrun
    rcases List.mem_append.mp hrun with hrun | hrun
    · rcases List.mem_or_eq_of_mem_set hrun with hrun | rfl
      · exact .inl hrun
      · exact .inr (.inr ⟨n, answer, old, rfl, hn, hmoves, htells⟩)
    · exact .inr (.inl (hmore run hrun))

end Steps

end Agently.Blocks
