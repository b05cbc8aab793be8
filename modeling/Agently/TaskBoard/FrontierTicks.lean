import Agently.TaskBoard.ValidBoards

/-! # When a frontier tick quiesces

Source: `TaskBoard/TaskBoardRuntime.py`. `prepare_frontier_dispatch` takes the running cards from
the state, and nothing ever takes a card out of what is stored: a tick that has requested a card
never finds its frontier complete. -/

namespace Agently.TaskBoard

open Agently.Lib Agently.Utils
open Agently.TaskDAGValidation (Fault strip bind_eq_ok)

def newCards (d : TickData) (r : TaskBoardRevision) : List String :=
  if lower (strip r.status) = "completed" then []
  else r.runnable.filter fun id => id ∉ d.runningCardIds ∧ id ∉ d.dispatchedCardIds

/-- The data after a dispatch of `ids`; `v` is what the text of the revision reads back as. -/
def TickData.dispatching (d : TickData) (v : Value) (plan : TaskBoardSchedulePlan)
    (ids : List String) : TickData :=
  { d with
    revisionJson := some v
    scheduleJson := some plan.toDict
    runningCardIds := sortedSet (d.runningCardIds ++ ids)
    dispatchedCardIds := sortedSet (d.dispatchedCardIds ++ ids)
    expectedCardIdsJson := some (sortedSet (d.runningCardIds ++ ids)) }

theorem mem_sortedSet {ids : List String} {id : String} : id ∈ sortedSet ids ↔ id ∈ ids := by
  unfold sortedSet
  rw [(List.perm_insertionSort _ _).mem_iff, List.mem_dedup]

theorem sortedSet_nodup (ids : List String) : (sortedSet ids).Nodup := by
  unfold sortedSet
  rw [(List.perm_insertionSort _ _).nodup_iff]
  exact List.nodup_dedup ids

theorem sortedSet_ne_nil {ids : List String} (h : ids ≠ []) : sortedSet ids ≠ [] := by
  obtain ⟨id, hid⟩ := List.exists_mem_of_ne_nil ids h
  exact List.ne_nil_of_mem (mem_sortedSet.mpr hid)

theorem dispatching_isEmpty (d : TickData) (v : Value) (plan : TaskBoardSchedulePlan) :
    (d.dispatching v plan []).runningCardIds.isEmpty = d.runningCardIds.isEmpty := by
  show (sortedSet (d.runningCardIds ++ [])).isEmpty = d.runningCardIds.isEmpty
  rw [List.append_nil]
  cases h : d.runningCardIds with
  | nil => rfl
  | cons id ids =>
    have hne : sortedSet (id :: ids) ≠ [] := sortedSet_ne_nil (List.cons_ne_nil id ids)
    simpa using hne

theorem storeRevisionState_eq (d : TickData) (r : TaskBoardRevision) (plan : TaskBoardSchedulePlan)
    (ids : List String) :
    storeRevisionState d r plan (d.runningCardIds ++ ids) (d.dispatchedCardIds ++ ids) =
      match reloaded r.toDict with
      | none => .error (.typeError "Object is not JSON serializable")
      | some v => .ok (d.dispatching v plan ids) := rfl

theorem prepareFrontierDispatch_eq (d : TickData) {r : TaskBoardRevision} (h : ValidRevision r) :
    ∃ plan, prepareFrontierDispatch d r =
      match reloaded r.toDict with
      | none => .error (.typeError "Object is not JSON serializable")
      | some v => .ok (d.dispatching v plan (newCards d r), newCards d r,
          d.runningCardIds.isEmpty && (newCards d r).isEmpty) := by
  obtain ⟨plan, hplan, hrun⟩ := schedule_spec h
  refine ⟨plan, ?_⟩
  unfold prepareFrontierDispatch newCards
  rw [hplan]
  simp only [bind, Except.bind, hrun]
  have hstore := storeRevisionState_eq d r plan
  by_cases hc : lower (strip r.status) = "completed"
  · have hnil := hstore []
    rw [List.append_nil, List.append_nil] at hnil
    rw [if_pos (.inl hc), if_pos hc, hnil]
    cases reloaded r.toDict with
    | none => rfl
    | some v => simp [pure, Except.pure, dispatching_isEmpty]
  · rw [if_neg hc]
    split
    next hs =>
      have hfilter := (hs.resolve_left hc).2
      have hnil := hstore []
      rw [List.append_nil, List.append_nil] at hnil
      rw [hfilter, hnil]
      cases reloaded r.toDict with
      | none => rfl
      | some v => simp [pure, Except.pure, dispatching_isEmpty]
    next =>
      rw [hstore]
      cases reloaded r.toDict with
      | none => rfl
      | some v =>
        simp only [pure, Except.pure, Except.ok.injEq, Prod.mk.injEq, true_and]
        cases d.runningCardIds with
        | nil => simp
        | cons id ids => simp

theorem prepareFrontierDispatch_ok {d e : TickData} {r : TaskBoardRevision} {ids : List String}
    {complete : Bool} (h : prepareFrontierDispatch d r = .ok (e, ids, complete)) :
    ValidRevision r ∧ ∃ v plan, reloaded r.toDict = some v ∧ ids = newCards d r ∧
      e = d.dispatching v plan ids ∧ complete = (d.runningCardIds.isEmpty && ids.isEmpty) := by
  obtain ⟨plan, hplan, -⟩ := bind_eq_ok.mp h
  have hv := (schedule_valid hplan).1
  obtain ⟨plan, heq⟩ := prepareFrontierDispatch_eq d hv
  rw [heq] at h
  cases hr : reloaded r.toDict with
  | none =>
    rw [hr] at h
    cases h
  | some v =>
    rw [hr] at h
    cases h
    exact ⟨hv, v, plan, rfl, rfl, rfl, rfl⟩

def requestedIds (log : List TickEvent) : List String :=
  log.filterMap fun
    | .cardRequested id _ => some id
    | .cardsCompleted _ => none

def completions (log : List TickEvent) : List TickData :=
  log.filterMap fun
    | .cardRequested _ _ => none
    | .cardsCompleted d => some d

section Quiescence

variable (reprOf : Value → String) (board : TaskBoard)

def DependenciesSatisfied (d : TickData) (id : String) : Prop :=
  ∃ r card, revisionFromState reprOf board d = .ok r ∧ r.graph.cardById id = some card ∧
    r.ready card = true

def Quiesced (d : TickData) (ids : List String) : Prop :=
  ∃ r, revisionFromState reprOf board d = .ok r ∧ r.runnable = [] ∧
    ∀ id ∈ ids, (Dict.get? (d.collectedJson.getD []) id).isSome ∧ (r.cardResults.get? id).isSome

structure QuiescentTick (log : List TickEvent) : Prop where
  once : (requestedIds log).Nodup
  satisfied : ∀ id d, .cardRequested id d ∈ log → DependenciesSatisfied reprOf board d id
  completed : ∃ d, completions log = [d] ∧ Quiesced reprOf board d (requestedIds log)

def QuietStart (r : TaskBoardRevision) : Prop :=
  (lower (strip r.status) = "completed" ∨ r.runnable = []) ∧
    ∃ v next, reloaded r.toDict = some v ∧ revisionFromValue reprOf "" v = .ok next ∧
      next.runnable = []

section Steps

variable {reprOf board} {s t : TickState} {a : TickAction}

theorem tickStep_some (h : (tick reprOf board).step s a = some t) :
    ∃ task ∈ s.tasks, stepTask reprOf board s a.task a.input task = some t := by
  obtain ⟨task, ht, hs⟩ := Option.bind_eq_some_iff.mp h
  exact ⟨task, List.mem_of_getElem? ht, hs⟩

theorem forall_mem_set {α : Type} {P : α → Prop} {xs : List α} {n : Nat} {x : α}
    (h : ∀ y ∈ xs, P y) (hx : P x) : ∀ y ∈ xs.set n x, P y := by
  intro y hy
  rcases List.mem_or_eq_of_mem_set hy with hy | rfl
  · exact h y hy
  · exact hx

theorem forall_mem_set_append {α : Type} {P : α → Prop} {xs : List α} {n : Nat} {x z : α}
    (h : ∀ y ∈ xs, P y) (hx : P x) (hz : P z) : ∀ y ∈ xs.set n x ++ [z], P y := by
  intro y hy
  rcases List.mem_append.mp hy with hy | hy
  · exact forall_mem_set h hx y hy
  · exact List.mem_singleton.mp hy ▸ hz

def TickTask.uncompleting : TickTask → Prop
  | .preparing | .requesting _ true => False
  | _ => True

structure Unending (s : TickState) : Prop where
  running : s.data.runningCardIds ≠ []
  silent : completions s.log = []
  tasks : ∀ task ∈ s.tasks, task.uncompleting

theorem Unending.setTask {task : TickTask} (h : Unending s) (n : Nat) (ht : task.uncompleting) :
    Unending (setTask s n task) :=
  ⟨h.running, h.silent, forall_mem_set h.tasks ht⟩

theorem Unending.failTask (h : Unending s) (n : Nat) (e : Fault) : Unending (failTask s n e) :=
  h.setTask n trivial

theorem Unending.finishDispatch (h : Unending s) (n : Nat) (r : TaskBoardRevision) :
    Unending (finishDispatch s n (prepareFrontierDispatch s.data r)) := by
  cases hd : prepareFrontierDispatch s.data r with
  | error e => exact h.failTask n e
  | ok p =>
    obtain ⟨d, ids, complete⟩ := p
    obtain ⟨-, v, plan, -, -, rfl, hc⟩ := prepareFrontierDispatch_ok hd
    have hempty : s.data.runningCardIds.isEmpty = false := by simpa using h.running
    rw [hempty, Bool.false_and] at hc
    rw [hc]
    refine ⟨?_, h.silent, forall_mem_set h.tasks trivial⟩
    exact sortedSet_ne_nil (List.append_ne_nil_of_left_ne_nil h.running ids)

theorem Unending.collectFrontier (h : Unending s) (n : Nat) (fresh : Fresh)
    (result : TaskBoardCardResult) : Unending (collectFrontier reprOf board s n fresh result) := by
  unfold TaskBoard.collectFrontier
  split
  next e _ => exact h.failTask n e
  next current _ =>
    split
    next e _ => exact h.failTask n e
    next next _ =>
      split
      next => exact h.failTask n _
      next collected _ =>
        exact Unending.finishDispatch (s := { s with data := { s.data with
          collectedJson := some collected } }) ⟨h.running, h.silent, h.tasks⟩ n next

theorem Unending.step (hb : board.scheduler = .frontier) (h : Unending s)
    (hs : (tick reprOf board).step s a = some t) : Unending t := by
  obtain ⟨task, hm, hs⟩ := tickStep_some hs
  have htask := h.tasks task hm
  cases task with
  | preparing => exact htask.elim
  | requesting ids complete =>
    cases ids with
    | cons id rest =>
      cases hs
      refine ⟨h.running, h.silent, forall_mem_set_append h.tasks ?_ trivial⟩
      cases complete with
      | true => exact htask
      | false => trivial
    | nil =>
      cases complete with
      | true => exact htask.elim
      | false =>
        cases hs
        exact h.setTask a.task trivial
  | requested id =>
    simp only [stepTask] at hs
    cases hc : startCard reprOf board s.data id with
    | error e =>
      rw [hc] at hs
      cases hs
      exact h.failTask a.task e
    | ok task =>
      rw [hc] at hs
      cases hs
      refine h.setTask a.task ?_
      obtain ⟨r, -, hc⟩ := bind_eq_ok.mp hc
      obtain ⟨plan, -, hc⟩ := bind_eq_ok.mp hc
      cases hcard : r.graph.cardById id with
      | none =>
        rw [hcard] at hc
        cases hc
      | some card =>
        rw [hcard] at hc
        cases hc
        trivial
  | running id card deps =>
    simp only [stepTask] at hs
    cases ha : a.input.answer with
    | error e =>
      rw [ha] at hs
      cases hs
      exact h.failTask a.task e
    | ok answer =>
      rw [ha] at hs
      simp only at hs
      cases hr : coerceCardResult reprOf id answer with
      | error e =>
        rw [hr] at hs
        cases hs
        exact h.failTask a.task e
      | ok result =>
        rw [hr] at hs
        cases hs
        exact h.setTask a.task trivial
  | collecting result =>
    simp only [stepTask, hb] at hs
    cases hs
    exact h.collectFrontier a.task a.input.fresh result
  | applyingFrontier =>
    simp only [stepTask] at hs
    cases ha : applyFrontierResults reprOf board s.data with
    | error e =>
      rw [ha] at hs
      cases hs
      exact h.failTask a.task e
    | ok d =>
      rw [ha] at hs
      cases hs
      obtain ⟨r, -, ha⟩ := bind_eq_ok.mp ha
      obtain ⟨plan, -, ha⟩ := bind_eq_ok.mp ha
      cases ha
      exact ⟨h.running, h.silent, forall_mem_set h.tasks trivial⟩
  | applying values =>
    simp only [stepTask] at hs
    cases ha : applyResults reprOf board s.data a.input.fresh values with
    | error e =>
      rw [ha] at hs
      cases hs
      exact h.failTask a.task e
    | ok d =>
      rw [ha] at hs
      cases hs
      obtain ⟨results, -, ha⟩ := bind_eq_ok.mp ha
      obtain ⟨next, -, ha⟩ := bind_eq_ok.mp ha
      cases ha
      exact ⟨h.running, h.silent, forall_mem_set h.tasks trivial⟩
  | returned => cases hs
  | raised e => cases hs

def frontierStart : TickData := { collectedJson := some [], topology := some "frontier" }

theorem newCards_frontierStart (r : TaskBoardRevision) :
    newCards frontierStart r = [] ↔
      lower (strip r.status) = "completed" ∨ r.runnable = [] := by
  unfold newCards
  split
  next hc => simp [hc]
  next hc =>
    have hf : r.runnable.filter (fun id => id ∉ frontierStart.runningCardIds ∧
        id ∉ frontierStart.dispatchedCardIds) = r.runnable := by
      rw [List.filter_eq_self]
      intro id _
      simp [frontierStart]
    rw [hf]
    simp [hc]

theorem step_prepares (hs : (tick reprOf board).step TickState.initial a = some t) :
    t = prepareTick board TickState.initial 0 := by
  obtain ⟨task, ht, hs⟩ := Option.bind_eq_some_iff.mp hs
  have hn : a.task = 0 := by
    cases hi : a.task with
    | zero => rfl
    | succ n =>
      rw [hi] at ht
      cases ht
  rw [hn] at ht hs
  cases ht
  exact (Option.some.inj hs).symm

theorem step_initial (hb : board.scheduler = .frontier)
    (hs : (tick reprOf board).step TickState.initial a = some t) :
    t = finishDispatch { TickState.initial with data := frontierStart } 0
      (prepareFrontierDispatch frontierStart board.revision) := by
  rw [step_prepares hs]
  unfold prepareTick
  rw [hb]
  rfl

theorem stepTask_isOver {n : Nat} {c : TickInput} {task : TickTask} (h : task.isOver = true) :
    stepTask reprOf board s n c task = none := by
  cases task with
  | returned => rfl
  | raised e => rfl
  | _ => cases h

theorem run_finished {as : List TickAction} (h : s.finished = true)
    (hr : (tick reprOf board).run s as = some t) : t = s := by
  cases as with
  | nil => exact (Option.some.inj hr).symm
  | cons a as =>
    obtain ⟨u, hu, -⟩ := (tick reprOf board).run_cons_eq_some.mp hr
    obtain ⟨task, hm, hu⟩ := tickStep_some hu
    rw [stepTask_isOver (List.all_eq_true.mp h task hm)] at hu
    cases hu

/-- The tick on its way from a complete frontier to its end; `v` is the stored revision. -/
inductive Completing (v : Value) (s : TickState) : Prop where
  | dispatched (tasks : s.tasks = [.requesting [] true]) (log : s.log = [])
      (stored : s.data.revisionJson = some v)
  | completed (d : TickData) (tasks : s.tasks = [.returned, .applyingFrontier])
      (log : s.log = [.cardsCompleted d]) (stored : d.revisionJson = some v)
  | closed (d : TickData) (tasks : s.finished = true)
      (log : s.log = [.cardsCompleted d]) (stored : d.revisionJson = some v)

theorem Completing.step {v : Value} (h : Completing v s)
    (hs : (tick reprOf board).step s a = some t) : Completing v t := by
  obtain ⟨task, ht, hs⟩ := Option.bind_eq_some_iff.mp hs
  cases h with
  | dispatched tasks log stored =>
    rw [tasks] at ht
    match hn : a.task, ht with
    | 0, ht =>
      cases ht
      rw [hn] at hs
      cases hs
      refine .completed { s.data with frontierClosed := true } ?_ ?_ stored
      · rw [tasks]
        rfl
      · rw [log]
  | completed d tasks log stored =>
    rw [tasks] at ht
    match hn : a.task, ht with
    | 0, ht =>
      cases ht
      cases hs
    | 1, ht =>
      cases ht
      rw [hn] at hs
      simp only [stepTask] at hs
      cases hs
      cases applyFrontierResults reprOf board s.data with
      | error e =>
        refine .closed d ?_ log stored
        simp [finishApply, failTask, setTask, TickState.finished, tasks, TickTask.isOver]
      | ok e =>
        refine .closed d ?_ log stored
        simp [finishApply, setTask, TickState.finished, tasks, TickTask.isOver]
  | closed d tasks log stored =>
    rw [stepTask_isOver (List.all_eq_true.mp tasks task (List.mem_of_getElem? ht))] at hs
    cases hs

theorem Completing.log {v : Value} (h : Completing v s) (hf : s.finished = true) :
    ∃ d, s.log = [.cardsCompleted d] ∧ d.revisionJson = some v := by
  cases h with
  | dispatched tasks log stored =>
    rw [TickState.finished, tasks] at hf
    cases hf
  | completed d tasks log stored => exact ⟨d, log, stored⟩
  | closed d tasks log stored => exact ⟨d, log, stored⟩

end Steps

section Frontiers

variable {reprOf board} {s : TickState} {as : List TickAction}

theorem quiescent_of_completed {d : TickData} {v : Value} (hd : d.revisionJson = some v) :
    QuiescentTick reprOf board [.cardsCompleted d] ↔
      ∃ next, revisionFromValue reprOf "" v = .ok next ∧ next.runnable = [] := by
  have hread : revisionFromState reprOf board d = revisionFromValue reprOf "" v := by
    unfold revisionFromState
    rw [hd]
  constructor
  · intro h
    obtain ⟨e, he, next, hnext, hrun, -⟩ := h.completed
    cases he
    exact ⟨next, hread ▸ hnext, hrun⟩
  · rintro ⟨next, hnext, hrun⟩
    refine ⟨List.nodup_nil, ?_, d, rfl, next, hread.trans hnext, hrun, ?_⟩
    · intro id e he
      cases List.mem_singleton.mp he
    · intro id hid
      cases hid

theorem not_quiescent {log : List TickEvent} (h : completions log = []) :
    ¬ QuiescentTick reprOf board log := by
  intro hq
  obtain ⟨d, hd, -⟩ := hq.completed
  rw [h] at hd
  cases hd

/-- Every finished frontier tick quiesces if it had nothing to run, and no other one does. -/
theorem frontier_quiesces_iff (hb : board.scheduler = .frontier) (hv : ValidRevision board.revision)
    (hrun : (tick reprOf board).run TickState.initial as = some s) (hf : s.finished = true) :
    QuiescentTick reprOf board s.log ↔ QuietStart reprOf board.revision := by
  cases as with
  | nil =>
    cases Option.some.inj hrun
    cases hf
  | cons a as =>
    obtain ⟨t, ht, hrun⟩ := (tick reprOf board).run_cons_eq_some.mp hrun
    have ht := step_initial hb ht
    obtain ⟨plan, heq⟩ := prepareFrontierDispatch_eq frontierStart hv
    rw [heq] at ht
    unfold QuietStart
    cases hr : reloaded board.revision.toDict with
    | none =>
      rw [hr] at ht
      have hs : s = t := run_finished (by rw [ht]; rfl) hrun
      rw [hs, ht]
      refine iff_of_false (not_quiescent rfl) ?_
      rintro ⟨-, v, next, hno, -⟩
      cases hno
    | some v =>
      rw [hr] at ht
      by_cases hnew : newCards frontierStart board.revision = []
      · have hq := (newCards_frontierStart board.revision).mp hnew
        have hstart : Completing v t := by
          rw [ht, hnew]
          exact .dispatched rfl rfl rfl
        have hend : Completing v s :=
          (tick reprOf board).run_invariant (fun _ _ _ h hs => h.step hs) hstart hrun
        obtain ⟨d, hlog, hd⟩ := hend.log hf
        rw [hlog, quiescent_of_completed hd]
        constructor
        · rintro ⟨next, hnext⟩
          exact ⟨hq, v, next, rfl, hnext⟩
        · rintro ⟨-, w, next, hw, hnext⟩
          cases hw
          exact ⟨next, hnext⟩
      · have hstart : Unending t := by
          have hc : (frontierStart.runningCardIds.isEmpty &&
              (newCards frontierStart board.revision).isEmpty) = false := by
            simpa [frontierStart] using hnew
          rw [ht, hc]
          refine ⟨?_, rfl, ?_⟩
          · exact sortedSet_ne_nil (List.append_ne_nil_of_right_ne_nil _ hnew)
          · intro task hm
            cases List.mem_singleton.mp hm
            trivial
        have hend : Unending s :=
          (tick reprOf board).run_invariant (fun _ _ _ h hs => h.step hb hs) hstart hrun
        refine iff_of_false (not_quiescent hend.silent) ?_
        rintro ⟨hq, -⟩
        exact hnew ((newCards_frontierStart board.revision).mpr hq)

end Frontiers

end Quiescence

def AnswersPlainly (reprOf : Value → String) (s : TickState) (a : TickAction) : Prop :=
  ∀ id card deps, s.tasks[a.task]? = some (.running id card deps) →
    ∃ x result, a.input.answer = .ok x ∧ coerceCardResult reprOf id x = .ok result ∧
      result.patchProposal = none

def loneCard : TaskBoardCard := { id := "a", objective := "write" }

def loneBoard : TaskBoard where
  revision := { boardId := "board", revisionId := "rev-0", graph := { graphId := "g", cards := [loneCard] } }
  scheduler := .frontier

def answering (v : HandlerReturn) (tasks : List Nat) : List TickAction :=
  tasks.map fun n => { task := n, input := { answer := .ok v } }

def loneRun : List TickAction := answering (.value .none) [0, 0, 0, 1, 1, 1, 1]

def plainText (_ : Value) : String := ""

theorem loneBoard_valid : ValidRevision loneBoard.revision :=
  (validate_iff loneBoard.revision).mp rfl

theorem loneRun_ends :
    ((tick plainText loneBoard).run TickState.initial loneRun).map
      (fun s => (s.finished, completions s.log)) = some (true, []) := by
  decide +kernel

theorem answering_plain (v : Value) (tasks : List Nat) (s : TickState)
    (M : Machine TickState TickAction) :
    M.Meets (AnswersPlainly plainText) s (answering (.value v) tasks) := by
  induction tasks generalizing s with
  | nil => trivial
  | cons n tasks ih =>
    refine ⟨?_, fun t _ => ih t⟩
    exact fun id _ _ _ =>
      ⟨.value v, { cardId := id, status := "completed", preview := v }, rfl, rfl, rfl⟩

theorem lone_card_never_completes :
    ¬ ∀ (reprOf : Value → String) (board : TaskBoard) (as : List TickAction) (s : TickState),
      board.scheduler = .frontier → ValidRevision board.revision →
        (tick reprOf board).Meets (AnswersPlainly reprOf) TickState.initial as →
          (tick reprOf board).run TickState.initial as = some s → s.finished = true →
            QuiescentTick reprOf board s.log := by
  intro h
  obtain ⟨s, hrun, hend⟩ := Option.map_eq_some_iff.mp loneRun_ends
  obtain ⟨hf, hc⟩ := Prod.mk.inj hend
  exact not_quiescent hc
    (h plainText loneBoard loneRun s rfl loneBoard_valid (answering_plain .none _ _ _) hrun hf)

theorem lone_card_iff :
    ∃ s, (tick plainText loneBoard).run TickState.initial loneRun = some s ∧
      (QuiescentTick plainText loneBoard s.log ↔ QuietStart plainText loneBoard.revision) := by
  obtain ⟨s, hrun, hend⟩ := Option.map_eq_some_iff.mp loneRun_ends
  exact ⟨s, hrun, frontier_quiesces_iff rfl loneBoard_valid hrun (Prod.mk.inj hend).1⟩

end Agently.TaskBoard
