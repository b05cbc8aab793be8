import Agently.TaskBoard.FrontierRuns

/-! # Runs of a batch tick

Source: `TaskBoard/TaskBoardRuntime.py`. A batch tick runs the runnable cards of its revision,
collects all their results and records them in one patch. -/

namespace Agently.TaskBoard

open Agently.Lib Agently.Utils
open Agently.TaskDAGValidation (Fault strip bind_eq_ok)

section BatchTicks

variable {reprOf : Value → String} {b : HandledBoard reprOf} {s t : TickState} {a : TickAction}

def TickData.collectedResults (d : TickData) : Dict String Value := d.collected.getD []

def layerResult (b : HandledBoard reprOf) (id : String) : Option TaskBoardCardResult :=
  (b.revision.graph.cardById id).bind fun card =>
    b.result card (dependencyResultsIn b.revision.cardResults.get? card)

def layer (b : HandledBoard reprOf) : List TaskBoardCardResult :=
  b.revision.runnable.filterMap (layerResult b)

def Reads (b : HandledBoard reprOf) (collected : Dict String Value) : Prop :=
  ∀ p ∈ collected, ∃ y, layerResult b p.1 = some y ∧ cardResultFromValue reprOf p.2 = .ok y

theorem readResults_ok {collected : Dict String Value} (h : Reads b collected) :
    ∀ {ids : List String}, (∀ id ∈ ids, id ∈ collected.keys) →
      readResults reprOf (ids.filterMap (Dict.get? collected)) =
        .ok (ids.filterMap (layerResult b))
  | [], _ => rfl
  | id :: ids, hids => by
      have ih := readResults_ok h (List.forall_mem_cons.mp hids).2
      cases hg : Dict.get? collected id with
      | none => exact absurd (hids id List.mem_cons_self) (Dict.get?_eq_none_iff.mp hg)
      | some v =>
        obtain ⟨y, hy, hv⟩ := h (id, v) (Dict.mem_of_get? hg)
        rw [List.filterMap_cons_some hg, List.filterMap_cons_some hy, readResults, hv]
        simp only
        rw [ih]

theorem layerResult_eq {card : TaskBoardCard} (hc : card ∈ b.revision.graph.cards) :
    layerResult b card.id = b.result card (dependencyResultsIn b.revision.cardResults.get? card) := by
  have hfind : b.revision.graph.cardById card.id = some card :=
    DependencyList.find_of_mem b.valid.ids_nodup hc
  unfold layerResult
  rw [hfind]
  rfl

theorem open_of_runnable {id : String} (hid : id ∈ b.revision.runnable) : b.Open id := by
  obtain ⟨card, hc, he, hend, -⟩ := (mem_runnable b.valid).mp hid
  exact ⟨card, hc, he, hend⟩

theorem layerResult_of_runnable {id : String} (hid : id ∈ b.revision.runnable) :
    ∃ card ∈ b.revision.graph.cards, ∃ y, card.id = id ∧ layerResult b id = some y ∧
      b.result card (dependencyResultsIn b.revision.cardResults.get? card) = some y ∧
      y.cardId = id ∧ Recordable reprOf b.revision.graph.ids y := by
  obtain ⟨card, hc, rfl, hend⟩ := open_of_runnable hid
  obtain ⟨y, hy, hrec, hown⟩ := HandledBoard.result_some hc hend
    (dependencyResultsIn b.revision.cardResults.get? card)
  exact ⟨card, hc, y, rfl, (layerResult_eq hc).trans hy, hy, hown, hrec⟩

theorem mem_layer {y : TaskBoardCardResult} (hy : y ∈ layer b) :
    y.cardId ∈ b.revision.runnable ∧ layerResult b y.cardId = some y ∧
      Recordable reprOf b.revision.graph.ids y := by
  obtain ⟨id, hid, hv⟩ := List.mem_filterMap.mp hy
  obtain ⟨-, -, z, -, hz, -, hown, hrec⟩ := layerResult_of_runnable hid
  rw [hv] at hz
  cases hz
  exact ⟨hown.symm ▸ hid, hown.symm ▸ hv, hrec⟩

theorem layer_ids (b : HandledBoard reprOf) :
    (layer b).map TaskBoardCardResult.cardId = b.revision.runnable := by
  unfold layer
  rw [List.map_filterMap]
  have hall : ∀ id ∈ b.revision.runnable, (layerResult b id).map TaskBoardCardResult.cardId =
      some id := by
    intro id hid
    obtain ⟨-, -, y, -, hy, -, hown, -⟩ := layerResult_of_runnable hid
    rw [hy, Option.map_some, hown]
  rw [List.filterMap_congr hall]
  exact List.filterMap_some

theorem layer_ne_nil (hne : b.revision.runnable ≠ []) : layer b ≠ [] := by
  intro hl
  have hids := layer_ids b
  rw [hl] at hids
  exact hne hids.symm

theorem applyLayer (hne : b.revision.runnable ≠ []) (fresh : Fresh) :
    ∃ next, applyCardResults reprOf fresh b.revision (layer b) = .ok next ∧
      Recorded reprOf b.revision (layer b) next :=
  applyCardResults_ok fresh b.valid b.normal (fun _ hy => (mem_layer hy).2.2) (layer_ne_nil hne)

def TickTask.BatchFollows (b : HandledBoard reprOf) (s : TickState) : TickTask → Prop
  | .running id card deps => card ∈ b.revision.graph.cards ∧ card.id = id ∧
      deps = dependencyResultsIn b.revision.cardResults.get? card
  | .collecting x => ∃ card ∈ b.revision.graph.cards,
      Answers reprOf card (b.handler card (dependencyResultsIn b.revision.cardResults.get? card)) x
  | .applying values => s.inFlight = [] ∧
      values = b.revision.runnable.filterMap (Dict.get? s.data.collectedResults)
  | .preparing | .requesting _ true | .applyingFrontier | .raised _ => False
  | _ => True

def Applied (b : HandledBoard reprOf) (s : TickState) : Prop :=
  (∃ next, s.data.revision = some next.toDict ∧ s.inFlight = [] ∧
      Recorded reprOf b.revision (layer b) next) ∨
    (s.data.revision = none ∧ (s.inFlight = [] → ∃ values, TickTask.applying values ∈ s.tasks))

structure Batch (b : HandledBoard reprOf) (s : TickState) : Prop where
  topology : s.data.topology = some "batch"
  expected : s.data.expectedCardIds = some b.revision.runnable
  nonempty : b.revision.runnable ≠ []
  reads : Reads b s.data.collectedResults
  tokens : (s.inFlight ++ s.data.collectedResults.keys).Perm b.revision.runnable
  tasks : ∀ task ∈ s.tasks, task.BatchFollows b s
  applied : Applied b s
  logged : ∀ id ∈ requestedIds s.log, id ∈ b.revision.runnable

namespace Batch

theorem runnable_of_inFlight (h : Batch b s) {id : String} (hid : id ∈ s.inFlight) :
    id ∈ b.revision.runnable :=
  h.tokens.mem_iff.mp (List.mem_append_left _ hid)

theorem not_collected (h : Batch b s) {id : String} (hid : id ∈ s.inFlight) :
    id ∉ s.data.collectedResults.keys := by
  intro hx
  have hn := h.tokens.nodup_iff.mpr (runnable_nodup b.valid)
  exact (List.nodup_append.mp hn).2.2 id hid id hx rfl

theorem unapplied (h : Batch b s) (hne : s.inFlight ≠ []) : s.data.revision = none := by
  rcases h.applied with ⟨-, -, hno, -⟩ | ⟨hnone, -⟩
  · exact absurd hno hne
  · exact hnone

theorem follows_congr {task : TickTask} (h : task.BatchFollows b s)
    (hf : t.inFlight = s.inFlight) (hc : t.data.collectedResults = s.data.collectedResults) :
    task.BatchFollows b t := by
  cases task with
  | applying values => exact ⟨hf.trans h.1, hc ▸ h.2⟩
  | requesting ids complete =>
    cases complete with
    | true => exact h.elim
    | false => trivial
  | running id card deps => exact h
  | collecting x => exact h
  | preparing => exact h.elim
  | applyingFrontier => exact h.elim
  | raised e => exact h.elim
  | requested id => trivial
  | returned => trivial

theorem follows_inFlight (h : Batch b s) (hne : s.inFlight ≠ []) (t : TickState) {task : TickTask}
    (hm : task ∈ s.tasks) : task.BatchFollows b t := by
  have hf := h.tasks task hm
  cases task with
  | applying values => exact absurd hf.1 hne
  | requesting ids complete =>
    cases complete with
    | true => exact hf.elim
    | false => trivial
  | running id card deps => exact hf
  | collecting x => exact hf
  | preparing => exact hf.elim
  | applyingFrontier => exact hf.elim
  | raised e => exact hf.elim
  | requested id => trivial
  | returned => trivial

theorem setTask (h : Batch b s) {n : Nat} {task task' : TickTask} (ht : s.tasks[n]? = some task)
    (hc : task'.cards = task.cards) (hf : task'.BatchFollows b s)
    (ha : ∀ values, task ≠ .applying values) : Batch b (setTask s n task') := by
  have hfl := inFlight_set ht hc
  refine ⟨h.topology, h.expected, h.nonempty, h.reads, ?_, ?_, ?_, h.logged⟩
  · rw [hfl]
    exact h.tokens
  · exact forall_mem_set (fun u hu => follows_congr (h.tasks u hu) hfl rfl) (follows_congr hf hfl rfl)
  · unfold Applied
    rw [hfl]
    rcases h.applied with hdone | ⟨hnone, hopen⟩
    · exact .inl hdone
    · refine .inr ⟨hnone, ?_⟩
      intro hno
      obtain ⟨values, hv⟩ := hopen hno
      obtain ⟨l₁, l₂, hl, hset⟩ := exists_split ht
      refine ⟨values, ?_⟩
      show _ ∈ s.tasks.set n task'
      rw [hset]
      rw [hl, List.mem_append, List.mem_cons] at hv
      rcases hv with hv | hv | hv
      · exact List.mem_append_left _ hv
      · exact absurd hv.symm (ha values)
      · exact List.mem_append_right _ (List.mem_cons_of_mem _ hv)

theorem startCard (h : Batch b s) {id : String} (hid : id ∈ s.inFlight) :
    ∃ card ∈ b.revision.graph.cards, card.id = id ∧
      startCard reprOf ⟨b.revision, .batch⟩ s.data id =
        .ok (.running id card (dependencyResultsIn b.revision.cardResults.get? card)) := by
  obtain ⟨plan, hplan, -⟩ := schedule_spec b.valid
  obtain ⟨card, hc, rfl, -⟩ := open_of_runnable (h.runnable_of_inFlight hid)
  have hcard : b.revision.graph.cardById card.id = some card :=
    DependencyList.find_of_mem b.valid.ids_nodup hc
  refine ⟨card, hc, rfl, ?_⟩
  unfold TaskBoard.startCard startRevision
  simp only [bind, Except.bind, hplan, hcard]
  rfl

theorem request (h : Batch b s) {n : Nat} {id : String} {rest : List String}
    (ht : s.tasks[n]? = some (.requesting (id :: rest) false)) :
    Batch b { s with
      tasks := s.tasks.set n (.requesting rest false) ++ [.requested id]
      log := .cardRequested id s.data :: s.log } := by
  have hin : id ∈ s.inFlight := mem_inFlight (List.mem_of_getElem? ht) List.mem_cons_self
  have hne : s.inFlight ≠ [] := List.ne_nil_of_mem hin
  have hflight := inFlight_request ht
  refine ⟨h.topology, h.expected, h.nonempty, h.reads, (hflight.append_right _).trans h.tokens,
    forall_mem_set_append (fun u hu => h.follows_inFlight hne _ hu) trivial trivial,
    .inr ⟨h.unapplied hne, ?_⟩, ?_⟩
  · intro hno
    have hlen := hflight.length_eq
    have hno : (s.tasks.set n (.requesting rest false) ++ [TickTask.requested id]).flatMap
        TickTask.cards = [] := hno
    rw [hno] at hlen
    exact absurd (List.length_eq_zero_iff.mp hlen.symm) hne
  · intro j hj
    rcases List.mem_cons.mp hj with rfl | hj
    · exact h.runnable_of_inFlight hin
    · exact h.logged j hj

def collectedData (d : TickData) (x : TaskBoardCardResult) : TickData :=
  { d with collected := some (Dict.set d.collectedResults x.cardId x.toDict) }

theorem collectBatch_eq (h : Batch b s) (n : Nat) (x : TaskBoardCardResult) :
    collectBatch s n x =
      if b.revision.runnable.length ≤ (Dict.set s.data.collectedResults x.cardId x.toDict).length then
        { data := collectedData s.data x
          tasks := s.tasks.set n .returned ++
            [.applying (b.revision.runnable.filterMap
              (Dict.get? (Dict.set s.data.collectedResults x.cardId x.toDict)))]
          log := .cardsCompleted (collectedData s.data x) :: s.log }
      else { s with data := collectedData s.data x, tasks := s.tasks.set n .returned } := by
  have hne : b.revision.runnable.isEmpty = false := by simpa using h.nonempty
  have hexp : s.data.expectedCardIds.getD [] = b.revision.runnable := by
    rw [h.expected, Option.getD_some]
  unfold collectBatch
  simp only [hexp, hne, Bool.not_false, Bool.true_and, decide_eq_true_eq]
  rfl

theorem reads_collected (h : Batch b s) {n : Nat} {x : TaskBoardCardResult}
    (ht : s.tasks[n]? = some (.collecting x)) :
    Reads b (Dict.set s.data.collectedResults x.cardId x.toDict) := by
  obtain ⟨card, hc, hx⟩ := h.tasks _ (List.mem_of_getElem? ht)
  intro p hp
  rcases Dict.mem_set hp with rfl | hp
  · refine ⟨x.cleaned, ?_, reads_cleaned (HandledBoard.clean_id hc hx)⟩
    show layerResult b x.cardId = _
    rw [hx.own, layerResult_eq hc]
    exact handlerResult_eq hx
  · exact h.reads p hp

theorem tokens_collected (h : Batch b s) {n : Nat} {x : TaskBoardCardResult}
    (ht : s.tasks[n]? = some (.collecting x)) :
    ((s.tasks.set n .returned).flatMap TickTask.cards ++
      (Dict.set s.data.collectedResults x.cardId x.toDict).keys).Perm b.revision.runnable := by
  have hin : x.cardId ∈ s.inFlight := mem_inFlight (List.mem_of_getElem? ht) List.mem_cons_self
  have hkeys : (Dict.set s.data.collectedResults x.cardId x.toDict).keys =
      s.data.collectedResults.keys ++ [x.cardId] :=
    Dict.keys_set_of_not_mem (h.not_collected hin) x.toDict
  obtain ⟨l₁, l₂, hl, hset⟩ := exists_split ht
  refine List.Perm.trans ?_ h.tokens
  unfold TickState.inFlight
  rw [hkeys, hset, hl, List.perm_iff_count]
  intro j
  simp only [List.flatMap_append, List.flatMap_cons, TickTask.cards, List.count_append,
    List.count_cons, List.count_nil]
  omega

theorem collect (h : Batch b s) {n : Nat} {x : TaskBoardCardResult}
    (ht : s.tasks[n]? = some (.collecting x)) : Batch b (collectBatch s n x) := by
  have hne : s.inFlight ≠ [] := inFlight_ne (List.mem_of_getElem? ht) List.mem_cons_self
  have hnone := h.unapplied hne
  have hreads := h.reads_collected ht
  have htokens := h.tokens_collected ht
  have hlen : (Dict.set s.data.collectedResults x.cardId x.toDict).length + ((s.tasks.set n
      .returned).flatMap TickTask.cards).length = b.revision.runnable.length := by
    have hle := htokens.length_eq
    rw [List.length_append] at hle
    have hk : (Dict.set s.data.collectedResults x.cardId x.toDict).keys.length =
        (Dict.set s.data.collectedResults x.cardId x.toDict).length := List.length_map _
    omega
  rw [h.collectBatch_eq]
  split
  next hle =>
    have hno : (s.tasks.set n .returned).flatMap TickTask.cards = [] :=
      List.length_eq_zero_iff.mp (by omega)
    have hflight : (s.tasks.set n .returned ++ [TickTask.applying (b.revision.runnable.filterMap
        (Dict.get? (Dict.set s.data.collectedResults x.cardId x.toDict)))]).flatMap
        TickTask.cards = [] := by
      rw [List.flatMap_append, hno]
      rfl
    refine ⟨h.topology, h.expected, h.nonempty, hreads, ?_, ?_, .inr ⟨hnone, ?_⟩, h.logged⟩
    · show ((s.tasks.set n .returned ++ _).flatMap TickTask.cards ++ _).Perm _
      rw [hflight, ← hno]
      exact htokens
    · exact forall_mem_set_append (fun u hu => h.follows_inFlight hne _ hu) trivial ⟨hflight, rfl⟩
    · intro _
      exact ⟨_, List.mem_append_right _ List.mem_cons_self⟩
  next hlt =>
    refine ⟨h.topology, h.expected, h.nonempty, hreads, htokens, ?_, .inr ⟨hnone, ?_⟩, h.logged⟩
    · exact forall_mem_set (fun u hu => h.follows_inFlight hne _ hu) trivial
    · intro hno
      have hno : (s.tasks.set n .returned).flatMap TickTask.cards = [] := hno
      rw [hno, List.length_nil] at hlen
      omega

theorem apply (h : Batch b s) {n : Nat} {values : List Value}
    (ht : s.tasks[n]? = some (.applying values)) (fresh : Fresh) :
    Batch b (finishApply s n (applyResults reprOf ⟨b.revision, .batch⟩ s.data fresh values)) := by
  obtain ⟨hno, rfl⟩ := h.tasks _ (List.mem_of_getElem? ht)
  have hkeys : ∀ id ∈ b.revision.runnable, id ∈ s.data.collectedResults.keys := by
    intro id hid
    have hmem := h.tokens.mem_iff.mpr hid
    rw [hno, List.nil_append] at hmem
    exact hmem
  obtain ⟨next, happly, hrec⟩ := applyLayer h.nonempty fresh
  unfold applyResults
  rw [readResults_ok h.reads hkeys]
  simp only [bind, Except.bind]
  rw [show b.revision.runnable.filterMap (layerResult b) = layer b from rfl, happly]
  simp only [finishApply, pure, Except.pure]
  have hfl : (TaskBoard.setTask s n .returned).inFlight = s.inFlight := inFlight_set ht rfl
  refine ⟨h.topology, h.expected, h.nonempty, h.reads, ?_, ?_, .inl ⟨next, rfl, ?_, hrec⟩, h.logged⟩
  · have htokens := h.tokens
    rw [← hfl] at htokens
    exact htokens
  · exact forall_mem_set (fun u hu => follows_congr (h.tasks u hu) hfl rfl) trivial
  · exact hfl.trans hno

theorem step (h : Batch b s) (hd : Drives b.handler s a)
    (ht : (tick reprOf ⟨b.revision, .batch⟩).step s a = some t) : Batch b t := by
  obtain ⟨task, htask, ht⟩ := Option.bind_eq_some_iff.mp ht
  have hm := List.mem_of_getElem? htask
  have hf := h.tasks task hm
  cases task with
  | preparing => exact hf.elim
  | requesting ids complete =>
    cases complete with
    | true => exact hf.elim
    | false =>
      cases ids with
      | cons id rest =>
        cases ht
        exact h.request htask
      | nil =>
        cases ht
        exact h.setTask htask rfl trivial fun _ he => by cases he
  | requested id =>
    have hid : id ∈ s.inFlight := mem_inFlight hm List.mem_cons_self
    obtain ⟨card, hc, rfl, hstart⟩ := h.startCard hid
    simp only [stepTask, hstart] at ht
    cases ht
    exact h.setTask htask rfl ⟨hc, rfl, rfl⟩ fun _ he => by cases he
  | running id card deps =>
    obtain ⟨hc, rfl, rfl⟩ := hf
    have hin : card.id ∈ s.inFlight := mem_inFlight hm List.mem_cons_self
    have hend := (open_of_runnable (h.runnable_of_inFlight hin)).ended hc
    have hanswer := hd card.id card _ htask
    obtain ⟨x, hx⟩ := b.answers card hc hend (dependencyResultsIn b.revision.cardResults.get? card)
    simp only [stepTask, hanswer, hx.coerced] at ht
    cases ht
    refine h.setTask htask ?_ ⟨card, hc, hx⟩ fun _ he => by cases he
    exact congrArg (fun i => [i]) hx.own
  | collecting x =>
    cases ht
    exact h.collect htask
  | applyingFrontier => exact hf.elim
  | applying values =>
    cases ht
    exact h.apply htask a.input.fresh
  | returned => cases ht
  | raised e => cases ht

theorem run {as : List TickAction} (h : Batch b s)
    (hm : (tick reprOf ⟨b.revision, .batch⟩).Meets (Drives b.handler) s as)
    (hr : (tick reprOf ⟨b.revision, .batch⟩).run s as = some t) : Batch b t :=
  (tick reprOf ⟨b.revision, .batch⟩).run_invariant_meeting (fun _ _ _ h hd ht => h.step hd ht) h hm hr

theorem finished (h : Batch b s) (hf : s.finished = true) (report : CloseReport) (fresh : Fresh) :
    ∃ next, Recorded reprOf b.revision (layer b) next ∧
      finalizeTickSnapshot reprOf ⟨b.revision, .batch⟩ s.data report fresh = .ok next := by
  rcases h.applied with ⟨next, hrev, -, hrec⟩ | ⟨-, hopen⟩
  · refine ⟨next, hrec, ?_⟩
    unfold finalizeTickSnapshot
    rw [hrev]
    exact hrec.normal.reads ""
  · obtain ⟨values, hv⟩ := hopen (inFlight_finished hf)
    have hov := List.all_eq_true.mp hf _ hv
    cases hov

end Batch

theorem batch_prepared (ht : (tick reprOf ⟨b.revision, .batch⟩).step TickState.initial a = some t) :
    Batch b t ∨ b.revision.runnable = [] ∧ t =
      { data := { topology := some "batch", schedule := t.data.schedule
                  revision := some b.revision.toDict
                  cardResults := some (resultsDict b.revision.cardResults) }
        tasks := [.returned], log := [] } := by
  rw [step_prepares ht]
  obtain ⟨plan, hplan, hrun⟩ := schedule_spec b.valid
  unfold prepareTick
  simp only [hplan, hrun]
  by_cases hne : b.revision.runnable = []
  · rw [if_pos hne]
    exact .inr ⟨hne, rfl⟩
  · rw [if_neg hne]
    refine .inl ⟨rfl, rfl, hne, ?_, ?_, ?_, .inr ⟨rfl, ?_⟩, ?_⟩
    · intro p hp
      cases hp
    · simp [TickState.inFlight, setTask, TickState.initial, TickTask.cards,
        TickData.collectedResults, Dict.keys]
    · intro task hm
      cases List.mem_singleton.mp hm
      trivial
    · intro hno
      simp [TickState.inFlight, setTask, TickState.initial, TickTask.cards] at hno
      exact absurd hno hne
    · intro id hid
      cases hid

theorem batch_run {as : List TickAction}
    (hm : (tick reprOf ⟨b.revision, .batch⟩).Meets (Drives b.handler) TickState.initial as)
    (hr : (tick reprOf ⟨b.revision, .batch⟩).run TickState.initial as = some t) :
    t = TickState.initial ∨ Batch b t ∨ b.revision.runnable = [] ∧ t =
      { data := { topology := some "batch", schedule := t.data.schedule
                  revision := some b.revision.toDict
                  cardResults := some (resultsDict b.revision.cardResults) }
        tasks := [.returned], log := [] } := by
  cases as with
  | nil => exact .inl (Option.some.inj hr).symm
  | cons a as =>
    obtain ⟨u, hu, hrun⟩ := (tick reprOf ⟨b.revision, .batch⟩).run_cons_eq_some.mp hr
    rcases batch_prepared hu with hbatch | ⟨hnil, hend⟩
    · exact .inr (.inl (hbatch.run (hm.2 u hu) hrun))
    · have hf : u.finished = true := by
        rw [hend]
        rfl
      rw [run_finished hf hrun]
      exact .inr (.inr ⟨hnil, hend⟩)

theorem batch_finished {as : List TickAction}
    (hm : (tick reprOf ⟨b.revision, .batch⟩).Meets (Drives b.handler) TickState.initial as)
    (hr : (tick reprOf ⟨b.revision, .batch⟩).run TickState.initial as = some t)
    (hf : t.finished = true) (hne : b.revision.runnable ≠ []) (report : CloseReport) (fresh : Fresh) :
    ∃ next, Recorded reprOf b.revision (layer b) next ∧
      finalizeTickSnapshot reprOf ⟨b.revision, .batch⟩ t.data report fresh = .ok next := by
  rcases batch_run hm hr with rfl | hbatch | ⟨hnil, -⟩
  · cases hf
  · exact hbatch.finished hf report fresh
  · exact absurd hnil hne

section Layers

variable {ho : b.revision.StillOpen} {xs : List TaskBoardCardResult} {r next : TaskBoardRevision}

/-- The board after some of its cards have been played, where results end their cards. -/
def Played.board (h : Played b ho xs r) (he : b.Ends) : HandledBoard reprOf where
  revision := r
  handler := b.handler
  valid := h.valid
  normal := h.normal
  answers := by
    intro card' hc' hend results
    rw [h.cards] at hc'
    obtain ⟨card, hc, rfl⟩ := List.mem_map.mp hc'
    have hm : card.id ∉ xs.map TaskBoardCardResult.cardId := by
      intro hm
      obtain ⟨x, hx, hid⟩ := List.mem_map.mp hm
      unfold TaskBoardRevision.ended at hend
      rw [recordedCard_id, ← hid, h.get?_mem hx] at hend
      simp [h.ends he hx] at hend
    rw [Holds.recorded_not_mem hm] at hend ⊢
    exact b.answers card hc ((h.ended_not_mem hm).symm.trans hend) results

theorem Played.advance (h : Played b ho xs r) (he : b.Ends) (hne : r.runnable ≠ [])
    (hrec : Recorded reprOf r (layer (h.board he)) next) :
    Played b ho (xs ++ layer (h.board he)) next := by
  have hrun : ∀ y ∈ layer (h.board he), y.cardId ∈ r.runnable := fun y hy => (mem_layer hy).1
  have hnew : ∀ y ∈ layer (h.board he), y.cardId ∉ xs.map TaskBoardCardResult.cardId :=
    fun y hy => h.not_runnable he (hrun y hy)
  refine h.record (layer_ne_nil hne) ?_ hnew ?_ ?_ ?_ hrec
  · rw [layer_ids]
    exact runnable_nodup h.valid
  · exact fun y hy => ((h.mem_runnable (hnew y hy)).mp (hrun y hy)).1
  · exact fun y hy => ((h.mem_runnable (hnew y hy)).mp (hrun y hy)).2
  · intro y hy
    obtain ⟨card, hc, hid, -⟩ := ((h.mem_runnable (hnew y hy)).mp (hrun y hy)).1
    have hfind := h.findCard hc (hid.symm ▸ hnew y hy)
    have hlayer := (mem_layer hy).2.1
    unfold layerResult at hlayer
    rw [← hid, value_eq b ho hc]
    rw [← hid, show (h.board he).revision.graph.cardById card.id = some card from hfind] at hlayer
    exact hlayer

end Layers

end BatchTicks

end Agently.TaskBoard
