import Agently.TaskBoard.FrontierTicks
import Agently.TaskBoard.PlayedBoards

/-! # Runs of a frontier tick

Source: `TaskBoard/TaskBoardRuntime.py`. Every dispatched card is on its way or recorded in the
stored revision, and what satisfied its dependencies stays; a tick in which nothing is on its way
has played its board to the end. -/

namespace Agently.TaskBoard

open Agently.Lib Agently.Utils
open Agently.TaskDAGValidation (Fault strip bind_eq_ok)

section FrontierRuns

variable {reprOf : Value → String}

/-- The results `xs` have been collected; `r` is the board with them. -/
structure Collected (b : HandledBoard reprOf) (xs : List TaskBoardCardResult)
    (r : TaskBoardRevision) (d : TickData) : Prop where
  holds : Holds b xs r
  topology : d.topology = some "frontier"
  running : d.runningCardIds = d.dispatchedCardIds
  nodup : d.dispatchedCardIds.Nodup
  opened : ∀ id ∈ d.dispatchedCardIds, b.Open id
  recorded : ∀ id ∈ xs.map TaskBoardCardResult.cardId, id ∈ d.dispatchedCardIds
  collected : ∀ id, (Dict.get? (d.collectedJson.getD []) id).isSome = true ↔
    id ∈ xs.map TaskBoardCardResult.cardId
  entries : ∀ p ∈ d.collectedJson.getD [], JsonStable p.2 ∧
    ∃ x ∈ xs, x.cardId = p.1 ∧ cardResultFromValue reprOf p.2 = .ok x

structure Dispatched (b : HandledBoard reprOf) (xs : List TaskBoardCardResult)
    (r : TaskBoardRevision) (d : TickData) : Prop extends Collected b xs r d where
  stored : d.revisionJson = some r.toDict
  expected : d.expectedCardIdsJson = some d.dispatchedCardIds

/-- No card that has not ended looks as if it had, and neither does the board. -/
structure HandledBoard.Settles (b : HandledBoard reprOf) : Prop where
  stillOpen : b.revision.StillOpen
  running : lower (strip b.revision.status) ≠ "completed"

variable {b : HandledBoard reprOf} {xs : List TaskBoardCardResult}
  {r next : TaskBoardRevision} {d : TickData} {s t : TickState} {a : TickAction}

def TickData.collect (d : TickData) (x : TaskBoardCardResult) : TickData :=
  { d with collectedJson := some (Dict.set (d.collectedJson.getD []) x.cardId x.toDict) }

theorem sortedSet_perm {ids : List String} (h : ids.Nodup) : (sortedSet ids).Perm ids := by
  unfold sortedSet
  rw [List.Nodup.dedup h]
  exact List.perm_insertionSort _ ids

theorem mem_newCards (h : Collected b xs r d) {id : String} (hid : id ∈ newCards d r) :
    id ∈ r.runnable ∧ id ∉ d.dispatchedCardIds ∧ id ∉ xs.map TaskBoardCardResult.cardId := by
  unfold newCards at hid
  split at hid
  · cases hid
  · obtain ⟨hr, hd⟩ := List.mem_filter.mp hid
    have hd := (of_decide_eq_true hd).2
    exact ⟨hr, hd, fun hm => hd (h.recorded id hm)⟩

theorem newCards_nodup (h : Collected b xs r d) : (d.dispatchedCardIds ++ newCards d r).Nodup := by
  have hnn : (newCards d r).Nodup := by
    unfold newCards
    split
    · exact List.nodup_nil
    · exact (runnable_nodup h.holds.valid).filter _
  rw [List.nodup_append]
  refine ⟨h.nodup, hnn, ?_⟩
  rintro id hid id' hid' rfl
  exact (mem_newCards h hid').2.1 hid

theorem runnable_dispatched (hs : b.Settles) (h : Collected b xs r d)
    (hp : Played b hs.stillOpen xs r) {id : String} (hid : id ∈ r.runnable) :
    id ∈ d.dispatchedCardIds ∨ id ∈ newCards d r := by
  by_cases hd : id ∈ d.dispatchedCardIds
  · exact .inl hd
  · refine .inr ?_
    unfold newCards
    split
    next hc => exact absurd (h.recorded id (hp.runnable_of_completed hs.running hc id hid)) hd
    next =>
      refine List.mem_filter.mpr ⟨hid, ?_⟩
      rw [h.running]
      exact decide_eq_true ⟨hd, hd⟩

theorem Collected.dispatch (h : Collected b xs r d) :
    ∃ plan, prepareFrontierDispatch d r = .ok (d.dispatching r.toDict plan (newCards d r),
        newCards d r, d.dispatchedCardIds.isEmpty && (newCards d r).isEmpty) ∧
      Dispatched b xs r (d.dispatching r.toDict plan (newCards d r)) ∧
      (d.dispatching r.toDict plan (newCards d r)).dispatchedCardIds.Perm
        (d.dispatchedCardIds ++ newCards d r) := by
  obtain ⟨plan, heq⟩ := prepareFrontierDispatch_eq d h.holds.valid
  rw [h.holds.normal.reloads, h.running] at heq
  have hperm : (d.dispatching r.toDict plan (newCards d r)).dispatchedCardIds.Perm
      (d.dispatchedCardIds ++ newCards d r) := sortedSet_perm (newCards_nodup h)
  refine ⟨plan, heq, ?_, hperm⟩
  have hmem : ∀ id, id ∈ (d.dispatching r.toDict plan (newCards d r)).dispatchedCardIds ↔
      id ∈ d.dispatchedCardIds ∨ id ∈ newCards d r := by
    intro id
    rw [hperm.mem_iff, List.mem_append]
  have hsame : (d.dispatching r.toDict plan (newCards d r)).runningCardIds =
      (d.dispatching r.toDict plan (newCards d r)).dispatchedCardIds := by
    show sortedSet (d.runningCardIds ++ _) = sortedSet (d.dispatchedCardIds ++ _)
    rw [h.running]
  refine ⟨⟨h.holds, h.topology, hsame, sortedSet_nodup _, ?_, ?_, h.collected, h.entries⟩, rfl, ?_⟩
  · intro id hid
    rcases (hmem id).mp hid with hid | hid
    · exact h.opened id hid
    · obtain ⟨hr, -, hm⟩ := mem_newCards h hid
      exact ((h.holds.mem_runnable hm).mp hr).1
  · exact fun id hid => (hmem id).mpr (.inl (h.recorded id hid))
  · exact congrArg some hsame

def TickTask.cards : TickTask → List String
  | .requesting ids _ => ids
  | .requested id | .running id _ _ => [id]
  | .collecting x => [x.cardId]
  | _ => []

def TickState.inFlight (s : TickState) : List String := s.tasks.flatMap TickTask.cards

def TickTask.closes : TickTask → Prop
  | .requesting _ true | .applyingFrontier => True
  | _ => False

def TickTask.Follows (b : HandledBoard reprOf) : TickTask → Prop
  | .running id card _ => card ∈ b.revision.graph.cards ∧ card.id = id
  | .collecting x => ∃ card ∈ b.revision.graph.cards, ∃ results,
      Answers reprOf card (b.handler card results) x
  | .preparing | .applying _ | .raised _ => False
  | _ => True

/-- The task runs its card with what the dependencies of the card have come to in `r`. -/
def TickTask.Plays (b : HandledBoard reprOf) (r : TaskBoardRevision) : TickTask → Prop
  | .running _ card results => results = dependencyResultsIn r.cardResults.get? card
  | .collecting x => ∃ card ∈ b.revision.graph.cards,
      Answers reprOf card (b.handler card (dependencyResultsIn r.cardResults.get? card)) x
  | _ => True

/-- What holds of a board that settles: the dispatched cards are ready, those that are runnable
are dispatched, and the tasks play the board. -/
structure Playing (b : HandledBoard reprOf) (ho : b.revision.StillOpen)
    (xs : List TaskBoardCardResult) (r : TaskBoardRevision) (s : TickState) : Prop where
  played : Played b ho xs r
  ready : ∀ id ∈ s.data.dispatchedCardIds, ReadyIn b.revision r.cardResults.get? id
  runnable : ∀ id ∈ r.runnable, id ∈ s.data.dispatchedCardIds
  tasks : ∀ task ∈ s.tasks, task.Plays b r

/-- Every dispatched card is on its way or recorded in the stored revision. -/
structure Frontier (b : HandledBoard reprOf) (xs : List TaskBoardCardResult)
    (r : TaskBoardRevision) (s : TickState) : Prop where
  data : Dispatched b xs r s.data
  tokens : (s.inFlight ++ xs.map TaskBoardCardResult.cardId).Perm s.data.dispatchedCardIds
  tasks : ∀ task ∈ s.tasks, task.Follows b
  made : ∀ x ∈ xs, ∃ card ∈ b.revision.graph.cards, card.id = x.cardId ∧
    ∃ results, b.result card results = some x
  closing : (∃ task ∈ s.tasks, task.closes) → s.inFlight = []
  revision : s.data.revision = none ∨ s.data.revision = some r.toDict ∧ s.inFlight = []
  logged : ∀ id ∈ requestedIds s.log, id ∈ s.data.dispatchedCardIds
  playing : ∀ hs : b.Settles, Playing b hs.stillOpen xs r s

theorem exists_split {α : Type} {l : List α} {n : Nat} {x : α} (h : l[n]? = some x) :
    ∃ l₁ l₂, l = l₁ ++ x :: l₂ ∧ ∀ y, l.set n y = l₁ ++ y :: l₂ := by
  obtain ⟨hn, rfl⟩ := List.getElem?_eq_some_iff.mp h
  refine ⟨l.take n, l.drop (n + 1), ?_, ?_⟩
  · rw [← List.drop_eq_getElem_cons hn, List.take_append_drop]
  · intro y
    rw [List.set_eq_take_append_cons_drop, if_pos hn]

theorem inFlight_set {n : Nat} {task task' : TickTask} (h : s.tasks[n]? = some task)
    (hc : task'.cards = task.cards) : (setTask s n task').inFlight = s.inFlight := by
  obtain ⟨l₁, l₂, hl, hset⟩ := exists_split h
  unfold TickState.inFlight setTask
  rw [hset, hl]
  simp [hc]

theorem mem_inFlight {task : TickTask} (hm : task ∈ s.tasks) {id : String} (hid : id ∈ task.cards) :
    id ∈ s.inFlight :=
  List.mem_flatMap.mpr ⟨task, hm, hid⟩

theorem inFlight_ne {task : TickTask} (hm : task ∈ s.tasks) {id : String} (hid : id ∈ task.cards) :
    s.inFlight ≠ [] :=
  List.ne_nil_of_mem (mem_inFlight hm hid)

theorem inFlight_request {n : Nat} {id : String} {rest : List String} {complete : Bool}
    (ht : s.tasks[n]? = some (.requesting (id :: rest) complete)) :
    ((s.tasks.set n (.requesting rest complete) ++ [TickTask.requested id]).flatMap
      TickTask.cards).Perm s.inFlight := by
  obtain ⟨l₁, l₂, hl, hset⟩ := exists_split ht
  unfold TickState.inFlight
  rw [hset, hl, List.perm_iff_count]
  intro j
  simp only [List.flatMap_append, List.flatMap_cons, List.flatMap_nil, TickTask.cards,
    List.count_append, List.count_cons, List.count_nil]
  omega

theorem inFlight_finished (hf : s.finished = true) : s.inFlight = [] := by
  refine List.flatMap_eq_nil_iff.mpr ?_
  intro task hm
  have hov := List.all_eq_true.mp hf task hm
  cases task with
  | returned => rfl
  | raised e => rfl
  | _ => cases hov

def Drives (handler : CardHandler) (s : TickState) (a : TickAction) : Prop :=
  ∀ id card deps, s.tasks[a.task]? = some (.running id card deps) →
    a.input.answer = .ok (handler card deps)

namespace Frontier

theorem mem_dispatched (h : Frontier b xs r s) (id : String) :
    id ∈ s.data.dispatchedCardIds ↔
      id ∈ s.inFlight ∨ id ∈ xs.map TaskBoardCardResult.cardId := by
  rw [← h.tokens.mem_iff, List.mem_append]

theorem not_recorded (h : Frontier b xs r s) {id : String} (hid : id ∈ s.inFlight) :
    id ∉ xs.map TaskBoardCardResult.cardId := by
  intro hx
  have hn := h.tokens.nodup_iff.mpr h.data.nodup
  exact (List.nodup_append.mp hn).2.2 id hid id hx rfl

theorem opened (h : Frontier b xs r s) {id : String} (hid : id ∈ s.inFlight) : b.Open id :=
  h.data.opened id ((h.mem_dispatched id).mpr (.inl hid))

theorem reads (h : Frontier b xs r s) :
    revisionFromState reprOf ⟨b.revision, .frontier⟩ s.data = .ok r := by
  unfold revisionFromState
  rw [h.data.stored]
  exact h.data.holds.normal.reads ""

theorem setTask (h : Frontier b xs r s) {n : Nat} {task task' : TickTask}
    (ht : s.tasks[n]? = some task) (hc : task'.cards = task.cards) (hf : task'.Follows b)
    (hcl : task'.closes → task.closes)
    (hp : ∀ hs : b.Settles, Playing b hs.stillOpen xs r s → task'.Plays b r) :
    Frontier b xs r (setTask s n task') := by
  have hfl := inFlight_set ht hc
  refine ⟨h.data, ?_, forall_mem_set h.tasks hf, h.made, ?_, ?_, h.logged, ?_⟩
  · rw [hfl]
    exact h.tokens
  · rw [hfl]
    rintro ⟨u, hu, hu'⟩
    refine h.closing ?_
    rcases List.mem_or_eq_of_mem_set hu with hu | rfl
    · exact ⟨u, hu, hu'⟩
    · exact ⟨task, List.mem_of_getElem? ht, hcl hu'⟩
  · rw [hfl]
    exact h.revision
  · intro hs
    have hplay := h.playing hs
    exact ⟨hplay.played, hplay.ready, hplay.runnable, forall_mem_set hplay.tasks (hp hs hplay)⟩

theorem startCard (h : Frontier b xs r s) {id : String} (hid : id ∈ s.inFlight) :
    ∃ card ∈ b.revision.graph.cards, card.id = id ∧
      startCard reprOf ⟨b.revision, .frontier⟩ s.data id =
        .ok (.running id card (dependencyResultsIn r.cardResults.get? card)) := by
  obtain ⟨plan, hplan, -⟩ := schedule_spec h.data.holds.valid
  obtain ⟨card, hc, rfl, -⟩ := h.opened hid
  have hcard := h.data.holds.findCard hc (h.not_recorded hid)
  refine ⟨card, hc, rfl, ?_⟩
  unfold TaskBoard.startCard startRevision
  simp only [h.reads, bind, Except.bind, hplan, hcard]
  rfl

section Collect

variable {x y : TaskBoardCardResult}

theorem recorded_elsewhere (hrec : Recorded reprOf r [y] next) {id : String} (hid : id ≠ y.cardId) :
    next.cardResults.get? id = r.cardResults.get? id := by
  rw [hrec.results]
  refine recordedResults_of_not_mem ?_
  intro z hz he
  cases List.mem_singleton.mp hz
  exact hid he.symm

theorem deps_kept (h : Frontier b xs r s) (hs : b.Settles) (hy : y.cardId ∈ s.inFlight)
    (hrec : Recorded reprOf r [y] next) {id : String} (hid : id ∈ s.data.dispatchedCardIds) :
    ∀ e ∈ b.revision.graph.dependsOn id, r.cardResults.get? e = next.cardResults.get? e := by
  have hplay := h.playing hs
  have hone : ∀ {j : String}, j ∈ [y.cardId] ↔ j = y.cardId := List.mem_singleton
  have hpending : ∀ j ∈ [y.cardId], (b.settling hs.stillOpen).Pending j :=
    fun j hj => hone.mp hj ▸ (pending_iff b hs.stillOpen).mpr (h.opened hy)
  refine hplay.played.taken.deps_kept hpending ?_ ?_ (hplay.ready id hid)
  · exact fun j hj => hone.mp hj ▸ h.not_recorded hy
  · exact fun j hj => recorded_elsewhere hrec fun he => hj (hone.mpr he)

theorem plays_kept (h : Frontier b xs r s) (hs : b.Settles) (hy : y.cardId ∈ s.inFlight)
    (hrec : Recorded reprOf r [y] next) {task : TickTask} (hm : task ∈ s.tasks) :
    task.Plays b next := by
  have hp := (h.playing hs).tasks task hm
  have hf := h.tasks task hm
  have hdeps : ∀ card ∈ b.revision.graph.cards, card.id ∈ s.inFlight →
      dependencyResultsIn r.cardResults.get? card =
        dependencyResultsIn next.cardResults.get? card := by
    intro card hc hid
    have hkept := h.deps_kept hs hy hrec ((h.mem_dispatched card.id).mpr (.inl hid))
    rw [Holds.dependsOn_eq hc] at hkept
    exact dependencyResultsIn_congr hkept
  cases task with
  | running id card deps =>
    have hin : card.id ∈ s.inFlight := mem_inFlight hm (by simp [TickTask.cards, hf.2])
    exact hp.trans (hdeps card hf.1 hin)
  | collecting x =>
    obtain ⟨card, hc, hx⟩ := hp
    have hin : card.id ∈ s.inFlight := mem_inFlight hm (by simp [TickTask.cards, hx.own])
    exact ⟨card, hc, (hdeps card hc hin) ▸ hx⟩
  | _ => trivial

theorem collected_next (h : Frontier b xs r s) (hy : y.cardId ∈ s.inFlight)
    (hid : x.cardId = y.cardId) (hx : cardResultFromValue reprOf x.toDict = .ok y)
    (hj : JsonStable x.toDict) (hrec : Recorded reprOf r [y] next) :
    Collected b (xs ++ [y]) next (s.data.collect x) := by
  refine ⟨?_, h.data.topology, h.data.running, h.data.nodup, h.data.opened, ?_, ?_, ?_⟩
  · refine h.data.holds.record (List.nodup_singleton _) ?_ hrec
    exact fun z hz => List.mem_singleton.mp hz ▸ h.not_recorded hy
  · intro id hd
    rw [List.map_append, List.mem_append] at hd
    rcases hd with hd | hd
    · exact h.data.recorded id hd
    · exact List.mem_singleton.mp hd ▸ (h.mem_dispatched y.cardId).mpr (.inl hy)
  · intro id
    show (Dict.get? (Dict.set _ x.cardId x.toDict) id).isSome = true ↔ _
    rw [Dict.get?_set, List.map_append, List.mem_append, ← h.data.collected id]
    by_cases he : x.cardId = id
    · simp [he, ← hid]
    · have he' : ¬ id = y.cardId := fun hc => he (hid.trans hc.symm)
      simp [he, he']
  · intro p hp
    rcases Dict.mem_set hp with rfl | hp
    · exact ⟨hj, y, List.mem_append_right _ List.mem_cons_self, hid.symm, hx⟩
    · obtain ⟨hs, z, hz, he⟩ := h.data.entries p hp
      exact ⟨hs, z, List.mem_append_left _ hz, he⟩

theorem played_next (h : Frontier b xs r s) (hs : b.Settles) {n : Nat}
    (ht : s.tasks[n]? = some (.collecting x)) (hrec : Recorded reprOf r [x.cleaned] next) :
    Played b hs.stillOpen (xs ++ [x.cleaned]) next := by
  have hplay := h.playing hs
  have hm := List.mem_of_getElem? ht
  obtain ⟨card, hc, hx⟩ := hplay.tasks _ hm
  have hin : x.cleaned.cardId ∈ s.inFlight := mem_inFlight hm List.mem_cons_self
  have hone : ∀ {z : TaskBoardCardResult}, z ∈ [x.cleaned] ↔ z = x.cleaned := List.mem_singleton
  refine hplay.played.record (List.cons_ne_nil _ []) (List.nodup_singleton _) ?_ ?_ ?_ ?_ hrec
  · exact fun z hz => hone.mp hz ▸ h.not_recorded hin
  · exact fun z hz => hone.mp hz ▸ h.opened hin
  · exact fun z hz => hone.mp hz ▸ hplay.ready _ ((h.mem_dispatched _).mpr (.inl hin))
  · intro z hz
    rw [hone.mp hz, show x.cleaned.cardId = card.id from hx.own, value_eq b hs.stillOpen hc]
    exact handlerResult_eq hx

theorem inFlight_collect {n : Nat} (ht : s.tasks[n]? = some (.collecting x)) (d : TickData)
    (new : List String) (complete : Bool) :
    ((TaskBoard.setTask { s with data := d } n (.requesting new complete)).inFlight ++
      [x.cardId]).Perm (s.inFlight ++ new) := by
  obtain ⟨l₁, l₂, hl, hset⟩ := exists_split ht
  unfold TickState.inFlight TaskBoard.setTask
  rw [hset, hl, List.perm_iff_count]
  intro j
  simp only [List.flatMap_append, List.flatMap_cons, TickTask.cards, List.count_append,
    List.count_cons, List.count_nil]
  omega

theorem applyFrontier_ok (h : Frontier b xs r s) {card : TaskBoardCard}
    (hc : card ∈ b.revision.graph.cards) {answer : HandlerReturn}
    (hx : Answers reprOf card answer x) (fresh : Fresh) :
    ∃ next, applyFrontierCardResult reprOf fresh r x = .ok next ∧
      Recorded reprOf r [x.cleaned] next := by
  have hrecable := HandledBoard.recordable hc hx
  have hok : ∀ z ∈ [x.cleaned], Recordable reprOf r.graph.ids z := by
    intro z hz
    rw [h.data.holds.ids]
    exact List.mem_singleton.mp hz ▸ hrecable
  obtain ⟨next, happly, hrec⟩ := applyCardResults_ok fresh h.data.holds.valid h.data.holds.normal
    hok (List.cons_ne_nil _ _)
  refine ⟨next, ?_, hrec⟩
  rw [← applyCardResults_reads fresh (reads_cleaned (HandledBoard.clean_id hc hx))
    hrecable.normal.reads hx.plain] at happly
  unfold applyFrontierCardResult
  rw [happly]

theorem collect (h : Frontier b xs r s) {n : Nat} (ht : s.tasks[n]? = some (.collecting x))
    (fresh : Fresh) :
    ∃ y next, Frontier b (xs ++ [y]) next
        (collectFrontier reprOf ⟨b.revision, .frontier⟩ s n fresh x) ∧
      ∀ id ∈ s.data.dispatchedCardIds,
        id ∈ (collectFrontier reprOf ⟨b.revision, .frontier⟩ s n fresh x).data.dispatchedCardIds := by
  have hm := List.mem_of_getElem? ht
  obtain ⟨card, hc, results, hx⟩ := h.tasks _ hm
  have hin : x.cleaned.cardId ∈ s.inFlight := mem_inFlight hm List.mem_cons_self
  have hne : s.inFlight ≠ [] := List.ne_nil_of_mem hin
  obtain ⟨next, happly, hrec⟩ := h.applyFrontier_ok hc hx fresh
  have hcol := h.collected_next (x := x) hin rfl (reads_cleaned (HandledBoard.clean_id hc hx))
    hx.kept hrec
  have hkept : reloadedEntries (Dict.set (s.data.collectedJson.getD []) x.cardId x.toDict) =
      some (Dict.set (s.data.collectedJson.getD []) x.cardId x.toDict) :=
    reloadedEntries_iff.mpr fun p hp => (hcol.entries p hp).1
  obtain ⟨plan, hdisp, hd, hperm⟩ := hcol.dispatch
  have heq : collectFrontier reprOf ⟨b.revision, .frontier⟩ s n fresh x =
      finishDispatch { s with data := s.data.collect x } n
        (prepareFrontierDispatch (s.data.collect x) next) := by
    unfold collectFrontier
    simp only [h.reads, happly, hkept]
    rfl
  rw [heq, hdisp]
  have hdne : (s.data.collect x).dispatchedCardIds.isEmpty = false := by
    have hmem := (h.mem_dispatched x.cleaned.cardId).mpr (.inl hin)
    have hne : s.data.dispatchedCardIds ≠ [] := List.ne_nil_of_mem hmem
    simpa [TickData.collect] using hne
  rw [hdne, Bool.false_and]
  have hmono : ∀ id ∈ s.data.dispatchedCardIds, id ∈ ((s.data.collect x).dispatching next.toDict
      plan (newCards (s.data.collect x) next)).dispatchedCardIds :=
    fun id hid => hperm.mem_iff.mpr (List.mem_append_left _ hid)
  refine ⟨x.cleaned, next, ⟨hd, ?_, ?_, ?_, ?_, ?_, ?_, ?_⟩, hmono⟩
  · refine List.Perm.trans ?_ hperm.symm
    refine List.Perm.trans ?_ (h.tokens.append_right _)
    have hflight := inFlight_collect ht ((s.data.collect x).dispatching next.toDict plan
      (newCards (s.data.collect x) next)) (newCards (s.data.collect x) next) false
    rw [List.perm_iff_count] at hflight ⊢
    intro id
    have hcount := hflight id
    have hcid : x.cleaned.cardId = x.cardId := rfl
    simp only [finishDispatch, List.count_append, List.map_append, List.map_cons, List.map_nil,
      hcid] at hcount ⊢
    omega
  · exact forall_mem_set (P := TickTask.Follows b) h.tasks trivial
  · intro z hz
    rcases List.mem_append.mp hz with hz | hz
    · exact h.made z hz
    · cases List.mem_singleton.mp hz
      exact ⟨card, hc, hx.own.symm, results, handlerResult_eq hx⟩
  · rintro ⟨u, hu, hcl⟩
    have hall : ∀ task ∈ s.tasks, ¬ task.closes := fun task htask hcl =>
      hne (h.closing ⟨task, htask, hcl⟩)
    exact absurd hcl (forall_mem_set (P := fun task => ¬ task.closes) hall (fun hf => hf) u hu)
  · rcases h.revision with hnone | ⟨-, hno⟩
    · exact .inl hnone
    · exact absurd hno hne
  · exact fun id hid => hmono id (h.logged id hid)
  · intro hs
    have hplayed := h.played_next hs ht hrec
    refine ⟨hplayed, ?_, ?_, ?_⟩
    · intro id hid
      rcases List.mem_append.mp (hperm.mem_iff.mp hid) with hid | hid
      · exact (b.settling hs.stillOpen).ready_local id _ _ (h.deps_kept hs hin hrec hid)
          ((h.playing hs).ready id hid)
      · obtain ⟨hr, -, hm⟩ := mem_newCards hcol hid
        exact ((hcol.holds.mem_runnable hm).mp hr).2
    · intro id hid
      exact hperm.mem_iff.mpr (List.mem_append.mpr (runnable_dispatched hs hcol hplayed hid))
    · refine forall_mem_set (P := TickTask.Plays b next) ?_ trivial
      exact fun task htask => h.plays_kept hs hin hrec htask

end Collect

theorem request (h : Frontier b xs r s) {n : Nat} {id : String} {rest : List String}
    {complete : Bool} (ht : s.tasks[n]? = some (.requesting (id :: rest) complete)) :
    Frontier b xs r { s with
      tasks := s.tasks.set n (.requesting rest complete) ++ [.requested id]
      log := .cardRequested id s.data :: s.log } := by
  have hm := List.mem_of_getElem? ht
  have hin : id ∈ s.inFlight := mem_inFlight hm List.mem_cons_self
  have hne : s.inFlight ≠ [] := List.ne_nil_of_mem hin
  have hopen : ∀ task ∈ s.tasks, ¬ task.closes := fun task htask hcl =>
    hne (h.closing ⟨task, htask, hcl⟩)
  refine ⟨h.data, ((inFlight_request ht).append_right _).trans h.tokens, ?_, h.made, ?_, ?_, ?_, ?_⟩
  · exact forall_mem_set_append h.tasks trivial trivial
  · rintro ⟨u, hu, hcl⟩
    refine absurd hcl (forall_mem_set_append hopen ?_ ?_ u hu)
    · have hc := hopen _ hm
      cases complete with
      | true => exact fun _ => hc trivial
      | false => exact fun hf => hf
    · exact fun hf => hf
  · rcases h.revision with hnone | ⟨-, hno⟩
    · exact .inl hnone
    · exact absurd hno hne
  · intro j hj
    rcases List.mem_cons.mp hj with rfl | hj
    · exact (h.mem_dispatched j).mpr (.inl hin)
    · exact h.logged j hj
  · intro hs
    have hplay := h.playing hs
    exact ⟨hplay.played, hplay.ready, hplay.runnable,
      forall_mem_set_append hplay.tasks trivial trivial⟩

theorem complete (h : Frontier b xs r s) {n : Nat}
    (ht : s.tasks[n]? = some (.requesting [] true)) :
    Frontier b xs r
      { data := { s.data with frontierClosed := true }
        tasks := s.tasks.set n .returned ++ [.applyingFrontier]
        log := .cardsCompleted { s.data with frontierClosed := true } :: s.log } := by
  have hno : s.inFlight = [] := h.closing ⟨_, List.mem_of_getElem? ht, trivial⟩
  have hkeep : (TaskBoard.setTask s n .returned).inFlight = s.inFlight := inFlight_set ht rfl
  have hflight : (s.tasks.set n .returned ++ [TickTask.applyingFrontier]).flatMap TickTask.cards =
      [] := by
    rw [List.flatMap_append]
    exact (congrArg (· ++ []) (hkeep.trans hno))
  have htokens := h.tokens
  rw [hno] at htokens
  have hd := h.data
  refine ⟨⟨⟨hd.holds, hd.topology, hd.running, hd.nodup, hd.opened, hd.recorded, hd.collected,
    hd.entries⟩, hd.stored, hd.expected⟩, ?_, forall_mem_set_append h.tasks trivial trivial, h.made,
    fun _ => hflight, ?_, h.logged, ?_⟩
  · show ((s.tasks.set n .returned ++ [TickTask.applyingFrontier]).flatMap TickTask.cards ++ _).Perm _
    rw [hflight]
    exact htokens
  · rcases h.revision with hnone | ⟨hr, -⟩
    · exact .inl hnone
    · exact .inr ⟨hr, hflight⟩
  · intro hs
    have hplay := h.playing hs
    exact ⟨hplay.played, hplay.ready, hplay.runnable,
      forall_mem_set_append hplay.tasks trivial trivial⟩

theorem apply (h : Frontier b xs r s) {n : Nat} (ht : s.tasks[n]? = some .applyingFrontier) :
    Frontier b xs r
        (finishApply s n (applyFrontierResults reprOf ⟨b.revision, .frontier⟩ s.data)) ∧
      (finishApply s n
        (applyFrontierResults reprOf ⟨b.revision, .frontier⟩ s.data)).data.dispatchedCardIds =
          s.data.dispatchedCardIds := by
  have hno : s.inFlight = [] := h.closing ⟨_, List.mem_of_getElem? ht, trivial⟩
  obtain ⟨plan, hplan, -⟩ := schedule_spec h.data.holds.valid
  unfold applyFrontierResults
  simp only [h.reads, bind, Except.bind, hplan]
  have hset : Frontier b xs r (TaskBoard.setTask s n .returned) :=
    h.setTask ht rfl trivial (fun hf => hf.elim) (fun _ _ => trivial)
  have hfl : (TaskBoard.setTask s n .returned).inFlight = s.inFlight := inFlight_set ht rfl
  have hd := h.data
  refine ⟨⟨⟨⟨hd.holds, hd.topology, hd.running, hd.nodup, hd.opened, hd.recorded, hd.collected,
    hd.entries⟩, hd.stored, hd.expected⟩, hset.tokens, hset.tasks, h.made, hset.closing, ?_, h.logged,
    ?_⟩, rfl⟩
  · exact .inr ⟨rfl, hfl.trans hno⟩
  · intro hs
    have hplay := hset.playing hs
    exact ⟨hplay.played, hplay.ready, hplay.runnable, hplay.tasks⟩

theorem step (h : Frontier b xs r s) (hd : Drives b.handler s a)
    (ht : (tick reprOf ⟨b.revision, .frontier⟩).step s a = some t) :
    ∃ ys next, Frontier b (xs ++ ys) next t ∧
      ∀ id ∈ s.data.dispatchedCardIds, id ∈ t.data.dispatchedCardIds := by
  obtain ⟨task, htask, ht⟩ := Option.bind_eq_some_iff.mp ht
  have hm := List.mem_of_getElem? htask
  have hf := h.tasks task hm
  have hnone : ∀ {u : TickState}, Frontier b xs r u →
      u.data.dispatchedCardIds = s.data.dispatchedCardIds →
        ∃ ys next, Frontier b (xs ++ ys) next u ∧
          ∀ id ∈ s.data.dispatchedCardIds, id ∈ u.data.dispatchedCardIds := by
    intro u hu he
    refine ⟨[], r, ?_, fun id hid => he ▸ hid⟩
    rwa [List.append_nil]
  cases task with
  | preparing => exact hf.elim
  | requesting ids complete =>
    cases ids with
    | cons id rest =>
      cases ht
      exact hnone (h.request htask) rfl
    | nil =>
      cases complete with
      | true =>
        cases ht
        exact hnone (h.complete htask) rfl
      | false =>
        cases ht
        exact hnone (h.setTask htask rfl trivial (fun hf => hf) fun _ _ => trivial) rfl
  | requested id =>
    have hid : id ∈ s.inFlight := mem_inFlight hm List.mem_cons_self
    obtain ⟨card, hc, rfl, hstart⟩ := h.startCard hid
    simp only [stepTask, hstart] at ht
    cases ht
    exact hnone (h.setTask htask rfl ⟨hc, rfl⟩ (fun hf => hf.elim) fun _ _ => rfl) rfl
  | running id card deps =>
    obtain ⟨hc, rfl⟩ := hf
    have hin : card.id ∈ s.inFlight := mem_inFlight hm List.mem_cons_self
    have hanswer := hd card.id card _ htask
    obtain ⟨x, hx⟩ := b.answers card hc ((h.opened hin).ended hc) deps
    simp only [stepTask, hanswer, hx.coerced] at ht
    cases ht
    refine hnone (h.setTask htask ?_ ⟨card, hc, deps, hx⟩ (fun hf => hf.elim) ?_) rfl
    · exact congrArg (fun i => [i]) hx.own
    · intro hs hplay
      have hdeps : deps = dependencyResultsIn r.cardResults.get? card := hplay.tasks _ hm
      exact ⟨card, hc, hdeps ▸ hx⟩
  | collecting x =>
    cases ht
    obtain ⟨y, next, hnext, hmono⟩ := h.collect htask a.input.fresh
    exact ⟨[y], next, hnext, hmono⟩
  | applyingFrontier =>
    cases ht
    exact hnone (h.apply htask).1 (h.apply htask).2
  | applying values => exact hf.elim
  | returned => cases ht
  | raised e => cases ht

theorem run {as : List TickAction} (h : Frontier b xs r s)
    (hm : (tick reprOf ⟨b.revision, .frontier⟩).Meets (Drives b.handler) s as)
    (hr : (tick reprOf ⟨b.revision, .frontier⟩).run s as = some t) :
    ∃ ys next, Frontier b (xs ++ ys) next t ∧
      ∀ id ∈ s.data.dispatchedCardIds, id ∈ t.data.dispatchedCardIds := by
  refine (tick reprOf ⟨b.revision, .frontier⟩).run_invariant_meeting
    (I := fun u => ∃ ys next, Frontier b (xs ++ ys) next u ∧
      ∀ id ∈ s.data.dispatchedCardIds, id ∈ u.data.dispatchedCardIds) ?_ ?_ hm hr
  · rintro u a v ⟨ys, next, hu, hmono⟩ hd ht
    obtain ⟨zs, last, hv, hmono'⟩ := hu.step hd ht
    refine ⟨ys ++ zs, last, ?_, fun id hid => hmono' id (hmono id hid)⟩
    rwa [← List.append_assoc]
  · refine ⟨[], r, ?_, fun _ hid => hid⟩
    rwa [List.append_nil]

theorem finished (h : Frontier b xs r s) (hf : s.finished = true) (id : String) :
    id ∈ s.data.dispatchedCardIds ↔ id ∈ xs.map TaskBoardCardResult.cardId := by
  rw [h.mem_dispatched, inFlight_finished hf]
  simp

theorem played_out (h : Frontier b xs r s) (hs : b.Settles) (hf : s.finished = true) :
    Played b hs.stillOpen xs r ∧ ∀ id ∈ r.runnable, id ∈ xs.map TaskBoardCardResult.cardId := by
  have hplay := h.playing hs
  exact ⟨hplay.played, fun id hid => (h.finished hf id).mp (hplay.runnable id hid)⟩

theorem finalized (h : Frontier b xs r s) (report : CloseReport) (fresh : Fresh) :
    finalizeTickSnapshot reprOf ⟨b.revision, .frontier⟩ s.data report fresh = .ok r := by
  unfold finalizeTickSnapshot
  rcases h.revision with hnone | ⟨hr, -⟩
  · rw [hnone, h.data.stored]
    exact h.data.holds.normal.reads ""
  · rw [hr]
    exact h.data.holds.normal.reads ""

end Frontier

theorem frontier_prepared (ht : (tick reprOf ⟨b.revision, .frontier⟩).step TickState.initial a = some t) :
    Frontier b [] b.revision t := by
  have hcol : Collected b [] b.revision frontierStart := by
    refine ⟨holds_start, rfl, rfl, List.nodup_nil, ?_, ?_, ?_, ?_⟩
    · intro id hid
      cases hid
    · intro id hid
      cases hid
    · intro id
      simp [frontierStart]
    · intro p hp
      cases hp
  obtain ⟨plan, hdisp, hd, hperm⟩ := hcol.dispatch
  have hempty : frontierStart.dispatchedCardIds = [] := rfl
  have ht := step_initial rfl ht
  rw [hdisp] at ht
  rw [hempty, List.nil_append] at hperm
  subst ht
  refine ⟨hd, ?_, ?_, ?_, ?_, .inl rfl, ?_, ?_⟩
  · simpa [TickState.inFlight, finishDispatch, setTask, TickState.initial, TickTask.cards]
      using hperm.symm
  · intro task hm
    cases List.mem_singleton.mp hm
    trivial
  · intro x hx
    cases hx
  · rintro ⟨task, hm, hcl⟩
    cases List.mem_singleton.mp hm
    cases hn : newCards frontierStart b.revision with
    | nil => simp [TickState.inFlight, finishDispatch, setTask, TickState.initial, TickTask.cards]
    | cons id new =>
      rw [hn] at hcl
      exact hcl.elim
  · intro id hid
    cases hid
  · intro hs
    refine ⟨played_start, ?_, ?_, ?_⟩
    · intro id hid
      obtain ⟨hr, -, hm⟩ := mem_newCards hcol (hperm.mem_iff.mp hid)
      exact ((hcol.holds.mem_runnable hm).mp hr).2
    · intro id hid
      refine hperm.mem_iff.mpr ?_
      rcases runnable_dispatched hs hcol played_start hid with hno | hnew
      · cases hno
      · exact hnew
    · intro task hm
      cases List.mem_singleton.mp hm
      trivial

theorem frontier_run {as : List TickAction}
    (hm : (tick reprOf ⟨b.revision, .frontier⟩).Meets (Drives b.handler) TickState.initial as)
    (hr : (tick reprOf ⟨b.revision, .frontier⟩).run TickState.initial as = some t) :
    t = TickState.initial ∨ ∃ xs r, Frontier b xs r t := by
  cases as with
  | nil => exact .inl (Option.some.inj hr).symm
  | cons a as =>
    obtain ⟨u, hu, hrun⟩ := (tick reprOf ⟨b.revision, .frontier⟩).run_cons_eq_some.mp hr
    obtain ⟨ys, next, hnext, -⟩ := (frontier_prepared hu).run (hm.2 u hu) hrun
    exact .inr ⟨_, next, hnext⟩

end FrontierRuns

end Agently.TaskBoard
