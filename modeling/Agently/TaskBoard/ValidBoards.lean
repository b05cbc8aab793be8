import Agently.TaskBoard.TaskBoardRuntime
import Agently.TaskDAG.ValidGraphs

/-! # What board validation accepts and what a revision schedules

Source: `TaskBoard/TaskBoardValidation.py`. -/

namespace Agently.TaskBoard

open Agently.Lib Agently.Utils
open Agently.TaskDAGValidation (Fault checkEach checkEach_ok duplicates_eq_nil bind_eq_ok then_eq_ok)

structure ValidRevision (r : TaskBoardRevision) : Prop where
  nonempty : r.graph.cards ≠ []
  ids : ∀ card ∈ r.graph.cards, matchesCardId card.id = true
  ids_nodup : r.graph.ids.Nodup
  known : ∀ card ∈ r.graph.cards, ∀ d ∈ card.dependsOn, d ∈ r.graph.ids
  acyclic : TopologicalSort.Acyclic r.graph.ids r.graph.dependsOn
  results : ∀ p ∈ r.cardResults, p.1 ∈ r.graph.ids ∧ p.2.cardId = p.1

variable {r : TaskBoardRevision}

theorem ValidRevision.listed (h : ValidRevision r) :
    DependencyList.References TaskBoardCard.id TaskBoardCard.dependsOn r.graph.cards :=
  ⟨h.ids_nodup, h.known⟩

variable {graph : TaskBoardGraph} {id : String}

theorem cardById_spec {card : TaskBoardCard}
    (h : graph.cardById id = some card) : card ∈ graph.cards ∧ card.id = id :=
  DependencyList.find_spec h

theorem cardById_of_mem_ids (hn : graph.ids.Nodup)
    (h : id ∈ graph.ids) : ∃ card ∈ graph.cards, card.id = id ∧ graph.cardById id = some card :=
  DependencyList.find_of_mem_ids hn h

theorem checkCardId_ok (card : TaskBoardCard) :
    checkCardId card = .ok () ↔ matchesCardId card.id = true := by
  unfold checkCardId raise
  by_cases he : card.id = ""
  · rw [if_pos he, he]
    simp [matchesCardId]
  · rw [if_neg he]
    cases matchesCardId card.id with
    | false => simp
    | true => simp

theorem checkDuplicates_ok (ids : List String) : checkDuplicates ids = .ok () ↔ ids.Nodup := by
  unfold checkDuplicates raise
  have h := duplicates_eq_nil [] ids
  by_cases hd : TaskDAGValidation.duplicates [] ids = []
  · rw [if_pos hd]
    simpa using (h.mp hd).1
  · rw [if_neg hd]
    have hn : ¬ ids.Nodup := fun hn => hd (h.mpr ⟨hn, by simp⟩)
    simp [hn]

theorem checkDependency_ok (ids : List String) (card : TaskBoardCard) (d : String) :
    checkDependency ids card d = .ok () ↔ d ∈ ids := by
  unfold checkDependency raise
  by_cases hd : d ∈ ids
  · simp [hd]
  · simp [hd]

theorem checkResult_ok (ids : List String) (p : String × TaskBoardCardResult) :
    checkResult ids p = .ok () ↔ p.1 ∈ ids ∧ p.2.cardId = p.1 := by
  unfold checkResult raise
  by_cases hi : p.1 ∈ ids
  · by_cases hc : p.2.cardId = p.1
    · simp [hi, hc]
    · simp [hi, hc]
  · simp [hi]

theorem checkOrder_ok (hne : graph.cards ≠ [])
    (h : DependencyList.References TaskBoardCard.id TaskBoardCard.dependsOn graph.cards) :
    checkOrder graph = .ok () ↔ TopologicalSort.Acyclic graph.ids graph.dependsOn := by
  have hl : graph.sorted.ordered.length = graph.cards.length ↔
      TopologicalSort.Acyclic graph.ids graph.dependsOn := DependencyList.sorted_length_iff h
  unfold checkOrder raise
  constructor
  · intro hok
    by_cases hr : graph.roots = []
    · rw [if_pos hr] at hok
      cases hok
    · rw [if_neg hr] at hok
      by_cases hlen : graph.sorted.ordered.length = graph.cards.length
      · exact hl.mp hlen
      · rw [if_pos hlen] at hok
        cases hok
  · intro ha
    have hr : graph.roots ≠ [] := DependencyList.roots_ne_nil h hne ha
    rw [if_neg hr, if_neg (by simpa using hl.mpr ha)]

theorem validate_iff (r : TaskBoardRevision) :
    validateTaskBoardRevision r = .ok () ↔ ValidRevision r := by
  unfold validateTaskBoardRevision
  by_cases hne : r.graph.cards = []
  · simp only [hne, if_true]
    constructor
    · intro h
      obtain ⟨hraise, -⟩ := then_eq_ok.mp h
      cases hraise
    · intro h
      exact absurd hne h.nonempty
  · simp only [hne, if_false, pure_bind]
    rw [then_eq_ok, then_eq_ok, then_eq_ok, then_eq_ok, checkEach_ok, checkDuplicates_ok, checkEach_ok,
      checkEach_ok]
    simp only [checkCardId_ok, checkEach_ok, checkDependency_ok, checkResult_ok]
    constructor
    · rintro ⟨hids, hn, hk, ho, hr⟩
      exact ⟨hne, hids, hn, hk, (checkOrder_ok hne ⟨hn, hk⟩).mp ho, hr⟩
    · intro h
      exact ⟨h.ids, h.ids_nodup, h.known, (checkOrder_ok hne h.listed).mpr h.acyclic, h.results⟩

def TaskBoardRevision.ready (r : TaskBoardRevision) (card : TaskBoardCard) : Bool :=
  card.dependsOn.all r.satisfied

def TaskBoardRevision.runnable (r : TaskBoardRevision) : List String :=
  (r.openCards.filter r.ready).map TaskBoardCard.id

theorem schedule_spec (h : ValidRevision r) :
    ∃ plan, scheduleTaskBoardRevision r = .ok plan ∧ plan.runnableCardIds = r.runnable := by
  unfold scheduleTaskBoardRevision
  rw [(validate_iff r).mpr h]
  exact ⟨_, rfl, rfl⟩

theorem schedule_valid {plan : TaskBoardSchedulePlan} (h : scheduleTaskBoardRevision r = .ok plan) :
    ValidRevision r ∧ plan.runnableCardIds = r.runnable := by
  obtain ⟨hv, hp⟩ := then_eq_ok.mp h
  cases hp
  exact ⟨(validate_iff r).mp hv, rfl⟩

theorem mem_openCards (h : ValidRevision r) {card : TaskBoardCard} :
    card ∈ r.openCards ↔ card ∈ r.graph.cards ∧ r.ended card = false := by
  have hp : r.graph.sorted.ordered.Perm r.graph.ids := DependencyList.sorted_perm h.listed h.acyclic
  unfold TaskBoardRevision.openCards
  rw [List.mem_filter, List.mem_filterMap]
  constructor
  · rintro ⟨⟨id, -, hf⟩, he⟩
    exact ⟨(DependencyList.find_spec hf).1, by simpa using he⟩
  · rintro ⟨hm, he⟩
    refine ⟨⟨card.id, hp.mem_iff.mpr (List.mem_map_of_mem hm), ?_⟩, by simpa using he⟩
    exact DependencyList.find_of_mem h.ids_nodup hm

theorem mem_runnable (h : ValidRevision r) :
    id ∈ r.runnable ↔ ∃ card ∈ r.graph.cards, card.id = id ∧ r.ended card = false ∧
      ∀ d ∈ card.dependsOn, r.satisfied d = true := by
  unfold TaskBoardRevision.runnable
  rw [List.mem_map]
  constructor
  · rintro ⟨card, hm, rfl⟩
    obtain ⟨ho, hr⟩ := List.mem_filter.mp hm
    obtain ⟨hc, he⟩ := (mem_openCards h).mp ho
    exact ⟨card, hc, rfl, he, List.all_eq_true.mp hr⟩
  · rintro ⟨card, hc, rfl, he, hr⟩
    exact ⟨card, List.mem_filter.mpr ⟨(mem_openCards h).mpr ⟨hc, he⟩, List.all_eq_true.mpr hr⟩, rfl⟩

theorem runnable_subset (h : ValidRevision r) (hid : id ∈ r.runnable) : id ∈ r.graph.ids := by
  obtain ⟨card, hc, rfl, -⟩ := (mem_runnable h).mp hid
  exact List.mem_map_of_mem hc

theorem runnable_nodup (h : ValidRevision r) : r.runnable.Nodup := by
  have hp : r.graph.sorted.ordered.Perm r.graph.ids := DependencyList.sorted_perm h.listed h.acyclic
  have hn : r.graph.sorted.ordered.Nodup := hp.nodup_iff.mpr h.ids_nodup
  have hids : (r.graph.sorted.ordered.filterMap r.graph.cardById).map TaskBoardCard.id =
      r.graph.sorted.ordered := by
    rw [List.map_filterMap]
    have hall : ∀ id ∈ r.graph.sorted.ordered,
        (r.graph.cardById id).map TaskBoardCard.id = some id := by
      intro id hid
      obtain ⟨card, -, rfl, hf⟩ := cardById_of_mem_ids h.ids_nodup (hp.mem_iff.mp hid)
      rw [hf]
      rfl
    rw [List.filterMap_congr hall]
    exact List.filterMap_some
  unfold TaskBoardRevision.runnable TaskBoardRevision.openCards
  refine List.Nodup.sublist ?_ (hids ▸ hn)
  exact (List.filter_sublist.trans List.filter_sublist).map _

end Agently.TaskBoard
