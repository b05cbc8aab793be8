import Agently.Lib.Settling
import Agently.TaskBoard.RecordedResults

/-! # Boards whose cards are handled

Source: `TaskBoard/TaskBoardRuntime.py`. What a board comes to when its handlers answer from the
card and the results of its dependencies: which cards have been recorded so far, and with which
results, in whatever order. -/

namespace Agently.TaskBoard

open Agently.Lib Agently.Utils
open Agently.TaskDAGValidation (Fault strip isSpace_of_alphanum)

/-- `answer` makes the result `x` of the card itself: nothing is proposed, and JSON keeps it. -/
structure Answers (reprOf : Value → String) (card : TaskBoardCard) (answer : HandlerReturn)
    (x : TaskBoardCardResult) : Prop where
  coerced : coerceCardResult reprOf card.id answer = .ok x
  own : x.cardId = card.id
  plain : x.patchProposal = none
  kept : JsonStable x.toDict

abbrev CardHandler := TaskBoardCard → Dict String TaskBoardCardResult → HandlerReturn

structure HandledBoard (reprOf : Value → String) where
  revision : TaskBoardRevision
  handler : CardHandler
  valid : ValidRevision revision
  normal : revision.Normal reprOf
  answers : ∀ card ∈ revision.graph.cards, revision.ended card = false → ∀ results,
    ∃ x, Answers reprOf card (handler card results) x

def HandledBoard.Ends {reprOf : Value → String} (b : HandledBoard reprOf) : Prop :=
  ∀ card ∈ b.revision.graph.cards, ∀ results x,
    Answers reprOf card (b.handler card results) x → x.status ∈ terminalCardStatuses

def settledStatuses : List String :=
  ["completed", "failed", "error", "blocked", "skipped", "setback"]

def statusIn (d : Dict String TaskBoardCardResult) (card : TaskBoardCard) : String :=
  lower (strip (((d.get? card.id).map TaskBoardCardResult.status).getD card.status))

def TaskBoardRevision.StillOpen (r : TaskBoardRevision) : Prop :=
  ∀ card ∈ r.graph.cards, r.ended card = false → statusIn r.cardResults card ∉ settledStatuses

theorem clean_of_cardId {id : String} (h : matchesCardId id = true) : Clean id := by
  obtain ⟨hne, hall⟩ := (Bool.and_eq_true _ _).mp h
  refine clean_of_plain ?_ ?_
  · rintro rfl
    simp at hne
  · intro c hc
    have hi := List.all_eq_true.mp hall c hc
    unfold isIdChar at hi
    simp only [Bool.or_eq_true, beq_iff_eq] at hi
    rcases hi with ((hi | rfl) | rfl) | rfl
    · exact isSpace_of_alphanum hi
    all_goals decide

theorem clean_of_terminal {s : String} (h : s ∈ terminalCardStatuses) : Clean s := by
  unfold terminalCardStatuses at h
  simp only [List.mem_cons, List.not_mem_nil, or_false] at h
  rcases h with rfl | rfl | rfl | rfl <;> exact ⟨by decide, by decide⟩

section Handling

variable {reprOf : Value → String}

/-- The result a card ends up with: `from_value` of what its handler answered. -/
def handlerResult (reprOf : Value → String) (handler : CardHandler) (card : TaskBoardCard)
    (results : Dict String TaskBoardCardResult) : Option TaskBoardCardResult :=
  match coerceCardResult reprOf card.id (handler card results) with
  | .ok x => some x.cleaned
  | .error _ => none

variable {card : TaskBoardCard}

theorem handlerResult_eq {handler : CardHandler}
    {results : Dict String TaskBoardCardResult} {x : TaskBoardCardResult}
    (h : Answers reprOf card (handler card results) x) :
    handlerResult reprOf handler card results = some x.cleaned := by
  unfold handlerResult
  rw [h.coerced]

namespace HandledBoard

variable (b : HandledBoard reprOf)

abbrev result (card : TaskBoardCard) (results : Dict String TaskBoardCardResult) :
    Option TaskBoardCardResult :=
  handlerResult reprOf b.handler card results

def Open (id : String) : Prop :=
  ∃ card ∈ b.revision.graph.cards, card.id = id ∧ b.revision.ended card = false

variable {b}

theorem Open.known {id : String} (h : b.Open id) : id ∈ b.revision.graph.ids := by
  obtain ⟨card, hc, rfl, -⟩ := h
  exact List.mem_map_of_mem hc

variable {card : TaskBoardCard}

theorem card_eq {card' : TaskBoardCard} (hc : card ∈ b.revision.graph.cards)
    (hc' : card' ∈ b.revision.graph.cards) (h : card.id = card'.id) : card = card' :=
  List.inj_on_of_nodup_map b.valid.ids_nodup hc hc' h

theorem Open.ended (hc : card ∈ b.revision.graph.cards)
    (h : b.Open card.id) : b.revision.ended card = false := by
  obtain ⟨card', hc', he, hend⟩ := h
  exact card_eq hc' hc he ▸ hend

theorem clean_id (hc : card ∈ b.revision.graph.cards)
    {answer : HandlerReturn} {x : TaskBoardCardResult} (h : Answers reprOf card answer x) :
    Clean x.cardId :=
  h.own ▸ clean_of_cardId (b.valid.ids card hc)

theorem recordable (hc : card ∈ b.revision.graph.cards)
    {answer : HandlerReturn} {x : TaskBoardCardResult} (h : Answers reprOf card answer x) :
    Recordable reprOf b.revision.graph.ids x.cleaned where
  normal := cleaned_normal (clean_id hc h) h.kept
  known := by
    rw [show x.cleaned.cardId = card.id from h.own]
    exact List.mem_map_of_mem hc
  plain := h.plain

theorem result_some (hc : card ∈ b.revision.graph.cards)
    (ho : b.revision.ended card = false) (results : Dict String TaskBoardCardResult) :
    ∃ y, b.result card results = some y ∧ Recordable reprOf b.revision.graph.ids y ∧
      y.cardId = card.id := by
  obtain ⟨x, hx⟩ := b.answers card hc ho results
  exact ⟨x.cleaned, handlerResult_eq hx, recordable hc hx, hx.own⟩

theorem Ends.result (he : b.Ends) (hc : card ∈ b.revision.graph.cards)
    (ho : b.revision.ended card = false) {results : Dict String TaskBoardCardResult}
    {y : TaskBoardCardResult} (hy : b.result card results = some y) :
    y.status ∈ terminalCardStatuses := by
  obtain ⟨x, hx⟩ := b.answers card hc ho results
  have hs := he card hc results x hx
  obtain ⟨hstrip, hne⟩ := clean_of_terminal hs
  have hclean : x.cleaned.status = x.status := by
    show (if strip x.status = "" then "completed" else strip x.status) = x.status
    rw [hstrip, if_neg hne]
  have hyx : x.cleaned = y := Option.some.inj ((handlerResult_eq hx).symm.trans hy)
  rw [← hyx, hclean]
  exact hs

end HandledBoard

def satisfiedIn (r : TaskBoardRevision) (m : String → Option TaskBoardCardResult) (d : String) :
    Bool :=
  (r.graph.cardById d).any fun card => taskBoardDependencySatisfied card (m d)

def dependencyResultsIn (m : String → Option TaskBoardCardResult) (card : TaskBoardCard) :
    Dict String TaskBoardCardResult :=
  card.dependsOn.filterMap fun d => (m d).map fun r => (d, r)

theorem dependencyResultsIn_congr {m m' : String → Option TaskBoardCardResult}
    (h : ∀ d ∈ card.dependsOn, m d = m' d) :
    dependencyResultsIn m card = dependencyResultsIn m' card := by
  unfold dependencyResultsIn
  refine List.filterMap_congr ?_
  intro d hd
  rw [h d hd]

variable {d : Dict String TaskBoardCardResult}

theorem satisfied_settled (h : taskBoardDependencySatisfied card (d.get? card.id) = true) :
    statusIn d card ∈ settledStatuses := by
  unfold statusIn settledStatuses
  cases hr : d.get? card.id with
  | none =>
    rw [hr] at h
    simp only [taskBoardDependencySatisfied, Bool.and_eq_true, decide_eq_true_eq] at h
    simp [h.1]
  | some x =>
    rw [hr] at h
    simp only [taskBoardDependencySatisfied, satisfyingDegradedStatuses, Bool.or_eq_true,
      Bool.and_eq_true, decide_eq_true_eq, List.mem_cons, List.not_mem_nil, or_false] at h
    rcases h with h | ⟨h | h | h | h, -⟩ <;> simp [h]

def ReadyIn (r : TaskBoardRevision) (m : String → Option TaskBoardCardResult) (id : String) : Prop :=
  ∀ d ∈ r.graph.dependsOn id, satisfiedIn r m d = true

variable (b : HandledBoard reprOf)

/-- The cards of an open board, as nodes that take the results of their handlers. -/
def HandledBoard.settling (ho : b.revision.StillOpen) : Settling String TaskBoardCardResult where
  nodes := b.revision.graph.ids
  deps := b.revision.graph.dependsOn
  start := b.revision.cardResults.get?
  fixed i := ∃ card ∈ b.revision.graph.cards, card.id = i ∧ b.revision.ended card = true
  ready m i := ReadyIn b.revision m i
  value m i := (b.revision.graph.cardById i).bind fun card => b.result card (dependencyResultsIn m card)
  known := fun _ hi => b.valid.listed.dependsOn hi
  acyclic := b.valid.acyclic
  ready_local := by
    intro i m m' hm hr d hd
    have hs := hr d hd
    unfold satisfiedIn at hs ⊢
    rwa [← hm d hd]
  value_local := by
    intro i m m' hm
    cases hc : b.revision.graph.cardById i with
    | none => rfl
    | some card =>
      have hdeps : b.revision.graph.dependsOn i = card.dependsOn := by
        unfold TaskBoardGraph.dependsOn
        rw [hc]
        rfl
      rw [hdeps] at hm
      show b.result card _ = b.result card _
      rw [dependencyResultsIn_congr hm]
  waits := by
    intro i m hr d hd hm
    have hs := hr d hd
    unfold satisfiedIn at hs
    cases hc : b.revision.graph.cardById d with
    | none => simp [hc] at hs
    | some card =>
      obtain ⟨hmem, hid⟩ := cardById_spec hc
      subst hid
      refine ⟨card, hmem, rfl, ?_⟩
      by_contra hne
      refine ho card hmem (by simpa using hne) ?_
      rw [hc, hm] at hs
      exact satisfied_settled hs

theorem derive_derive {cards cards' : List TaskBoardCard} {d' : Dict String TaskBoardCardResult}
    (hkeep : ∀ card ∈ cards, statusIn d card ∈ settledStatuses → ∃ card' ∈ cards',
      taskBoardCardRequired card' = taskBoardCardRequired card ∧ statusIn d' card' = statusIn d card)
    (hopen : ∃ card ∈ cards, statusIn d card ∉ settledStatuses) (s : String) :
    deriveBoardStatus cards' d' (deriveBoardStatus cards d s) = deriveBoardStatus cards' d' s := by
  have hreq : ∀ words : List String, words ⊆ settledStatuses →
      (cards.filter taskBoardCardRequired).any (fun c => decide (statusIn d c ∈ words)) = true →
      (cards'.filter taskBoardCardRequired).any (fun c => decide (statusIn d' c ∈ words)) = true := by
    intro words hw h
    obtain ⟨card, hm, hs⟩ := List.any_eq_true.mp h
    obtain ⟨hc, hr⟩ := List.mem_filter.mp hm
    have hs := of_decide_eq_true hs
    obtain ⟨card', hc', hr', hs'⟩ := hkeep card hc (hw hs)
    refine List.any_eq_true.mpr ⟨card', List.mem_filter.mpr ⟨hc', hr'.trans hr⟩, ?_⟩
    exact decide_eq_true (hs'.symm ▸ hs)
  have hset : cards.any (fun c => decide (statusIn d c = "setback")) = true →
      cards'.any (fun c => decide (statusIn d' c = "setback")) = true := by
    intro h
    obtain ⟨card, hc, hs⟩ := List.any_eq_true.mp h
    have hs := of_decide_eq_true hs
    obtain ⟨card', hc', -, hs'⟩ := hkeep card hc (by simp [hs, settledStatuses])
    exact List.any_eq_true.mpr ⟨card', hc', decide_eq_true (hs'.trans hs)⟩
  have hall : cards.all (fun c => decide (statusIn d c ∈ terminalCardStatuses)) = false := by
    obtain ⟨card, hc, hs⟩ := hopen
    rw [List.all_eq_false]
    refine ⟨card, hc, ?_⟩
    intro h
    have hsub : terminalCardStatuses ⊆ settledStatuses := by decide
    exact hs (hsub (of_decide_eq_true h))
  have hf := hreq ["failed", "error"] (by decide)
  have hb := hreq ["blocked"] (by decide)
  simp only [List.mem_singleton] at hb
  have hder : ∀ (cs : List TaskBoardCard) (e : Dict String TaskBoardCardResult) (t : String),
      deriveBoardStatus cs e t =
        if (cs.filter taskBoardCardRequired).any (fun c => decide (statusIn e c ∈ ["failed", "error"]))
        then "failed"
        else if cs.any (fun c => decide (statusIn e c = "setback")) then "running"
        else if (cs.filter taskBoardCardRequired).any (fun c => decide (statusIn e c = "blocked"))
        then "blocked"
        else if cs.all (fun c => decide (statusIn e c ∈ terminalCardStatuses)) &&
          (cs.filter taskBoardCardRequired).all (fun c => decide (statusIn e c = "completed"))
        then "completed"
        else t := fun _ _ _ => rfl
  rw [hder cards' d' (deriveBoardStatus cards d s), hder cards' d' s]
  split
  next => rfl
  next hnf =>
    split
    next => rfl
    next hns =>
      split
      next => rfl
      next hnb =>
        split
        next => rfl
        next =>
          rw [hder cards d s, if_neg (fun h => hnf (hf h)), if_neg (fun h => hns (hset h)),
            if_neg (fun h => hnb (hb h)), hall, Bool.false_and]
          rfl

theorem derive_congr {cards : List TaskBoardCard} {d' : Dict String TaskBoardCardResult}
    (h : ∀ id, d.get? id = d'.get? id) (s : String) :
    deriveBoardStatus cards d s = deriveBoardStatus cards d' s := by
  unfold deriveBoardStatus
  simp only [h]

theorem pending_iff (ho : b.revision.StillOpen) {id : String} :
    (b.settling ho).Pending id ↔ b.Open id := by
  constructor
  · rintro ⟨hid, hfix⟩
    obtain ⟨card, hc, rfl⟩ := List.mem_map.mp hid
    refine ⟨card, hc, rfl, ?_⟩
    by_contra hne
    exact hfix ⟨card, hc, rfl, by simpa using hne⟩
  · intro h
    refine ⟨h.known, ?_⟩
    rintro ⟨card, hc, rfl, he⟩
    rw [h.ended hc] at he
    cases he

theorem value_eq (ho : b.revision.StillOpen) {m : String → Option TaskBoardCardResult}
    (hc : card ∈ b.revision.graph.cards) :
    (b.settling ho).value m card.id = b.result card (dependencyResultsIn m card) := by
  have hfind : b.revision.graph.cardById card.id = some card :=
    DependencyList.find_of_mem b.valid.ids_nodup hc
  show (b.revision.graph.cardById card.id).bind _ = _
  rw [hfind]
  rfl

variable {b} {ho : b.revision.StillOpen} {xs ys : List TaskBoardCardResult}
  {r next : TaskBoardRevision}

/-- `r` is the board with `xs` recorded, one result a card. -/
structure Holds (b : HandledBoard reprOf) (xs : List TaskBoardCardResult) (r : TaskBoardRevision) :
    Prop where
  cards : r.graph.cards = b.revision.graph.cards.map (recordedCard xs)
  results : r.cardResults = recordedResults xs b.revision.cardResults
  valid : ValidRevision r
  normal : r.Normal reprOf
  nodup : (xs.map TaskBoardCardResult.cardId).Nodup

theorem holds_start : Holds b [] b.revision where
  cards := (List.map_id _).symm
  results := rfl
  valid := b.valid
  normal := b.normal
  nodup := List.nodup_nil

namespace Holds

theorem get?_mem (h : Holds b xs r) {x : TaskBoardCardResult} (hx : x ∈ xs) :
    r.cardResults.get? x.cardId = some x := by
  rw [h.results]
  exact recordedResults_of_mem h.nodup hx

theorem get?_not_mem (h : Holds b xs r) {id : String}
    (hid : id ∉ xs.map TaskBoardCardResult.cardId) :
    r.cardResults.get? id = b.revision.cardResults.get? id := by
  rw [h.results]
  exact recordedResults_of_not_mem fun x hx he => hid (he ▸ List.mem_map_of_mem hx)

theorem cardById (h : Holds b xs r) (id : String) :
    r.graph.cardById id = (b.revision.graph.cardById id).map (recordedCard xs) := by
  rw [← cardById_map (recordedCard_id xs)]
  unfold TaskBoardGraph.cardById
  rw [h.cards]

theorem ids (h : Holds b xs r) : r.graph.ids = b.revision.graph.ids := by
  unfold TaskBoardGraph.ids
  rw [h.cards, List.map_map]
  exact List.map_congr_left fun c _ => recordedCard_id xs c

variable {card : TaskBoardCard}

theorem recorded_not_mem
    (hc : card.id ∉ xs.map TaskBoardCardResult.cardId) : recordedCard xs card = card :=
  recordedCard_of_not_mem xs card fun _ hx he => hc (he ▸ List.mem_map_of_mem hx)

theorem findCard (h : Holds b xs r) (hc : card ∈ b.revision.graph.cards)
    (hx : card.id ∉ xs.map TaskBoardCardResult.cardId) : r.graph.cardById card.id = some card := by
  have hfind : b.revision.graph.cardById card.id = some card :=
    DependencyList.find_of_mem b.valid.ids_nodup hc
  rw [h.cardById, hfind, Option.map_some, recorded_not_mem hx]

theorem satisfied (h : Holds b xs r) (d : String) :
    r.satisfied d = satisfiedIn b.revision r.cardResults.get? d := by
  unfold TaskBoardRevision.satisfied satisfiedIn
  rw [h.cardById]
  cases hc : b.revision.graph.cardById d with
  | none => rfl
  | some card =>
    obtain ⟨-, hid⟩ := cardById_spec hc
    subst hid
    show taskBoardDependencySatisfied (recordedCard xs card) _ = taskBoardDependencySatisfied card _
    by_cases hm : card.id ∈ xs.map TaskBoardCardResult.cardId
    · obtain ⟨x, hx, he⟩ := List.mem_map.mp hm
      rw [← he, h.get?_mem hx]
      unfold taskBoardDependencySatisfied
      rw [recordedCard_required]
    · rw [recorded_not_mem hm]

theorem ended_not_mem (h : Holds b xs r)
    (hm : card.id ∉ xs.map TaskBoardCardResult.cardId) : r.ended card = b.revision.ended card := by
  unfold TaskBoardRevision.ended
  rw [h.get?_not_mem hm]

theorem dependsOn_eq (hc : card ∈ b.revision.graph.cards) :
    b.revision.graph.dependsOn card.id = card.dependsOn :=
  DependencyList.dependsOn_of_mem b.valid.ids_nodup hc

theorem mem_runnable (h : Holds b xs r) {id : String}
    (hm : id ∉ xs.map TaskBoardCardResult.cardId) :
    id ∈ r.runnable ↔ b.Open id ∧ ReadyIn b.revision r.cardResults.get? id := by
  rw [TaskBoard.mem_runnable h.valid, h.cards]
  constructor
  · rintro ⟨card', hc', rfl, he, hd⟩
    obtain ⟨card, hc, rfl⟩ := List.mem_map.mp hc'
    rw [recordedCard_id] at hm
    rw [recorded_not_mem hm] at he hd ⊢
    rw [h.ended_not_mem hm] at he
    refine ⟨⟨card, hc, rfl, he⟩, ?_⟩
    intro d hdm
    rw [← h.satisfied]
    exact hd d (dependsOn_eq hc ▸ hdm)
  · rintro ⟨⟨card, hc, rfl, he⟩, hready⟩
    refine ⟨card, ?_, rfl, (h.ended_not_mem hm).trans he, ?_⟩
    · exact List.mem_map.mpr ⟨card, hc, recorded_not_mem hm⟩
    · intro d hd
      rw [h.satisfied]
      exact hready d (dependsOn_eq hc ▸ hd)

theorem record (h : Holds b xs r) (hn : (ys.map TaskBoardCardResult.cardId).Nodup)
    (hfresh : ∀ y ∈ ys, y.cardId ∉ xs.map TaskBoardCardResult.cardId)
    (hrec : Recorded reprOf r ys next) : Holds b (xs ++ ys) next := by
  refine ⟨?_, ?_, hrec.valid, hrec.normal, ?_⟩
  · rw [hrec.cards, h.cards, List.map_map]
    refine List.map_congr_left ?_
    intro card _
    unfold recordedCard
    rw [List.foldl_append]
    rfl
  · rw [hrec.results, h.results]
    unfold recordedResults
    rw [List.foldl_append]
  · rw [List.map_append, List.nodup_append]
    refine ⟨h.nodup, hn, ?_⟩
    intro id hid id' hid' he
    obtain ⟨y, hy, rfl⟩ := List.mem_map.mp hid'
    exact hfresh y hy (he ▸ hid)

end Holds

/-- `r` holds the results its handler makes of the cards and their dependencies. -/
structure Played (b : HandledBoard reprOf) (ho : b.revision.StillOpen)
    (xs : List TaskBoardCardResult) (r : TaskBoardRevision) : Prop extends Holds b xs r where
  status : r.status = if xs = [] then b.revision.status
    else deriveBoardStatus r.graph.cards r.cardResults b.revision.status
  taken : (b.settling ho).Taken r.cardResults.get? (xs.map TaskBoardCardResult.cardId)

theorem played_start : Played b ho [] b.revision :=
  ⟨holds_start, rfl, Settling.taken_start⟩

namespace Played

variable {x : TaskBoardCardResult}

theorem made (h : Played b ho xs r) (hx : x ∈ xs) :
    ∃ card ∈ b.revision.graph.cards, card.id = x.cardId ∧ b.revision.ended card = false ∧
      b.result card (dependencyResultsIn r.cardResults.get? card) = some x := by
  have hm := List.mem_map_of_mem (f := TaskBoardCardResult.cardId) hx
  obtain ⟨card, hc, hid, hend⟩ := (pending_iff b ho).mp (h.taken.pending x.cardId hm)
  have hv := h.taken.values x.cardId hm
  rw [h.get?_mem hx, ← hid, value_eq b ho hc] at hv
  exact ⟨card, hc, hid, hend, hv.symm⟩

theorem open_status (h : Holds b xs r) (ho : b.revision.StillOpen) {card : TaskBoardCard}
    (hc : card ∈ r.graph.cards) (hopen : b.Open card.id)
    (hm : card.id ∉ xs.map TaskBoardCardResult.cardId) :
    statusIn r.cardResults card ∉ settledStatuses := by
  rw [h.cards] at hc
  obtain ⟨c, hcm, rfl⟩ := List.mem_map.mp hc
  rw [recordedCard_id] at hopen hm
  rw [Holds.recorded_not_mem hm]
  have hs : statusIn r.cardResults c = statusIn b.revision.cardResults c := by
    unfold statusIn
    rw [h.get?_not_mem hm]
  rw [hs]
  exact ho c hcm (hopen.ended hcm)

theorem record (h : Played b ho xs r) (hne : ys ≠ [])
    (hn : (ys.map TaskBoardCardResult.cardId).Nodup)
    (hfresh : ∀ y ∈ ys, y.cardId ∉ xs.map TaskBoardCardResult.cardId)
    (hopen : ∀ y ∈ ys, b.Open y.cardId)
    (hready : ∀ y ∈ ys, ReadyIn b.revision r.cardResults.get? y.cardId)
    (hv : ∀ y ∈ ys, (b.settling ho).value r.cardResults.get? y.cardId = some y)
    (hrec : Recorded reprOf r ys next) : Played b ho (xs ++ ys) next := by
  have hget : ∀ id ∉ ys.map TaskBoardCardResult.cardId,
      next.cardResults.get? id = r.cardResults.get? id := by
    intro id hid
    rw [hrec.results]
    exact recordedResults_of_not_mem fun y hy he => hid (he ▸ List.mem_map_of_mem hy)
  refine ⟨h.toHolds.record hn hfresh hrec, ?_, ?_⟩
  · have hs0 : b.revision.status ≠ "" := ((normal_iff b.revision).mp b.normal).1.status
    have happ : xs ++ ys ≠ [] := by simp [hne]
    have hs1 : r.status ≠ "" := ((normal_iff r).mp h.normal).1.status
    rw [if_neg happ, hrec.status, (textOr_iff hs1).mpr (derive_ne hs1)]
    have hst := h.status
    by_cases hx : xs = []
    · rw [if_pos hx] at hst
      rw [hst]
    · rw [if_neg hx] at hst
      rw [hst]
      refine derive_derive ?_ ?_ _
      · intro card hc hs
        have hm : card.id ∉ ys.map TaskBoardCardResult.cardId := by
          intro hm
          obtain ⟨y, hy, he⟩ := List.mem_map.mp hm
          exact open_status h.toHolds ho hc (he ▸ hopen y hy) (he ▸ hfresh y hy) hs
        refine ⟨recordedCard ys card, ?_, recordedCard_required ys card, ?_⟩
        · rw [hrec.cards]
          exact List.mem_map_of_mem hc
        · rw [Holds.recorded_not_mem hm]
          unfold statusIn
          rw [hget card.id hm]
      · obtain ⟨y, hy⟩ := List.exists_mem_of_ne_nil ys hne
        have hknown : y.cardId ∈ r.graph.ids := h.ids ▸ (hopen y hy).known
        obtain ⟨card, hc, hid⟩ := List.mem_map.mp hknown
        exact ⟨card, hc, open_status h.toHolds ho hc (hid ▸ hopen y hy) (hid ▸ hfresh y hy)⟩
  · rw [List.map_append]
    refine h.taken.take ?_ ?_ hget ?_ ?_
    · intro j hj
      obtain ⟨y, hy, rfl⟩ := List.mem_map.mp hj
      exact (pending_iff b ho).mpr (hopen y hy)
    · intro j hj
      obtain ⟨y, hy, rfl⟩ := List.mem_map.mp hj
      exact hfresh y hy
    · intro j hj
      obtain ⟨y, hy, rfl⟩ := List.mem_map.mp hj
      exact hready y hy
    · intro j hj
      obtain ⟨y, hy, rfl⟩ := List.mem_map.mp hj
      rw [hv y hy, hrec.results]
      exact recordedResults_of_mem hn hy

theorem taken_of_ended (h : Played b ho xs r)
    (hend : ∀ id ∈ r.runnable, id ∈ xs.map TaskBoardCardResult.cardId) :
    ∀ i, (b.settling ho).Pending i → (b.settling ho).ready r.cardResults.get? i →
      i ∈ xs.map TaskBoardCardResult.cardId := by
  intro i hp hr
  by_contra hm
  exact hm (hend i ((h.mem_runnable hm).mpr ⟨(pending_iff b ho).mp hp, hr⟩))

theorem recordedCard_status_mem {card : TaskBoardCard}
    (hn : (xs.map TaskBoardCardResult.cardId).Nodup) (hx : x ∈ xs)
    (he : x.cardId = card.id) : recordedCard xs card = card.withStatus x.status := by
  obtain ⟨l₁, l₂, rfl⟩ := List.append_of_mem hx
  rw [List.map_append, List.map_cons, List.nodup_append, List.nodup_cons] at hn
  obtain ⟨-, ⟨h₂, -⟩, h₁⟩ := hn
  have h₁' : card.id ∉ l₁.map TaskBoardCardResult.cardId :=
    fun hm => h₁ _ hm x.cardId List.mem_cons_self he.symm
  have hl : recordedCard (l₁ ++ x :: l₂) card =
      recordedCard l₂ ((recordedCard l₁ card).withStatus x.status) := by
    unfold recordedCard
    rw [List.foldl_append, List.foldl_cons]
    have hid := recordedCard_id l₁ card
    unfold recordedCard at hid
    rw [if_pos (hid.trans he.symm)]
  rw [hl, Holds.recorded_not_mem h₁']
  refine Holds.recorded_not_mem ?_
  show card.id ∉ _
  exact he ▸ h₂

theorem agree {r' : TaskBoardRevision} (h : Played b ho xs r)
    (hend : ∀ id ∈ r.runnable, id ∈ xs.map TaskBoardCardResult.cardId) (h' : Played b ho ys r')
    (hend' : ∀ id ∈ r'.runnable, id ∈ ys.map TaskBoardCardResult.cardId) :
    (∀ id, r.cardResults.get? id = r'.cardResults.get? id) ∧ r.graph.cards = r'.graph.cards ∧
      r.status = r'.status := by
  have hm : r.cardResults.get? = r'.cardResults.get? :=
    h.taken.agree (h.taken_of_ended hend) h'.taken (h'.taken_of_ended hend')
  have hget : ∀ id, r.cardResults.get? id = r'.cardResults.get? id := fun id => congrFun hm id
  have hsame : ∀ id, id ∈ xs.map TaskBoardCardResult.cardId ↔
      id ∈ ys.map TaskBoardCardResult.cardId := by
    intro id
    constructor
    · intro hid
      exact h'.taken_of_ended hend' id (h.taken.pending id hid) (hm ▸ h.taken.ready id hid)
    · intro hid
      exact h.taken_of_ended hend id (h'.taken.pending id hid) (hm ▸ h'.taken.ready id hid)
  have hcards : r.graph.cards = r'.graph.cards := by
    rw [h.cards, h'.cards]
    refine List.map_congr_left ?_
    intro card _
    by_cases hc : card.id ∈ xs.map TaskBoardCardResult.cardId
    · obtain ⟨x, hx, hxe⟩ := List.mem_map.mp hc
      obtain ⟨y, hy, hye⟩ := List.mem_map.mp ((hsame card.id).mp hc)
      have hxy : x = y := by
        have hx' := h.get?_mem hx
        rw [hget, hxe, ← hye, h'.get?_mem hy] at hx'
        exact (Option.some.inj hx').symm
      rw [recordedCard_status_mem h.nodup hx hxe, recordedCard_status_mem h'.nodup hy hye, hxy]
    · rw [Holds.recorded_not_mem hc, Holds.recorded_not_mem fun hy => hc ((hsame card.id).mpr hy)]
  refine ⟨hget, hcards, ?_⟩
  have hnil : xs = [] ↔ ys = [] := by
    rw [← List.map_eq_nil_iff (f := TaskBoardCardResult.cardId), List.eq_nil_iff_forall_not_mem,
      ← List.map_eq_nil_iff (f := TaskBoardCardResult.cardId) (l := ys),
      List.eq_nil_iff_forall_not_mem]
    exact forall_congr' fun id => not_congr (hsame id)
  rw [h.status, h'.status]
  by_cases hx : xs = []
  · rw [if_pos hx, if_pos (hnil.mp hx)]
  · rw [if_neg hx, if_neg fun hy => hx (hnil.mpr hy), hcards]
    exact derive_congr hget _

theorem runnable_of_completed (h : Played b ho xs r)
    (hs : lower (strip b.revision.status) ≠ "completed")
    (hc : lower (strip r.status) = "completed") :
    ∀ id ∈ r.runnable, id ∈ xs.map TaskBoardCardResult.cardId := by
  have hst := h.status
  by_cases hx : xs = []
  · rw [if_pos hx] at hst
    exact absurd (hst ▸ hc) hs
  · rw [if_neg hx] at hst
    intro id hid
    by_contra hm
    obtain ⟨card, hcard, rfl⟩ := List.mem_map.mp (runnable_subset h.valid hid)
    have hopen := open_status h.toHolds ho hcard ((h.mem_runnable hm).mp hid).1 hm
    have hall : r.graph.cards.all
        (fun c => decide (statusIn r.cardResults c ∈ terminalCardStatuses)) = false := by
      rw [List.all_eq_false]
      refine ⟨card, hcard, ?_⟩
      intro ht
      have hsub : terminalCardStatuses ⊆ settledStatuses := by decide
      exact hopen (hsub (of_decide_eq_true ht))
    rw [hst] at hc
    unfold deriveBoardStatus at hc
    simp only at hc
    have hf : lower (strip "failed") ≠ "completed" := by decide +kernel
    have hr : lower (strip "running") ≠ "completed" := by decide +kernel
    have hb : lower (strip "blocked") ≠ "completed" := by decide +kernel
    split at hc
    · exact hf hc
    · split at hc
      · exact hr hc
      · split at hc
        · exact hb hc
        · split at hc
          next hcomp =>
            have hcontra := ((Bool.and_eq_true _ _).mp hcomp).1
            exact absurd hcontra (by rw [Bool.not_eq_true]; exact hall)
          next => exact hs hc

theorem ends (h : Played b ho xs r) (he : b.Ends) (hx : x ∈ xs) :
    x.status ∈ terminalCardStatuses := by
  obtain ⟨card, hc, -, hend, hv⟩ := h.made hx
  exact he.result hc hend hv

theorem not_runnable (h : Played b ho xs r) (he : b.Ends) {id : String} (hid : id ∈ r.runnable) :
    id ∉ xs.map TaskBoardCardResult.cardId := by
  intro hm
  obtain ⟨x, hx, rfl⟩ := List.mem_map.mp hm
  obtain ⟨card, -, hc, hend, -⟩ := (TaskBoard.mem_runnable h.valid).mp hid
  unfold TaskBoardRevision.ended at hend
  rw [hc, h.get?_mem hx] at hend
  simp [h.ends he hx] at hend

end Played

end Handling

end Agently.TaskBoard
