import Agently.TaskBoard.PatchOperations
import Agently.TaskBoard.RereadRevisions

/-! # Cards whose status is accounted for by their result

Source: `_derive_board_status`, `task_board_dependency_satisfied` and the operations of
`apply_task_board_patch`. The status of a card and that of its result are looked at in
different ways; where each card has a result that agrees with it the ways agree. -/

namespace Agently.TaskBoard

open Agently.Lib Agently.Utils
open Agently.TaskDAGValidation (Fault strip strip_strip orElse textOr)

/-- The result has a status that the card can end with, in its own spelling: a required card is
not skipped, and one that is not required does not go back. -/
structure ResultFits (card : TaskBoardCard) (x : TaskBoardCardResult) : Prop where
  spelled : lower (strip x.status) ∈ terminalCardStatuses → x.status ∈ terminalCardStatuses
  skipped : taskBoardCardRequired card = true → lower (strip x.status) ≠ "skipped"
  setback : taskBoardCardRequired card = false → lower (strip x.status) ≠ "setback"

structure CardAccounted (results : Dict String TaskBoardCardResult) (card : TaskBoardCard) : Prop where
  ended : card.status ∈ terminalCardStatuses →
    ∃ x, results.get? card.id = some x ∧ x.status ∈ terminalCardStatuses
  fits : ∀ x, results.get? card.id = some x → ResultFits card x

def Accounted (cards : List TaskBoardCard) (results : Dict String TaskBoardCardResult) : Prop :=
  ∀ card ∈ cards, card.failurePolicy ≠ "" ∧ CardAccounted results card

section Operations

variable (reprOf : Value → String)

/-- What the operations must keep to: a card is put at its end only with a result that is, and
a result fits its card. -/
structure CarefulOperation (p : Patching) (operation : List (String × Value)) : Prop where
  card : operationName reprOf operation ∈ ["add_card", "update_card"] →
    ∀ card, operationCard reprOf operation = .ok card → CardAccounted p.cardResults card
  status : operationName reprOf operation = "set_card_status" →
    strOr reprOf (TaskDAGValidation.get operation "status") "pending" ∈ terminalCardStatuses →
    ∀ cardId, operationText reprOf operation "card_id" = .ok cardId →
    ∃ x, p.cardResults.get? cardId = some x ∧ x.status ∈ terminalCardStatuses
  result : operationName reprOf operation = "record_card_result" →
    ∀ x, cardResultFromValue reprOf
      (orElse (TaskDAGValidation.get operation "result") (.dict [])) = .ok x →
    ∀ card ∈ p.cards, card.id = x.cardId → ResultFits card x

def CarefulOperations : Patching → List (List (String × Value)) → Prop
  | _, [] => True
  | p, operation :: rest => CarefulOperation reprOf p operation ∧
      ∀ q, p.apply reprOf operation = .ok q → CarefulOperations q rest

variable {reprOf}

variable {cards cards' : List TaskBoardCard}

theorem changeCard_spec {change : TaskBoardCard → TaskBoardCard} {id : String}
    (h : changeCard change id cards = .ok cards') :
    ∃ card ∈ cards, card.id = id ∧ change card ∈ cards' ∧
      (∀ c ∈ cards', c ∈ cards ∨ c = change card) ∧
      ((change card).id = id → cards'.map TaskBoardCard.id = cards.map TaskBoardCard.id) := by
  induction cards generalizing cards' with
  | nil => cases h
  | cons card cards ih =>
    rw [changeCard] at h
    by_cases hid : card.id = id
    · rw [if_pos hid] at h
      cases h
      refine ⟨card, List.mem_cons_self, hid, List.mem_cons_self, ?_, ?_⟩
      · intro c hc
        rcases List.mem_cons.mp hc with rfl | hc
        · exact .inr rfl
        · exact .inl (List.mem_cons_of_mem _ hc)
      · intro hsame
        rw [List.map_cons, List.map_cons, hsame, hid]
    · rw [if_neg hid] at h
      cases hr : changeCard change id cards with
      | error e =>
        rw [hr] at h
        cases h
      | ok rest =>
        rw [hr] at h
        cases h
        obtain ⟨found, hf, hfid, hin, hall, hids⟩ := ih hr
        refine ⟨found, List.mem_cons_of_mem _ hf, hfid, List.mem_cons_of_mem _ hin, ?_, ?_⟩
        · intro c hc
          rcases List.mem_cons.mp hc with rfl | hc
          · exact .inl List.mem_cons_self
          · rcases hall c hc with hc | rfl
            · exact .inl (List.mem_cons_of_mem _ hc)
            · exact .inr rfl
        · intro hsame
          rw [List.map_cons, List.map_cons, hids hsame]

theorem operationCard_policy {operation : List (String × Value)} {card : TaskBoardCard}
    (h : operationCard reprOf operation = .ok card) : card.failurePolicy ≠ "" := by
  unfold operationCard at h
  cases hv : orElse (TaskDAGValidation.get operation "card") (.dict []) with
  | dict kvs =>
    rw [hv] at h
    obtain ⟨-, -, -, a, b, hpolicy⟩ := cardFromValue_ok h
    rw [hpolicy]
    exact policy_ne _
  | _ =>
    rw [hv] at h
    cases h

variable {results : Dict String TaskBoardCardResult}

theorem CardAccounted.congr {card card' : TaskBoardCard}
    (h : CardAccounted results card) (hid : card'.id = card.id)
    (hr : taskBoardCardRequired card' = taskBoardCardRequired card)
    (hs : card'.status ∈ terminalCardStatuses →
      ∃ x, results.get? card.id = some x ∧ x.status ∈ terminalCardStatuses) :
    CardAccounted results card' := by
  constructor
  · rw [hid]
    exact hs
  · intro x hx
    rw [hid] at hx
    have hf := h.fits x hx
    exact ⟨hf.spelled, fun he => hf.skipped (hr ▸ he), fun he => hf.setback (hr ▸ he)⟩

theorem accounted_changed {change : TaskBoardCard → TaskBoardCard} {id : String}
    (ha : Accounted cards results) (h : changeCard change id cards = .ok cards')
    (hnew : ∀ card ∈ cards, card.id = id → (change card).id = id ∧
      (change card).failurePolicy ≠ "" ∧ CardAccounted results (change card)) :
    Accounted cards' results ∧ cards'.map TaskBoardCard.id = cards.map TaskBoardCard.id := by
  obtain ⟨card, hc, hid, -, hall, hids⟩ := changeCard_spec h
  obtain ⟨hsame, hpolicy, hcard⟩ := hnew card hc hid
  refine ⟨?_, hids hsame⟩
  intro c hm
  rcases hall c hm with hm | rfl
  · exact ha c hm
  · exact ⟨hpolicy, hcard⟩

theorem accounted_recorded {x : TaskBoardCardResult} (ha : Accounted cards results)
    (hn : (cards.map TaskBoardCard.id).Nodup)
    (h : changeCard (fun card => card.withStatus x.status) x.cardId cards = .ok cards')
    (hx : ∀ card ∈ cards, card.id = x.cardId → ResultFits card x) :
    Accounted cards' (results.set x.cardId x) ∧
      cards'.map TaskBoardCard.id = cards.map TaskBoardCard.id := by
  obtain ⟨card, hc, hid, hin, hall, hids⟩ := changeCard_spec h
  have hids := hids hid
  refine ⟨?_, hids⟩
  have hnew : CardAccounted (results.set x.cardId x) (card.withStatus x.status) := by
    constructor
    · intro hs
      refine ⟨x, ?_, hs⟩
      show (results.set x.cardId x).get? card.id = some x
      rw [hid, Dict.get?_set_self]
    · intro y hy
      have hy : (results.set x.cardId x).get? card.id = some y := hy
      rw [hid, Dict.get?_set_self] at hy
      cases hy
      have hf := hx card hc hid
      exact ⟨hf.spelled, hf.skipped, hf.setback⟩
  intro c hm
  rcases hall c hm with hold | rfl
  · by_cases he : c.id = x.cardId
    · have hsame : c = card.withStatus x.status :=
        List.inj_on_of_nodup_map (hids ▸ hn) hm hin (he.trans hid.symm)
      subst hsame
      exact ⟨(ha card hc).1, hnew⟩
    · obtain ⟨hp, hacc⟩ := ha c hold
      have hget : (results.set x.cardId x).get? c.id = results.get? c.id :=
        Dict.get?_set_of_ne results x (Ne.symm he)
      refine ⟨hp, ?_, ?_⟩
      · rw [hget]
        exact hacc.ended
      · rw [hget]
        exact hacc.fits
  · exact ⟨(ha card hc).1, hnew⟩

theorem accounted_apply {p q : Patching} {operation : List (String × Value)}
    (ha : Accounted p.cards p.cardResults) (hn : (p.cards.map TaskBoardCard.id).Nodup)
    (hc : CarefulOperation reprOf p operation) (h : p.apply reprOf operation = .ok q) :
    Accounted q.cards q.cardResults ∧ (q.cards.map TaskBoardCard.id).Nodup := by
  cases apply_effect h with
  | added card name read new =>
    constructor
    · intro c hm
      rcases List.mem_append.mp hm with hm | hm
      · exact ha c hm
      · rw [List.mem_singleton.mp hm]
        exact ⟨operationCard_policy read, hc.card (by rw [name]; decide) card read⟩
    · rw [List.map_append, List.map_singleton, List.nodup_append]
      refine ⟨hn, List.nodup_singleton _, ?_⟩
      intro id hid id' hid' he
      rw [List.mem_singleton.mp hid'] at he
      exact new (he ▸ hid)
  | changed cardId change cards by_operation ran =>
    have hnew : ∀ card ∈ p.cards, card.id = cardId → (change card).id = cardId ∧
        (change card).failurePolicy ≠ "" ∧ CardAccounted p.cardResults (change card) := by
      intro card hm hid
      obtain ⟨hp, hacc⟩ := ha card hm
      cases by_operation with
      | update new name read =>
        exact ⟨rfl, operationCard_policy read, hc.card (by rw [name]; decide) new read⟩
      | status _ name read =>
        refine ⟨hid, hp, hacc.congr rfl rfl ?_⟩
        intro hs
        rw [hid]
        exact hc.status name hs cardId read
      | addDependency => exact ⟨hid, hp, hacc.congr rfl rfl hacc.ended⟩
      | removeDependency => exact ⟨hid, hp, hacc.congr rfl rfl hacc.ended⟩
    obtain ⟨hacc, hids⟩ := accounted_changed ha ran hnew
    exact ⟨hacc, hids ▸ hn⟩
  | recorded x cards name read ran =>
    obtain ⟨hacc, hids⟩ := accounted_recorded ha hn ran (hc.result name x read)
    exact ⟨hacc, hids ▸ hn⟩
  | metadata => exact ⟨ha, hn⟩
  | aside => exact ⟨ha, hn⟩

theorem accounted_applyAll {p q : Patching} {operations : List (List (String × Value))}
    (ha : Accounted p.cards p.cardResults) (hn : (p.cards.map TaskBoardCard.id).Nodup)
    (hc : CarefulOperations reprOf p operations)
    (h : Patching.applyAll reprOf p operations = .ok q) : Accounted q.cards q.cardResults := by
  induction operations generalizing p with
  | nil =>
    rw [Patching.applyAll] at h
    cases h
    exact ha
  | cons operation rest ih =>
    obtain ⟨mid, hmid, h⟩ := Patching.applyAll_cons h
    obtain ⟨ha, hn⟩ := accounted_apply ha hn hc.1 hmid
    exact ih ha hn (hc.2 mid hmid) h

end Operations

structure AccountedBoard (r : TaskBoardRevision) : Prop where
  valid : ValidRevision r
  cards : Accounted r.graph.cards r.cardResults

variable {r : TaskBoardRevision}

theorem AccountedBoard.patch {reprOf : Value → String} {fresh : String}
    {next : TaskBoardRevision} {patch : TaskBoardPatch} (h : AccountedBoard r)
    (hc : CarefulOperations reprOf (Patching.start r) patch.operations)
    (hp : applyTaskBoardPatch reprOf fresh r patch = .ok next) : AccountedBoard next := by
  obtain ⟨-, -, left, hall, rfl, hv⟩ := applyTaskBoardPatch_iff.mp hp
  have hn : ((Patching.start r).cards.map TaskBoardCard.id).Nodup := h.valid.ids_nodup
  exact ⟨hv, accounted_applyAll h.cards hn hc hall⟩

theorem lower_terminal {s : String} (h : s ∈ terminalCardStatuses) : lower (strip s) = s := by
  have hall : ∀ s ∈ terminalCardStatuses, lower (strip s) = s := by decide +kernel
  exact hall s h

theorem strip_terminal {s : String} (h : s ∈ terminalCardStatuses) :
    (if strip s = "" then "completed" else strip s) = s := by
  obtain ⟨hs, hne⟩ := clean_of_terminal h
  rw [hs, if_neg hne]

theorem results_lookup {d d' : Dict String TaskBoardCardResult}
    (h : List.Forall₂ (fun p p' => p'.1 = p.1 ∧ RereadResult p.2 p'.2) d d') (k : String) :
    (d.get? k = none ∧ d'.get? k = none) ∨
      ∃ x x', d.get? k = some x ∧ d'.get? k = some x' ∧ RereadResult x x' := by
  induction h with
  | nil => exact .inl ⟨rfl, rfl⟩
  | @cons p p' d d' hp _ ih =>
    obtain ⟨k₁, x⟩ := p
    obtain ⟨k₂, x'⟩ := p'
    obtain ⟨rfl, hx⟩ := hp
    rw [Dict.get?_cons, Dict.get?_cons]
    by_cases hk : k₂ = k
    · rw [if_pos hk, if_pos hk]
      exact .inr ⟨x, x', rfl, rfl, hx⟩
    · rw [if_neg hk, if_neg hk]
      exact ih

variable {card : TaskBoardCard} {x : TaskBoardCardResult}

theorem ResultFits.reread {card' : TaskBoardCard} {x' : TaskBoardCardResult}
    (h : ResultFits card x) (hr : taskBoardCardRequired card' = taskBoardCardRequired card)
    (hx : RereadResult x x') : ResultFits card' x' := by
  by_cases he : strip x.status = ""
  · have hs : x'.status = "completed" := by rw [hx.status, if_pos he]
    have hl : lower (strip x'.status) = "completed" := by
      rw [hs]
      exact lower_terminal (by decide)
    exact ⟨fun _ => by rw [hs]; decide, fun _ => by rw [hl]; decide, fun _ => by rw [hl]; decide⟩
  · have hs : x'.status = strip x.status := by rw [hx.status, if_neg he]
    have hl : lower (strip x'.status) = lower (strip x.status) := by rw [hs, strip_strip]
    refine ⟨?_, ?_, ?_⟩
    · intro ht
      rw [hl] at ht
      have hterm := h.spelled ht
      rw [hs, (clean_of_terminal hterm).1]
      exact hterm
    · intro hq
      rw [hl]
      exact h.skipped (hr ▸ hq)
    · intro hq
      rw [hl]
      exact h.setback (hr ▸ hq)

theorem AccountedBoard.reread {r' : TaskBoardRevision} (h : AccountedBoard r)
    (hr : RereadBoard r r') : AccountedBoard r' := by
  refine ⟨hr.valid h.valid, ?_⟩
  intro card' hc'
  obtain ⟨card, hc, hcard, hid, -⟩ := hr.card h.valid hc'
  obtain ⟨hp, hacc⟩ := h.cards card hc
  have hreq := hcard.required hp
  refine ⟨hcard.policy, ?_, ?_⟩
  · intro hs
    have hst : card'.status = card.status := by
      rw [hcard.status]
      unfold textOr
      split
      · rename_i hempty
        rw [hcard.status, textOr, if_pos hempty] at hs
        exact absurd hs (by decide)
      · rfl
    rw [hst] at hs
    obtain ⟨x, hx, ht⟩ := hacc.ended hs
    rcases results_lookup hr.results card.id with ⟨hn, -⟩ | ⟨y, y', hy, hy', hyy⟩
    · rw [hn] at hx
      cases hx
    · rw [hy] at hx
      cases hx
      refine ⟨y', hid ▸ hy', ?_⟩
      rw [hyy.status, strip_terminal ht]
      exact ht
  · intro x' hx'
    rw [hid] at hx'
    rcases results_lookup hr.results card.id with ⟨-, hn⟩ | ⟨y, y', hy, hy', hyy⟩
    · rw [hn] at hx'
      cases hx'
    · rw [hy'] at hx'
      cases hx'
      exact (hacc.fits y hy).reread hreq hyy

def TaskBoardRevision.Waits (r : TaskBoardRevision) : Prop :=
  ∃ card ∈ r.graph.cards, r.ended card = false ∧
    ∃ dep ∈ r.graph.cards, dep.id ∈ card.dependsOn ∧ taskBoardCardRequired dep = true ∧
      r.ended dep = true ∧ statusIn r.cardResults dep ∈ ["failed", "blocked"]

/-- No card whose result satisfies its dependents is scheduled, and a board whose derived status
is `running` has a card to run or one that waits. -/
structure NeverStuck (r : TaskBoardRevision) : Prop where
  notAgain : ∀ card ∈ r.graph.cards, ∀ x, r.cardResults.get? card.id = some x →
    taskBoardDependencySatisfied card (some x) = true →
    ∀ plan, scheduleTaskBoardRevision r = .ok plan → card.id ∉ plan.runnableCardIds
  waits : deriveBoardStatus r.graph.cards r.cardResults r.status = "running" →
    (∀ plan, scheduleTaskBoardRevision r = .ok plan → plan.runnableCardIds = []) → r.Waits

theorem ended_result (ha : CardAccounted r.cardResults card) (he : r.ended card = true) :
    ∃ x, r.cardResults.get? card.id = some x ∧ x.status ∈ terminalCardStatuses ∧
      statusIn r.cardResults card = x.status := by
  have hx : ∃ x, r.cardResults.get? card.id = some x ∧ x.status ∈ terminalCardStatuses := by
    unfold TaskBoardRevision.ended at he
    rcases Bool.or_eq_true_iff.mp he with he | he
    · cases hg : r.cardResults.get? card.id with
      | none =>
        rw [hg] at he
        cases he
      | some x =>
        rw [hg] at he
        exact ⟨x, rfl, of_decide_eq_true he⟩
    · exact ha.ended (of_decide_eq_true he)
  obtain ⟨x, hg, ht⟩ := hx
  refine ⟨x, hg, ht, ?_⟩
  unfold statusIn
  rw [hg]
  exact lower_terminal ht

theorem ended_of_result
    (hx : r.cardResults.get? card.id = some x) (ht : x.status ∈ terminalCardStatuses) :
    r.ended card = true := by
  unfold TaskBoardRevision.ended
  rw [hx, Option.any_some, decide_eq_true ht, Bool.true_or]

theorem ended_of_satisfied
    (ha : CardAccounted r.cardResults card) (hx : r.cardResults.get? card.id = some x)
    (hs : taskBoardDependencySatisfied card (some x) = true) : r.ended card = true := by
  have hf := ha.fits x hx
  refine ended_of_result hx (hf.spelled ?_)
  simp only [taskBoardDependencySatisfied, Bool.or_eq_true, Bool.and_eq_true, decide_eq_true_eq,
    Bool.not_eq_true'] at hs
  rcases hs with hs | ⟨hs, hr⟩
  · rw [hs]
    decide
  · have hne := hf.setback hr
    simp only [satisfyingDegradedStatuses, List.mem_cons, List.not_mem_nil, or_false] at hs
    rcases hs with hs | hs | hs | hs
    · rw [hs]; decide
    · rw [hs]; decide
    · rw [hs]; decide
    · exact absurd hs hne

theorem unsatisfied_ended (ha : CardAccounted r.cardResults card) (he : r.ended card = true)
    (hs : taskBoardDependencySatisfied card (r.cardResults.get? card.id) = false) :
    taskBoardCardRequired card = true ∧ statusIn r.cardResults card ∈ ["failed", "blocked"] := by
  obtain ⟨x, hx, ht, hstat⟩ := ended_result ha he
  have hf := ha.fits x hx
  rw [hx] at hs
  have hl := lower_terminal ht
  simp only [taskBoardDependencySatisfied, hl, Bool.or_eq_false_iff, Bool.and_eq_false_iff,
    decide_eq_false_iff_not, Bool.not_eq_false'] at hs
  have hskip := hf.skipped
  rw [hl] at hskip
  rw [hstat]
  obtain ⟨hcomp, hs⟩ := hs
  simp only [terminalCardStatuses, List.mem_cons, List.not_mem_nil, or_false] at ht
  rcases hs with hs | hr
  · exfalso
    apply hs
    rcases ht with ht | ht | ht | ht
    · exact absurd ht hcomp
    · rw [ht]; decide
    · rw [ht]; decide
    · rw [ht]; decide
  · refine ⟨hr, ?_⟩
    rcases ht with ht | ht | ht | ht
    · exact absurd ht hcomp
    · rw [ht]; decide
    · rw [ht]; decide
    · exact absurd ht (hskip hr)

theorem derived_of_ended {s : String}
    (ha : Accounted r.graph.cards r.cardResults) (he : ∀ card ∈ r.graph.cards, r.ended card = true) :
    deriveBoardStatus r.graph.cards r.cardResults s ≠ "running" := by
  have hterm : ∀ card ∈ r.graph.cards, statusIn r.cardResults card ∈ terminalCardStatuses := by
    intro card hc
    obtain ⟨x, -, ht, hs⟩ := ended_result (ha card hc).2 (he card hc)
    rw [hs]
    exact ht
  have hskip : ∀ card ∈ r.graph.cards, taskBoardCardRequired card = true →
      statusIn r.cardResults card ≠ "skipped" := by
    intro card hc hr
    obtain ⟨x, hx, ht, hs⟩ := ended_result (ha card hc).2 (he card hc)
    have h := ((ha card hc).2.fits x hx).skipped hr
    rw [lower_terminal ht] at h
    rwa [hs]
  unfold deriveBoardStatus
  dsimp only
  split
  · decide
  · rename_i hfailed
    split
    · rename_i hsetback
      obtain ⟨card, hc, hs⟩ := List.any_eq_true.mp hsetback
      have hs : statusIn r.cardResults card = "setback" := of_decide_eq_true hs
      have ht := hterm card hc
      rw [hs] at ht
      exact absurd ht (by decide)
    · split
      · decide
      · rename_i hblocked
        split
        · decide
        · rename_i hcompleted
          exfalso
          apply hcompleted
          rw [Bool.and_eq_true]
          constructor
          · exact List.all_eq_true.mpr fun card hc => decide_eq_true (hterm card hc)
          · refine List.all_eq_true.mpr ?_
            intro card hm
            obtain ⟨hc, hr⟩ := List.mem_filter.mp hm
            have hnf : statusIn r.cardResults card ≠ "failed" := fun h =>
              hfailed (List.any_eq_true.mpr ⟨card, hm, decide_eq_true (h ▸ List.mem_cons_self)⟩)
            have hnb : statusIn r.cardResults card ≠ "blocked" := fun h =>
              hblocked (List.any_eq_true.mpr ⟨card, hm, decide_eq_true h⟩)
            have ht := hterm card hc
            simp only [terminalCardStatuses, List.mem_cons, List.not_mem_nil, or_false] at ht
            rcases ht with ht | ht | ht | ht
            · exact decide_eq_true ht
            · exact absurd ht hnf
            · exact absurd ht hnb
            · exact absurd ht (hskip card hc hr)

theorem waits_or_ended (h : AccountedBoard r) (hn : r.runnable = [])
    (hw : ¬ r.Waits) : ∀ card ∈ r.graph.cards, r.ended card = true := by
  have hall : ∀ id ∈ r.graph.ids, ∀ card ∈ r.graph.cards, card.id = id → r.ended card = true := by
    refine h.valid.acyclic.induction ?_
    rintro id - ih card hc rfl
    by_contra hopen
    have hopen : r.ended card = false := by simpa using hopen
    have hnot : card.id ∉ r.runnable := by
      rw [hn]
      exact List.not_mem_nil
    rw [mem_runnable h.valid] at hnot
    have hdep : ∃ d ∈ card.dependsOn, r.satisfied d = false := by
      by_contra hnone
      push Not at hnone
      refine hnot ⟨card, hc, rfl, hopen, ?_⟩
      intro d hd
      simpa using hnone d hd
    obtain ⟨d, hd, hsat⟩ := hdep
    obtain ⟨dep, hdep, rfl, hf⟩ := cardById_of_mem_ids h.valid.ids_nodup (h.valid.known card hc d hd)
    have hdeps : dep.id ∈ r.graph.dependsOn card.id := by
      have hfc : r.graph.cardById card.id = some card := DependencyList.find_of_mem h.valid.ids_nodup hc
      rw [TaskBoardGraph.dependsOn, hfc]
      exact hd
    have hended := ih dep.id (h.valid.known card hc dep.id hd) hdeps dep hdep rfl
    rw [TaskBoardRevision.satisfied, hf] at hsat
    obtain ⟨hreq, hstat⟩ := unsatisfied_ended (h.cards dep hdep).2 hended hsat
    exact hw ⟨card, hc, hopen, dep, hdep, hd, hreq, hended, hstat⟩
  intro card hc
  exact hall card.id (List.mem_map_of_mem hc) card hc rfl

theorem AccountedBoard.neverStuck (h : AccountedBoard r) : NeverStuck r := by
  constructor
  · intro card hc x hx hs plan hplan hm
    have he := ended_of_satisfied (h.cards card hc).2 hx hs
    rw [(schedule_valid hplan).2, mem_runnable h.valid] at hm
    obtain ⟨card', hc', hid, hopen, -⟩ := hm
    rw [List.inj_on_of_nodup_map h.valid.ids_nodup hc' hc hid, he] at hopen
    cases hopen
  · intro hd hn
    obtain ⟨plan, hplan, hrun⟩ := schedule_spec h.valid
    by_contra hw
    have hnil : r.runnable = [] := hrun ▸ hn plan hplan
    exact derived_of_ended h.cards (waits_or_ended h hnil hw) hd

end Agently.TaskBoard
