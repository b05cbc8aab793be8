import Mathlib
import Agently.TaskBoard.SchedulerAgreement

/-! # Ticks that are saved and resumed

Source: `TaskBoard/TaskBoardRuntime.py`. A fresh execution that has loaded the data of a tick
requests the cards whose results had not been collected, or goes on to apply them all. -/

namespace Agently.TaskBoard

open Agently.Lib Agently.Utils
open Agently.TaskDAGValidation (Fault strip)

section Resuming

variable {reprOf : Value → String} {b : HandledBoard reprOf} {xs : List TaskBoardCardResult}
  {r : TaskBoardRevision} {s t : TickState}

def collectedOf (scheduler : Scheduler) (d : TickData) : Dict String Value :=
  match scheduler with
  | .frontier => d.collectedJson.getD []
  | .batch => d.collected.getD []

theorem mem_missingIds {expected : List String} {collected : Dict String Value} {id : String} :
    id ∈ missingIds expected collected ↔ id ∈ expected ∧ id ∉ collected.keys := by
  unfold missingIds
  rw [List.mem_filter, Option.isNone_iff_eq_none, Dict.get?_eq_none_iff]

theorem requestedIds_requests (d : TickData) (ids : List String) :
    requestedIds ((ids.map fun id => TickEvent.cardRequested id d).reverse ++ []) = ids.reverse := by
  unfold requestedIds
  rw [List.append_nil, List.filterMap_reverse, List.filterMap_map]
  congr 1
  exact List.filterMap_some

theorem inFlight_requests (d : TickData) (ids : List String) :
    (requestAll { data := d, tasks := [], log := [] } ids).inFlight = ids := by
  unfold requestAll TickState.inFlight
  rw [List.nil_append, List.flatMap_map]
  exact List.flatMap_singleton' ids

theorem missing_perm {expected done missing : List String} (he : expected.Nodup) (hd : done.Nodup)
    (hsub : ∀ id ∈ done, id ∈ expected) (hm : missing.Nodup)
    (hmem : ∀ id, id ∈ missing ↔ id ∈ expected ∧ id ∉ done) : (missing ++ done).Perm expected := by
  have hn : (missing ++ done).Nodup := by
    rw [List.nodup_append]
    refine ⟨hm, hd, ?_⟩
    rintro id hid id' hid' rfl
    exact ((hmem id).mp hid).2 hid'
  refine (List.perm_ext_iff_of_nodup hn he).mpr ?_
  intro id
  rw [List.mem_append, hmem]
  constructor
  · rintro (⟨h, -⟩ | h)
    · exact h
    · exact hsub id h
  · intro h
    by_cases hid : id ∈ done
    · exact .inr hid
    · exact .inl ⟨h, hid⟩

theorem Frontier.mem_missing (h : Frontier b xs r s) {id : String} :
    id ∈ missingIds (s.data.expectedCardIdsJson.getD []) (s.data.collectedJson.getD []) ↔
      id ∈ s.data.dispatchedCardIds ∧ id ∉ xs.map TaskBoardCardResult.cardId := by
  have hk : id ∈ Dict.keys (s.data.collectedJson.getD []) ↔
      id ∈ xs.map TaskBoardCardResult.cardId := by
    rw [← h.data.collected id, ← not_iff_not, ← Dict.get?_eq_none_iff]
    cases Dict.get? (s.data.collectedJson.getD []) id with
    | none => simp
    | some v => simp
  rw [mem_missingIds, h.data.expected, Option.getD_some, hk]

theorem Frontier.resume (h : Frontier b xs r s) : Frontier b xs r (resumePending s.data) := by
  have hmissing : (missingIds (s.data.expectedCardIdsJson.getD [])
      (s.data.collectedJson.getD [])).Nodup := by
    rw [h.data.expected, Option.getD_some]
    exact h.data.nodup.filter _
  have hperm := missing_perm h.data.nodup h.data.holds.nodup h.data.recorded hmissing
    fun id => h.mem_missing
  have hin : ∀ id ∈ missingIds (s.data.expectedCardIdsJson.getD []) (s.data.collectedJson.getD []),
      id ∈ s.inFlight := by
    intro id hid
    obtain ⟨hd, hx⟩ := h.mem_missing.mp hid
    exact ((h.mem_dispatched id).mp hd).resolve_right hx
  unfold resumePending
  rw [if_pos h.data.topology]
  cases hm : missingIds (s.data.expectedCardIdsJson.getD []) (s.data.collectedJson.getD []) with
  | nil =>
    rw [hm, List.nil_append] at hperm
    refine ⟨h.data, hperm, ?_, h.made, fun _ => rfl, ?_, ?_, ?_⟩
    · intro task htask
      cases List.mem_singleton.mp htask
      trivial
    · rcases h.revision with hnone | ⟨hr, -⟩
      · exact .inl hnone
      · exact .inr ⟨hr, rfl⟩
    · intro id hid
      cases hid
    · intro hs
      have hplay := h.playing hs
      refine ⟨hplay.played, hplay.ready, hplay.runnable, ?_⟩
      intro task htask
      cases List.mem_singleton.mp htask
      trivial
  | cons id rest =>
    rw [hm] at hperm hin
    have hne : s.inFlight ≠ [] := List.ne_nil_of_mem (hin id List.mem_cons_self)
    have hflight := inFlight_requests s.data (id :: rest)
    have htasks : ∀ task ∈ (requestAll { data := s.data, tasks := [], log := [] }
        (id :: rest)).tasks, ∃ j, task = .requested j := by
      intro task htask
      obtain ⟨j, -, rfl⟩ := List.mem_map.mp htask
      exact ⟨j, rfl⟩
    refine ⟨h.data, ?_, ?_, h.made, ?_, ?_, ?_, ?_⟩
    · rw [hflight]
      exact hperm
    · intro task htask
      obtain ⟨j, rfl⟩ := htasks task htask
      trivial
    · rintro ⟨task, htask, hcl⟩
      obtain ⟨j, rfl⟩ := htasks task htask
      exact hcl.elim
    · rcases h.revision with hnone | ⟨-, hno⟩
      · exact .inl hnone
      · exact absurd hno hne
    · intro j hj
      have hj : j ∈ requestedIds (((id :: rest).map fun i =>
        TickEvent.cardRequested i s.data).reverse ++ []) := hj
      rw [requestedIds_requests, List.mem_reverse] at hj
      exact (h.mem_dispatched j).mpr (.inl (hin j hj))
    · intro hs
      have hplay := h.playing hs
      refine ⟨hplay.played, hplay.ready, hplay.runnable, ?_⟩
      intro task htask
      obtain ⟨j, rfl⟩ := htasks task htask
      trivial

theorem Batch.resume (h : Batch b s) : Batch b (resumePending s.data) := by
  have hrun := runnable_nodup b.valid
  have hexp : s.data.expectedCardIds.getD [] = b.revision.runnable := by
    rw [h.expected, Option.getD_some]
  have htop : ¬ s.data.topology = some "frontier" := by
    rw [h.topology]
    decide
  have hmem : ∀ id, id ∈ missingIds b.revision.runnable s.data.collectedResults ↔
      id ∈ b.revision.runnable ∧ id ∉ s.data.collectedResults.keys := fun _ => mem_missingIds
  have hkeys : s.data.collectedResults.keys.Nodup :=
    (List.nodup_append.mp (h.tokens.nodup_iff.mpr hrun)).2.1
  have hmissing : (missingIds b.revision.runnable s.data.collectedResults).Nodup := hrun.filter _
  have hperm := missing_perm hrun hkeys
    (fun id hid => h.tokens.mem_iff.mp (List.mem_append_right _ hid)) hmissing hmem
  unfold resumePending
  rw [if_neg htop, hexp]
  simp only [if_neg h.nonempty]
  cases hm : missingIds b.revision.runnable (s.data.collected.getD []) with
  | nil =>
    rw [show missingIds b.revision.runnable s.data.collectedResults = [] from hm,
      List.nil_append] at hperm
    refine ⟨h.topology, h.expected, h.nonempty, h.reads, hperm, ?_, ?_, ?_⟩
    · intro task htask
      cases List.mem_singleton.mp htask
      exact ⟨rfl, rfl⟩
    · rcases h.applied with ⟨next, hrev, -, hrec⟩ | ⟨hnone, -⟩
      · exact .inl ⟨next, hrev, rfl, hrec⟩
      · exact .inr ⟨hnone, fun _ => ⟨_, List.mem_cons_self⟩⟩
    · intro id hid
      cases hid
  | cons id rest =>
    have hm : missingIds b.revision.runnable s.data.collectedResults = id :: rest := hm
    rw [hm] at hperm hmem
    have hflight := inFlight_requests s.data (id :: rest)
    have hin : ∀ j ∈ id :: rest, j ∈ s.inFlight := by
      intro j hj
      obtain ⟨hr, hk⟩ := (hmem j).mp hj
      exact (List.mem_append.mp (h.tokens.mem_iff.mpr hr)).resolve_right hk
    have hne : s.inFlight ≠ [] := List.ne_nil_of_mem (hin id List.mem_cons_self)
    refine ⟨h.topology, h.expected, h.nonempty, h.reads, ?_, ?_, .inr ⟨h.unapplied hne, ?_⟩, ?_⟩
    · rw [hflight]
      exact hperm
    · intro task htask
      obtain ⟨j, -, rfl⟩ := List.mem_map.mp htask
      trivial
    · intro hno
      rw [hflight] at hno
      cases hno
    · intro j hj
      have hj : j ∈ requestedIds (((id :: rest).map fun i =>
        TickEvent.cardRequested i s.data).reverse ++ []) := hj
      rw [requestedIds_requests, List.mem_reverse] at hj
      exact h.runnable_of_inFlight (hin j hj)

/-- The revision has the results collected before the save, and of every card that was requested,
before or after it, one result that its own handler made. -/
structure Keeps (reprOf : Value → String) (handler : CardHandler) (board : TaskBoard)
    (s t : TickState) (final : TaskBoardRevision) : Prop where
  collected : ∀ id v, Dict.get? (collectedOf board.scheduler s.data) id = some v →
    ∃ x, cardResultFromValue reprOf v = .ok x ∧ final.cardResults.get? id = some x
  requested : ∀ id, id ∈ requestedIds s.log ∨ id ∈ requestedIds t.log →
    ∃ card ∈ board.revision.graph.cards, card.id = id ∧ ∃ results x,
      handlerResult reprOf handler card results = some x ∧ final.cardResults.get? id = some x

def Idle (scheduler : Scheduler) (s t : TickState) : Prop :=
  requestedIds s.log = [] ∧ requestedIds t.log = [] ∧ collectedOf scheduler s.data = []

/-- Every finished run of the tick that is not interrupted closes with the results of `final`. -/
def SameAsUninterrupted (reprOf : Value → String) (handler : CardHandler) (board : TaskBoard)
    (final : TaskBoardRevision) : Prop :=
  ∀ as u report fresh, (tick reprOf board).Meets (Drives handler) TickState.initial as →
    (tick reprOf board).run TickState.initial as = some u → u.finished = true →
      ∃ whole, finalizeTickSnapshot reprOf board u.data report fresh = .ok whole ∧
        ∀ id, final.cardResults.get? id = whole.cardResults.get? id

theorem Frontier.keeps {ys : List TaskBoardCardResult}
    {next : TaskBoardRevision} (h : Frontier b xs r s) (ht : Frontier b (xs ++ ys) next t)
    (hmono : ∀ id ∈ s.data.dispatchedCardIds, id ∈ t.data.dispatchedCardIds)
    (hf : t.finished = true) : Keeps reprOf b.handler ⟨b.revision, .frontier⟩ s t next where
  collected := by
    intro id v hv
    obtain ⟨-, x, hx, hid, hread⟩ := h.data.entries (id, v) (Dict.mem_of_get? hv)
    refine ⟨x, hread, ?_⟩
    rw [← show x.cardId = id from hid]
    exact ht.data.holds.get?_mem (List.mem_append_left _ hx)
  requested := by
    intro id hid
    have hd : id ∈ t.data.dispatchedCardIds := by
      rcases hid with hid | hid
      · exact hmono id (h.logged id hid)
      · exact ht.logged id hid
    obtain ⟨x, hx, rfl⟩ := List.mem_map.mp ((ht.finished hf id).mp hd)
    obtain ⟨card, hc, he, results, hv⟩ := ht.made x hx
    exact ⟨card, hc, he, results, x, hv, ht.data.holds.get?_mem hx⟩

theorem Batch.keeps {next : TaskBoardRevision} (h : Batch b s) (ht : Batch b t)
    (hrec : Recorded reprOf b.revision (layer b) next) :
    Keeps reprOf b.handler ⟨b.revision, .batch⟩ s t next := by
  have hn : ((layer b).map TaskBoardCardResult.cardId).Nodup := by
    rw [layer_ids]
    exact runnable_nodup b.valid
  have hget : ∀ y ∈ layer b, next.cardResults.get? y.cardId = some y := by
    intro y hy
    rw [hrec.results]
    exact recordedResults_of_mem hn hy
  have hlayer : ∀ id ∈ b.revision.runnable, ∀ y, layerResult b id = some y → y ∈ layer b :=
    fun id hid y hy => List.mem_filterMap.mpr ⟨id, hid, hy⟩
  refine ⟨?_, ?_⟩
  · intro id v hv
    have hm := Dict.mem_of_get? hv
    obtain ⟨y, hy, hread⟩ := h.reads (id, v) hm
    have hid : id ∈ b.revision.runnable :=
      h.tokens.mem_iff.mp (List.mem_append_right _ (List.mem_map_of_mem hm))
    obtain ⟨-, -, z, -, hz, -, hown, -⟩ := layerResult_of_runnable hid
    have hyz : z = y := Option.some.inj (hz.symm.trans hy)
    subst hyz
    exact ⟨z, hread, hown ▸ hget z (hlayer id hid z hz)⟩
  · intro id hid
    have hid : id ∈ b.revision.runnable := by
      rcases hid with hid | hid
      · exact h.logged id hid
      · exact ht.logged id hid
    obtain ⟨card, hc, y, he, hy, hres, hown, -⟩ := layerResult_of_runnable hid
    exact ⟨card, hc, he, _, y, hres, hown ▸ hget y (hlayer id hid y hy)⟩

/-- Loading the data a tick had at any moment into a fresh execution, resuming it and letting it
finish gives a revision that keeps what was collected, with a result of every requested card. -/
def SurvivesResume (reprOf : Value → String) (handler : CardHandler) (board : TaskBoard)
    (Ends : TaskBoardRevision → Prop) : Prop :=
  ∀ as s bs t report fresh,
    (tick reprOf board).Meets (Drives handler) TickState.initial as →
      (tick reprOf board).run TickState.initial as = some s →
        (tick reprOf board).Meets (Drives handler) (resumePending s.data) bs →
          (tick reprOf board).run (resumePending s.data) bs = some t → t.finished = true →
            Idle board.scheduler s t ∨
              ∃ final, finalizeTickSnapshot reprOf board t.data report fresh = .ok final ∧
                Keeps reprOf handler board s t final ∧ Ends final

theorem resumed_nothing {board : TaskBoard} {bs : List TickAction} {d : TickData}
    (htop : d.topology ≠ some "frontier") (hexp : d.expectedCardIds = none)
    (hr : (tick reprOf board).run (resumePending d) bs = some t) : requestedIds t.log = [] := by
  have hempty : resumePending d = { data := d, tasks := [], log := [] } := by
    unfold resumePending
    rw [if_neg htop, hexp]
    rfl
  rw [hempty] at hr
  rw [run_finished rfl hr]
  rfl

theorem frontier_survives (b : HandledBoard reprOf) :
    SurvivesResume reprOf b.handler ⟨b.revision, .frontier⟩ fun final =>
      b.Settles → SameAsUninterrupted reprOf b.handler ⟨b.revision, .frontier⟩ final := by
  intro as s bs t report fresh hm hr hm' hr' hf
  rcases frontier_run hm hr with rfl | ⟨xs, r, hs⟩
  · exact .inl ⟨rfl, resumed_nothing (by decide) rfl hr', rfl⟩
  · obtain ⟨ys, next, ht, hmono⟩ := hs.resume.run hm' hr'
    have hmono : ∀ id ∈ s.data.dispatchedCardIds, id ∈ t.data.dispatchedCardIds := by
      intro id hid
      refine hmono id ?_
      unfold resumePending
      rw [if_pos hs.data.topology]
      split
      · exact hid
      · exact hid
    refine .inr ⟨next, ht.finalized report fresh, hs.keeps ht hmono hf, ?_⟩
    intro hset cs u report' fresh' hmu hru hfu
    rcases frontier_run hmu hru with rfl | ⟨zs, whole, hu⟩
    · cases hfu
    · obtain ⟨hplayed, hended⟩ := ht.played_out hset hf
      obtain ⟨hplayed', hended'⟩ := hu.played_out hset hfu
      exact ⟨whole, hu.finalized report' fresh', (hplayed.agree hended hplayed' hended').1⟩

theorem batch_survives (b : HandledBoard reprOf) :
    SurvivesResume reprOf b.handler ⟨b.revision, .batch⟩
      (SameAsUninterrupted reprOf b.handler ⟨b.revision, .batch⟩) := by
  intro as s bs t report fresh hm hr hm' hr' hf
  rcases batch_run hm hr with rfl | hs | ⟨-, hend⟩
  · exact .inl ⟨rfl, resumed_nothing (by decide) rfl hr', rfl⟩
  · have ht := hs.resume.run hm' hr'
    obtain ⟨next, hrec, hclosed⟩ := ht.finished hf report fresh
    refine .inr ⟨next, hclosed, hs.keeps ht hrec, ?_⟩
    intro cs u report' fresh' hmu hru hfu
    obtain ⟨whole, hrec', hclosed'⟩ := batch_finished hmu hru hfu hs.nonempty report' fresh'
    refine ⟨whole, hclosed', ?_⟩
    intro id
    rw [hrec.results, hrec'.results]
  · rw [hend] at hr' ⊢
    exact .inl ⟨rfl, resumed_nothing (show some "batch" ≠ some "frontier" by decide) rfl hr', rfl⟩

/-- Both schedulers survive a save and a resume at any moment; a batch tick, and a frontier tick on
a board that settles, end with the results of the tick that is not interrupted. -/
theorem ticks_survive_resume (b : HandledBoard reprOf) :
    SurvivesResume reprOf b.handler ⟨b.revision, .batch⟩
        (SameAsUninterrupted reprOf b.handler ⟨b.revision, .batch⟩) ∧
      SurvivesResume reprOf b.handler ⟨b.revision, .frontier⟩ fun final =>
        b.Settles → SameAsUninterrupted reprOf b.handler ⟨b.revision, .frontier⟩ final :=
  ⟨batch_survives b, frontier_survives b⟩

end Resuming

section Driving

variable (reprOf : Value → String) (handler : CardHandler) (board : TaskBoard)

def drive (s : TickState) (n : Nat) : TickAction :=
  { task := n
    input := { answer := .ok (match s.tasks[n]? with
      | some (.running _ card results) => handler card results
      | _ => .value .none) } }

def driving : TickState → List Nat → List TickAction
  | _, [] => []
  | s, n :: ns => drive handler s n ::
      match (tick reprOf board).step s (drive handler s n) with
      | some t => driving t ns
      | none => []

theorem driving_meets (s : TickState) (ns : List Nat) :
    (tick reprOf board).Meets (Drives handler) s (driving reprOf handler board s ns) := by
  induction ns generalizing s with
  | nil => trivial
  | cons n ns ih =>
    refine ⟨?_, ?_⟩
    · intro id card results h
      show Except.ok _ = _
      have h : s.tasks[n]? = some (.running id card results) := h
      rw [h]
    · intro t ht
      rw [ht]
      exact ih t

def savedAndResumed (ns ms : List Nat) : Option (TickState × TickState × TaskBoardRevision) :=
  ((tick reprOf board).run TickState.initial
      (driving reprOf handler board TickState.initial ns)).bind fun s =>
    ((tick reprOf board).run (resumePending s.data)
        (driving reprOf handler board (resumePending s.data) ms)).bind fun t =>
      if t.finished then
        (finalizeTickSnapshot reprOf board t.data {} {}).toOption.map fun final => (s, t, final)
      else none

def beforeAfter (id : String) (p : TickState × TickState × TaskBoardRevision) :
    Option Value × Option Value :=
  (((Dict.get? (collectedOf board.scheduler p.1.data) id).bind fun v =>
      (cardResultFromValue reprOf v).toOption).map TaskBoardCardResult.preview,
    (p.2.2.cardResults.get? id).map TaskBoardCardResult.preview)

variable {reprOf handler board}

theorem SurvivesResume.keeps {Ends : TaskBoardRevision → Prop}
    (h : SurvivesResume reprOf handler board Ends) {ns ms : List Nat} {s t : TickState}
    {final : TaskBoardRevision}
    (hr : savedAndResumed reprOf handler board ns ms = some (s, t, final))
    (hlog : requestedIds s.log ≠ []) : Keeps reprOf handler board s t final ∧ Ends final := by
  obtain ⟨s', hs, hr⟩ := Option.bind_eq_some_iff.mp hr
  obtain ⟨t', ht, hr⟩ := Option.bind_eq_some_iff.mp hr
  by_cases hf : t'.finished = true
  · rw [if_pos hf] at hr
    obtain ⟨final', hc, he⟩ := Option.map_eq_some_iff.mp hr
    cases he
    cases hclosed : finalizeTickSnapshot reprOf board t.data {} {} with
    | error e =>
      rw [hclosed] at hc
      cases hc
    | ok closed =>
      rw [hclosed] at hc
      cases hc
      rcases h _ s _ t {} {} (driving_meets reprOf handler board _ _) hs
        (driving_meets reprOf handler board _ _) ht hf with hidle | ⟨whole, hwhole, hkeeps⟩
      · exact absurd hidle.1 hlog
      · rw [hclosed] at hwhole
        cases hwhole
        exact hkeeps
  · rw [if_neg hf] at hr
    cases hr

theorem not_survives {Ends : TaskBoardRevision → Prop} (ns ms : List Nat) (id : String) (v w : Value)
    (hr : (savedAndResumed reprOf handler board ns ms).map (fun p =>
      ((requestedIds p.1.log).isEmpty, beforeAfter reprOf board id p)) =
        some (false, some v, some w))
    (hne : v ≠ w) : ¬ SurvivesResume reprOf handler board Ends := by
  intro h
  obtain ⟨⟨s, t, final⟩, hp, he⟩ := Option.map_eq_some_iff.mp hr
  obtain ⟨hlog, hboth⟩ := Prod.mk.inj he
  obtain ⟨hv, hw⟩ := Prod.mk.inj hboth
  obtain ⟨x, hx, hxv⟩ := Option.map_eq_some_iff.mp hv
  obtain ⟨stored, hstored, hread⟩ := Option.bind_eq_some_iff.mp hx
  obtain ⟨y, hy, hyw⟩ := Option.map_eq_some_iff.mp hw
  have hkeeps := (h.keeps hp (by simpa using hlog)).1
  obtain ⟨z, hz, hfinal⟩ := hkeeps.collected id stored hstored
  rw [hz] at hread
  have hxz : z = x := Option.some.inj hread
  have hyz : z = y := Option.some.inj (hfinal.symm.trans hy)
  exact hne (by rw [← hxv, ← hyw, ← hxz, ← hyz])

end Driving

def pairCards : TaskBoardRevision :=
  { boardId := "board"
    revisionId := "rev-0"
    graph := { graphId := "g", cards := [{ id := "b", objective := "write" },
      { id := "a", objective := "write" }] } }

def overwriting : List (String × Value) :=
  [("base_revision", .str "rev-0"),
   ("operations", .list [.dict [("op", .str "record_card_result"),
      ("result", .dict [("card_id", .str "b"), ("preview", .str "proposed")])]])]

def proposingHandler : CardHandler := fun card _ =>
  if card.id = "a" then
    .result { cardId := "a", status := "completed", patchProposal := some overwriting }
  else .value (.str "own")

theorem proposal_not_kept (Ends : TaskBoardRevision → Prop) :
    ¬ SurvivesResume plainText proposingHandler ⟨pairCards, .batch⟩ Ends :=
  not_survives [0, 0, 0, 0, 1, 1, 1] [0, 0, 0, 1] "b" (.str "own") (.str "proposed")
    (by decide +kernel) (by decide)

def namingHandler : CardHandler := fun card _ =>
  if card.id = "a" then .mapping [("card_id", .str "b"), ("preview", .str "foreign")]
  else .value (.str "own")

theorem foreign_not_kept (Ends : TaskBoardRevision → Prop) :
    ¬ SurvivesResume plainText namingHandler ⟨pairCards, .frontier⟩ Ends :=
  not_survives [0, 0, 0, 0, 1, 1, 1, 1] [0, 0, 0, 0] "b" (.str "own") (.str "foreign")
    (by decide +kernel) (by decide)

theorem object_not_kept (Ends : TaskBoardRevision → Prop) :
    ¬ SurvivesResume plainText objectHandler loneBoard Ends := by
  intro h
  have hr : (savedAndResumed plainText objectHandler loneBoard [0, 0, 0, 1] [0, 0, 0]).map
      (fun p => (requestedIds p.1.log, (p.2.2.cardResults.get? "a").isSome)) =
        some (["a"], false) := by decide +kernel
  obtain ⟨⟨s, t, final⟩, hp, he⟩ := Option.map_eq_some_iff.mp hr
  obtain ⟨hlog, hnone⟩ := Prod.mk.inj he
  have hkeeps := (h.keeps hp (by rw [hlog]; exact List.cons_ne_nil _ _)).1
  obtain ⟨-, -, -, results, x, -, hx⟩ := hkeeps.requested "a" (.inl (hlog ▸ List.mem_cons_self))
  rw [hx] at hnone
  cases hnone

def setbackBoard : TaskBoardRevision :=
  { boardId := "board"
    revisionId := "rev-0"
    graph := { graphId := "g", cards := [{ id := "a", objective := "write", failurePolicy := "optional" },
      { id := "b", objective := "write", dependsOn := ["a"] }] }
    cardResults := [("a", { cardId := "a", status := "setback" })] }

def statusHandler : CardHandler := fun _ results =>
  .value (match results with
    | (_, x) :: _ => .str x.status
    | [] => .none)

def setbackHandled : HandledBoard plainText where
  revision := setbackBoard
  handler := statusHandler
  valid := (validate_iff setbackBoard).mp rfl
  normal := normal_of_parts (by decide +kernel) rfl
  answers := by
    intro card _ _ results
    refine ⟨_, answers_value ?_⟩
    cases results with
    | nil => rfl
    | cons p results => rfl

theorem setback_differs : ¬ SurvivesResume plainText statusHandler ⟨setbackBoard, .frontier⟩
    (SameAsUninterrupted plainText statusHandler ⟨setbackBoard, .frontier⟩) := by
  intro h
  have hr : (savedAndResumed plainText statusHandler ⟨setbackBoard, .frontier⟩
      [0, 0, 0, 0, 2, 1, 1, 1, 1] [0, 0, 0, 0]).map (fun p => ((requestedIds p.1.log).isEmpty,
        (p.2.2.cardResults.get? "b").map TaskBoardCardResult.preview)) =
          some (false, some (.str "completed")) := by decide +kernel
  have hw : (closing plainText ⟨setbackBoard, .frontier⟩ (driving plainText statusHandler
      ⟨setbackBoard, .frontier⟩ TickState.initial [0, 0, 0, 0, 2, 1, 1, 1, 1, 2, 2, 2])).map
        (fun whole => (whole.cardResults.get? "b").map TaskBoardCardResult.preview) =
          some (some (.str "setback")) := by decide +kernel
  obtain ⟨⟨s, t, final⟩, hp, he⟩ := Option.map_eq_some_iff.mp hr
  obtain ⟨hlog, hfinal⟩ := Prod.mk.inj he
  obtain ⟨whole, hclosed, hwhole⟩ := Option.map_eq_some_iff.mp hw
  obtain ⟨u, hu, hf, hc⟩ := closing_some hclosed
  obtain ⟨whole', hc', hget⟩ := (h.keeps hp (by simpa using hlog)).2 _ u {} {}
    (driving_meets _ _ _ _ _) hu hf
  rw [hc] at hc'
  cases hc'
  rw [hget "b", hwhole] at hfinal
  revert hfinal
  decide

/-- A tick fails to survive on proposed patches, results of other cards, results JSON does not keep
and, where the results are compared, cards that look as if they had ended. -/
theorem resume_loses :
    (∀ Ends, ¬ SurvivesResume plainText proposingHandler ⟨pairCards, .batch⟩ Ends) ∧
      (∀ Ends, ¬ SurvivesResume plainText namingHandler ⟨pairCards, .frontier⟩ Ends) ∧
      (∀ Ends, ¬ SurvivesResume plainText objectHandler loneBoard Ends) ∧
      ¬ ∀ b : HandledBoard plainText, SurvivesResume plainText b.handler ⟨b.revision, .frontier⟩
        (SameAsUninterrupted plainText b.handler ⟨b.revision, .frontier⟩) :=
  ⟨proposal_not_kept, foreign_not_kept, object_not_kept, fun h => setback_differs (h setbackHandled)⟩

theorem lone_survives : ∃ p, savedAndResumed plainText textHandler ⟨loneBoard.revision, .batch⟩
    [0, 0, 0, 1] [0, 0, 0, 1] = some p ∧
      Keeps plainText textHandler ⟨loneBoard.revision, .batch⟩ p.1 p.2.1 p.2.2 := by
  have hr : (savedAndResumed plainText textHandler ⟨loneBoard.revision, .batch⟩
      [0, 0, 0, 1] [0, 0, 0, 1]).map (fun p => (requestedIds p.1.log).isEmpty) = some false := by
    decide +kernel
  obtain ⟨⟨s, t, final⟩, hp, hlog⟩ := Option.map_eq_some_iff.mp hr
  exact ⟨_, hp, ((ticks_survive_resume loneHandled).1.keeps hp (by simpa using hlog)).1⟩

end Agently.TaskBoard
