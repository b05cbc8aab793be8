import Mathlib
import Agently.TaskBoard.BatchTicks

/-! # Batch and frontier scheduling

Source: `TaskBoard/TaskBoardRuntime.py`. One frontier tick and batch ticks until no card is
runnable end in the same results and the same status, as long as what has not ended does not look
as if it had. -/

namespace Agently.TaskBoard

open Agently.Lib Agently.Utils
open Agently.TaskDAGValidation (Fault strip)

section Agreement

/-- Batch ticks, each on the revision of the one before, until no card is runnable. -/
inductive BatchPlay (reprOf : Value → String) (handler : CardHandler) :
    TaskBoardRevision → TaskBoardRevision → Prop
  | done {r : TaskBoardRevision} (ended : r.runnable = []) : BatchPlay reprOf handler r r
  | tick {r next last : TaskBoardRevision} (as : List TickAction) (s : TickState) (report : CloseReport) (fresh : Fresh)
      (runnable : r.runnable ≠ [])
      (driven : (tick reprOf ⟨r, .batch⟩).Meets (Drives handler) TickState.initial as)
      (run : (tick reprOf ⟨r, .batch⟩).run TickState.initial as = some s)
      (finished : s.finished = true)
      (closed : finalizeTickSnapshot reprOf ⟨r, .batch⟩ s.data report fresh = .ok next)
      (rest : BatchPlay reprOf handler next last) : BatchPlay reprOf handler r last

variable {reprOf : Value → String} {r last : TaskBoardRevision}

theorem BatchPlay.played {b : HandledBoard reprOf} {ho : b.revision.StillOpen}
    {xs : List TaskBoardCardResult} (he : b.Ends) (h : BatchPlay reprOf b.handler r last)
    (hp : Played b ho xs r) : ∃ ys, Played b ho ys last ∧ last.runnable = [] := by
  induction h generalizing xs with
  | done ended => exact ⟨xs, hp, ended⟩
  | tick as s report fresh runnable driven run finished closed rest ih =>
    obtain ⟨next, hrec, hclosed⟩ := batch_finished (b := hp.board he) driven run finished runnable
      report fresh
    have hnext := Except.ok.inj (hclosed.symm.trans closed)
    subst hnext
    exact ih (hp.advance he runnable hrec)

/-- Whatever the interleavings, closing a finished frontier tick gives the results and the status
that batch ticks come to. -/
def Agrees (reprOf : Value → String) (handler : CardHandler) (r : TaskBoardRevision) : Prop :=
  ∀ as s last report fresh,
    (tick reprOf ⟨r, .frontier⟩).Meets (Drives handler) TickState.initial as →
      (tick reprOf ⟨r, .frontier⟩).run TickState.initial as = some s → s.finished = true →
        BatchPlay reprOf handler r last →
          ∃ final, finalizeTickSnapshot reprOf ⟨r, .frontier⟩ s.data report fresh = .ok final ∧
            (∀ id, final.cardResults.get? id = last.cardResults.get? id) ∧
            final.status = last.status

def OwnResults (b : HandledBoard reprOf) (final : TaskBoardRevision) : Prop :=
  ∀ id, final.cardResults.get? id = b.revision.cardResults.get? id ∨
    ∃ card ∈ b.revision.graph.cards, card.id = id ∧
      final.cardResults.get? id = b.result card (dependencyResultsIn final.cardResults.get? card)

theorem Played.own {b : HandledBoard reprOf} {ho : b.revision.StillOpen}
    {xs : List TaskBoardCardResult} (h : Played b ho xs r) : OwnResults b r := by
  intro id
  by_cases hid : id ∈ xs.map TaskBoardCardResult.cardId
  · obtain ⟨x, hx, rfl⟩ := List.mem_map.mp hid
    obtain ⟨card, hc, he, -, hv⟩ := h.made hx
    exact .inr ⟨card, hc, he, (h.get?_mem hx).trans hv.symm⟩
  · exact .inl (h.get?_not_mem hid)

theorem coerce_foreign {card : TaskBoardCard} {x : TaskBoardCardResult} (h : x.cardId ≠ card.id) :
    ∃ message, coerceCardResult reprOf card.id (.result x) = .error (.valueError message) := by
  unfold coerceCardResult
  simp only
  rw [if_pos h]
  exact ⟨_, rfl⟩

/-- One frontier tick agrees with batch ticks until nothing is runnable. -/
theorem schedulers_agree (b : HandledBoard reprOf) (hs : b.Settles) (he : b.Ends) :
    Agrees reprOf b.handler b.revision ∧
      (∀ last, BatchPlay reprOf b.handler b.revision last → OwnResults b last) ∧
      ∀ (card : TaskBoardCard) (x : TaskBoardCardResult), x.cardId ≠ card.id →
        ∃ message, coerceCardResult reprOf card.id (.result x) = .error (.valueError message) := by
  refine ⟨?_, ?_, fun card x hx => coerce_foreign hx⟩
  · intro as s last report fresh hm hr hf hbatch
    rcases frontier_run hm hr with rfl | ⟨xs, r, hfront⟩
    · cases hf
    · have hstart : Played b hs.stillOpen [] b.revision := played_start
      obtain ⟨ys, hplayed, hended⟩ := hbatch.played he hstart
      obtain ⟨hfplayed, hfended⟩ := hfront.played_out hs hf
      have hnone : ∀ id ∈ last.runnable, id ∈ ys.map TaskBoardCardResult.cardId := by
        rw [hended]
        intro id hid
        cases hid
      obtain ⟨hget, -, hstatus⟩ := hfplayed.agree hfended hplayed hnone
      exact ⟨r, hfront.finalized report fresh, hget, hstatus⟩
  · intro last hbatch
    have hstart : Played b hs.stillOpen [] b.revision := played_start
    obtain ⟨ys, hplayed, -⟩ := hbatch.played he hstart
    exact hplayed.own

end Agreement

section Differences

variable {reprOf : Value → String} {handler : CardHandler} {r f l : TaskBoardRevision}

def closing (reprOf : Value → String) (board : TaskBoard) (as : List TickAction) :
    Option TaskBoardRevision :=
  ((tick reprOf board).run TickState.initial as).bind fun s =>
    if s.finished then (finalizeTickSnapshot reprOf board s.data {} {}).toOption else none

theorem closing_some {board : TaskBoard} {as : List TickAction} {final : TaskBoardRevision}
    (h : closing reprOf board as = some final) :
    ∃ s, (tick reprOf board).run TickState.initial as = some s ∧ s.finished = true ∧
      finalizeTickSnapshot reprOf board s.data {} {} = .ok final := by
  obtain ⟨s, hrun, hs⟩ := Option.bind_eq_some_iff.mp h
  by_cases hf : s.finished = true
  · rw [if_pos hf] at hs
    cases hc : finalizeTickSnapshot reprOf board s.data {} {} with
    | error e =>
      rw [hc] at hs
      cases hs
    | ok r =>
      rw [hc] at hs
      cases hs
      exact ⟨s, hrun, hf, hc⟩
  · rw [if_neg hf] at hs
    cases hs

theorem answering_drives (v : HandlerReturn) (tasks : List Nat) (s : TickState)
    (M : Machine TickState TickAction) : M.Meets (Drives fun _ _ => v) s (answering v tasks) := by
  induction tasks generalizing s with
  | nil => trivial
  | cons n tasks ih => exact ⟨fun _ _ _ _ => rfl, fun t _ => ih t⟩

theorem not_agrees {v : HandlerReturn} {ns ms : List Nat}
    (hf : closing reprOf ⟨r, .frontier⟩ (answering v ns) = some f)
    (hl : closing reprOf ⟨r, .batch⟩ (answering v ms) = some l) (hne : r.runnable ≠ [])
    (hend : l.runnable = [])
    (hdiff : (∀ id, f.cardResults.get? id = l.cardResults.get? id) → f.status ≠ l.status) :
    ¬ Agrees reprOf (fun _ _ => v) r := by
  intro h
  obtain ⟨s, hrun, hfin, hclosed⟩ := closing_some hf
  obtain ⟨t, hrun', hfin', hclosed'⟩ := closing_some hl
  have hbatch : BatchPlay reprOf (fun _ _ => v) r l :=
    .tick _ t {} {} hne (answering_drives v ms _ _) hrun' hfin' hclosed' (.done hend)
  obtain ⟨final, hfinal, hget, hstatus⟩ :=
    h _ s l {} {} (answering_drives v ns _ _) hrun hfin hbatch
  rw [hclosed] at hfinal
  cases hfinal
  exact hdiff hget hstatus

instance (s : String) : Decidable (Clean s) := inferInstanceAs (Decidable (_ ∧ _))

instance : Decidable (ReadBack reprOf r) :=
  decidable_of_iff (Clean r.boardId ∧ Clean r.revisionId ∧ Clean r.graph.graphId ∧
      r.graph.schemaVersion ≠ "" ∧
      (∀ card ∈ r.graph.cards, cardFromValue reprOf card.toDict = .ok card) ∧ r.status ≠ "" ∧
      (∀ p ∈ r.cardResults, cardResultFromValue reprOf p.2.toDict = .ok p.2) ∧
      r.schemaVersion ≠ "")
    ⟨fun ⟨b, v, g, gv, c, s, x, sv⟩ => ⟨b, v, g, gv, c, s, x, sv⟩,
      fun ⟨b, v, g, gv, c, s, x, sv⟩ => ⟨b, v, g, gv, c, s, x, sv⟩⟩

theorem normal_of_parts (hread : ReadBack reprOf r) (hkept : JsonStable r.toDict) :
    r.Normal reprOf :=
  ⟨hread.reads, hkept⟩

theorem answers_value {card : TaskBoardCard} {v : Value} (hv : JsonStable v) :
    Answers reprOf card (.value v) { cardId := card.id, status := "completed", preview := v } where
  coerced := rfl
  own := rfl
  plain := rfl
  kept := by
    unfold TaskBoardCardResult.toDict
    rw [jsonStable_dict]
    simp only [List.forall_mem_cons, jsonStable_str, jsonStable_dictList, true_and]
    refine ⟨rfl, hv, ?_, ?_, ?_, rfl, rfl, ?_⟩ <;> simp

theorem ends_value {b : HandledBoard reprOf} {v : Value} (hb : b.handler = fun _ _ => .value v) :
    b.Ends := by
  intro card _ results x hx
  have hok := hx.coerced
  rw [hb] at hok
  cases hok
  show "completed" ∈ terminalCardStatuses
  decide

end Differences

def closedBoard : TaskBoardRevision := { loneBoard.revision with status := "completed" }

def textHandler : CardHandler := fun _ _ => .value (.str "text")

theorem not_agrees_recorded {v : HandlerReturn} (ns ms : List Nat) (id : String)
    (hf : (closing reprOf ⟨r, .frontier⟩ (answering v ns)).map
      (fun f => (f.cardResults.get? id).isSome) = some false)
    (hl : (closing reprOf ⟨r, .batch⟩ (answering v ms)).map
      (fun l => ((l.cardResults.get? id).isSome, l.runnable)) = some (true, []))
    (hne : r.runnable ≠ []) : ¬ Agrees reprOf (fun _ _ => v) r := by
  obtain ⟨f, hf, hfa⟩ := Option.map_eq_some_iff.mp hf
  obtain ⟨l, hl, hla⟩ := Option.map_eq_some_iff.mp hl
  obtain ⟨hla, hend⟩ := Prod.mk.inj hla
  refine not_agrees hf hl hne hend ?_
  intro hget _
  rw [hget id, hla] at hfa
  cases hfa

def closedHandled : HandledBoard plainText where
  revision := closedBoard
  handler := textHandler
  valid := (validate_iff closedBoard).mp rfl
  normal := normal_of_parts (by decide +kernel) rfl
  answers := fun _ _ _ _ => ⟨_, answers_value rfl⟩

theorem closedBoard_differs : ¬ Agrees plainText textHandler closedBoard :=
  not_agrees_recorded [0, 0, 1] [0, 0, 0, 1, 1, 1, 2] "a" (by decide +kernel) (by decide +kernel)
    (by decide +kernel)

def errorBoard : TaskBoardRevision :=
  { boardId := "board"
    revisionId := "rev-0"
    graph := { graphId := "g", cards := [{ id := "x", objective := "write", status := "error" },
      { id := "y", objective := "write" }] } }

def skipHandler : CardHandler := fun _ _ => .mapping [("status", .str "skipped")]

theorem skipHandler_coerced {card : TaskBoardCard} (hc : card ∈ errorBoard.graph.cards)
    (results : Dict String TaskBoardCardResult) :
    coerceCardResult plainText card.id (skipHandler card results) =
      .ok { cardId := card.id, status := "skipped" } := by
  simp only [errorBoard, List.mem_cons, List.not_mem_nil, or_false] at hc
  rcases hc with rfl | rfl
  · show coerceCardResult plainText "x" (.mapping [("status", .str "skipped")]) =
      .ok { cardId := "x", status := "skipped" }
    decide +kernel
  · show coerceCardResult plainText "y" (.mapping [("status", .str "skipped")]) =
      .ok { cardId := "y", status := "skipped" }
    decide +kernel

theorem skipHandler_answers {card : TaskBoardCard} (hc : card ∈ errorBoard.graph.cards)
    (results : Dict String TaskBoardCardResult) :
    Answers plainText card (skipHandler card results) { cardId := card.id, status := "skipped" } where
  coerced := skipHandler_coerced hc results
  own := rfl
  plain := rfl
  kept := rfl

def errorHandled : HandledBoard plainText where
  revision := errorBoard
  handler := skipHandler
  valid := (validate_iff errorBoard).mp rfl
  normal := normal_of_parts (by decide +kernel) rfl
  answers := fun _ hc _ results => ⟨_, skipHandler_answers hc results⟩

theorem errorHandled_ends : errorHandled.Ends := by
  intro card hc results x hx
  cases (skipHandler_coerced hc results).symm.trans hx.coerced
  show "skipped" ∈ terminalCardStatuses
  decide

theorem errorBoard_differs : ¬ Agrees plainText skipHandler errorBoard := by
  have hf : (closing plainText ⟨errorBoard, .frontier⟩ (answering (.mapping [("status", .str "skipped")])
      [0, 0, 0, 0, 2, 2, 2, 2, 1, 1, 1, 1])).map TaskBoardRevision.status = some "failed" := by
    decide +kernel
  have hl : (closing plainText ⟨errorBoard, .batch⟩ (answering (.mapping [("status", .str "skipped")])
      [0, 0, 0, 0, 2, 2, 2, 1, 1, 1, 3])).map (fun l => (l.status, l.runnable)) =
      some ("running", []) := by
    decide +kernel
  obtain ⟨f, hf, hfs⟩ := Option.map_eq_some_iff.mp hf
  obtain ⟨l, hl, hls⟩ := Option.map_eq_some_iff.mp hl
  obtain ⟨hls, hend⟩ := Prod.mk.inj hls
  refine not_agrees hf hl (by decide +kernel) hend ?_
  intro _ hstatus
  rw [hfs, hls] at hstatus
  revert hstatus
  decide

def objectHandler : CardHandler := fun _ _ => .value (.object "<object>" [])

theorem object_differs : ¬ Agrees plainText objectHandler loneBoard.revision :=
  not_agrees_recorded [0, 0, 0, 1, 1, 1] [0, 0, 0, 1, 1, 1, 2] "a" (by decide +kernel)
    (by decide +kernel) (by decide +kernel)

def foreignBoard : TaskBoard where
  revision :=
    { boardId := "board"
      revisionId := "rev-0"
      graph := { graphId := "g", cards := [{ id := "a", objective := "write" },
        { id := "b", objective := "write", status := "completed" }] }
      cardResults := [("b", { cardId := "b", status := "completed", preview := .str "own" })] }
  scheduler := .frontier

def foreignAnswer : HandlerReturn := .mapping [("card_id", .str "b"), ("preview", .str "foreign")]

/-- The schedulers disagree on boards that only break one of the conditions, and a mapping that
names another card is recorded over that card's result. -/
theorem schedulers_differ :
    (¬ ∀ b : HandledBoard plainText, b.Ends → b.revision.StillOpen →
      Agrees plainText b.handler b.revision) ∧
    (¬ ∀ b : HandledBoard plainText, b.Ends → lower (strip b.revision.status) ≠ "completed" →
      Agrees plainText b.handler b.revision) ∧
    ¬ Agrees plainText objectHandler loneBoard.revision ∧
    (closing plainText foreignBoard (answering foreignAnswer [0, 0, 0, 1, 1, 1, 1])).map
      (fun f => (f.cardResults.get? "b").map TaskBoardCardResult.preview) =
        some (some (.str "foreign")) := by
  refine ⟨?_, ?_, object_differs, by decide +kernel⟩
  · intro h
    refine closedBoard_differs (h closedHandled (ends_value rfl) ?_)
    show ∀ card ∈ [loneCard], _
    decide +kernel
  · exact fun h => errorBoard_differs (h errorHandled errorHandled_ends (by decide +kernel))

def loneHandled : HandledBoard plainText where
  revision := loneBoard.revision
  handler := textHandler
  valid := loneBoard_valid
  normal := normal_of_parts (by decide +kernel) rfl
  answers := fun _ _ _ _ => ⟨_, answers_value rfl⟩

theorem loneHandled_settles : loneHandled.Settles where
  stillOpen := by
    show ∀ card ∈ [loneCard], _
    decide +kernel
  running := show lower (strip "running") ≠ "completed" by decide +kernel

theorem loneHandled_agrees : Agrees plainText textHandler loneBoard.revision :=
  (schedulers_agree loneHandled loneHandled_settles (ends_value rfl)).1

end Agently.TaskBoard
