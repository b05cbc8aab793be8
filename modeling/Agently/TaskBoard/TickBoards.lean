import Agently.TaskBoard.FrontierTicks
import Agently.TaskBoard.RereadRevisions

/-! # The revisions of a tick

Source: `TaskBoard/TaskBoardRuntime.py`. A tick keeps its revision in the runtime data and reads
it back from there; what holds of the board it starts from and is kept by applying results and by
reading back holds of every revision of the tick. -/

namespace Agently.TaskBoard

open Agently.Lib Agently.Utils
open Agently.TaskDAGValidation (Fault bind_eq_ok)

/-- A step of a task, or the tick is saved and loaded into a fresh execution that resumes it. -/
inductive TickMove where
  | act (action : TickAction)
  | reload

def reloadingStep (reprOf : Value → String) (board : TaskBoard) (s : TickState) :
    TickMove → Option TickState
  | .act action => (tick reprOf board).step s action
  | .reload => some (resumePending s.data)

def reloadingTick (reprOf : Value → String) (board : TaskBoard) : Machine TickState TickMove :=
  ⟨reloadingStep reprOf board⟩

section Stored

variable {reprOf : Value → String} {board : TaskBoard} {P : TaskBoardRevision → Prop}
  {s t : TickState}

/-- The revisions in the runtime data are those of boards with `P`. -/
structure Stored (P : TaskBoardRevision → Prop) (d : TickData) : Prop where
  json : ∀ v, d.revisionJson = some v → ∃ r, P r ∧ Rewritten r.toDict v
  revision : ∀ v, d.revision = some v → ∃ r, P r ∧ Rewritten r.toDict v

theorem stored_initial : Stored P TickState.initial.data := ⟨by rintro v ⟨⟩, by rintro v ⟨⟩⟩

theorem Stored.read (h : Stored P s.data) (hread : ∀ r r', P r → RereadBoard r r' → P r')
    (hb : P board.revision) {r : TaskBoardRevision}
    (hr : revisionFromState reprOf board s.data = .ok r) : P r := by
  unfold revisionFromState at hr
  split at hr
  · rename_i v hv
    obtain ⟨q, hq, hw⟩ := h.json v hv
    exact hread q r hq (board_reread hw hr)
  · split at hr
    · rename_i v hv
      obtain ⟨q, hq, hw⟩ := h.revision v hv
      exact hread q r hq (board_reread hw hr)
    · cases hr
      exact hb

theorem Stored.finishDispatch (h : Stored P s.data) (n : Nat) {r : TaskBoardRevision} (hr : P r) :
    Stored P (finishDispatch s n (prepareFrontierDispatch s.data r)).data := by
  cases hd : prepareFrontierDispatch s.data r with
  | error e => exact h
  | ok p =>
    obtain ⟨e, ids, complete⟩ := p
    obtain ⟨-, v, plan, hv, -, rfl, -⟩ := prepareFrontierDispatch_ok hd
    constructor
    · intro w hw
      cases hw
      exact ⟨r, hr, .inr hv⟩
    · exact h.revision

structure Applies (reprOf : Value → String) (board : TaskBoard) (P : TaskBoardRevision → Prop)
    (s : TickState) (a : TickAction) : Prop where
  frontier : ∀ result current next, s.tasks[a.task]? = some (.collecting result) →
    board.scheduler = .frontier →
    revisionFromState reprOf board s.data = .ok current → P current →
    applyFrontierCardResult reprOf a.input.fresh current result = .ok next → P next
  batch : ∀ values results next, s.tasks[a.task]? = some (.applying values) →
    readResults reprOf values = .ok results →
    applyCardResults reprOf a.input.fresh board.revision results = .ok next → P next

theorem Stored.collectFrontier (h : Stored P s.data) (hread : ∀ r r', P r → RereadBoard r r' → P r')
    (hb : P board.revision) {n : Nat} {fresh : Fresh} {result : TaskBoardCardResult}
    (happly : ∀ current next, revisionFromState reprOf board s.data = .ok current → P current →
      applyFrontierCardResult reprOf fresh current result = .ok next → P next) :
    Stored P (collectFrontier reprOf board s n fresh result).data := by
  unfold TaskBoard.collectFrontier
  split
  · exact h
  · rename_i current hcurrent
    split
    · exact h
    · rename_i next hnext
      split
      · exact h
      · rename_i collected _
        exact Stored.finishDispatch (s := { s with data := { s.data with
          collectedJson := some collected } }) ⟨h.json, h.revision⟩ n
          (happly current next hcurrent (h.read hread hb hcurrent) hnext)

theorem Stored.step {a : TickAction} (h : Stored P s.data)
    (hread : ∀ r r', P r → RereadBoard r r' → P r') (hb : P board.revision)
    (happly : Applies reprOf board P s a) (hs : (tick reprOf board).step s a = some t) :
    Stored P t.data := by
  obtain ⟨task, ht, hs⟩ := Option.bind_eq_some_iff.mp hs
  cases task with
  | preparing =>
    cases hs
    unfold prepareTick
    split
    · exact Stored.finishDispatch (s := { s with data := { s.data with
        collectedJson := some [], frontierClosed := false, topology := some "frontier" } })
        ⟨h.json, h.revision⟩ a.task hb
    · split
      · exact h
      · split
        · refine ⟨h.json, ?_⟩
          intro v hv
          cases hv
          exact ⟨board.revision, hb, .inl rfl⟩
        · exact ⟨h.json, h.revision⟩
  | requesting ids complete =>
    cases ids with
    | cons id rest =>
      cases hs
      exact h
    | nil =>
      cases complete with
      | true =>
        cases hs
        exact ⟨h.json, h.revision⟩
      | false =>
        cases hs
        exact h
  | requested id =>
    simp only [stepTask] at hs
    split at hs
    · cases hs
      exact h
    · cases hs
      exact h
  | running id card results =>
    simp only [stepTask] at hs
    split at hs
    · cases hs
      exact h
    · split at hs
      · cases hs
        exact h
      · cases hs
        exact h
  | collecting result =>
    simp only [stepTask] at hs
    split at hs
    · rename_i hsched
      cases hs
      exact h.collectFrontier hread hb fun current next hc hp hn =>
        happly.frontier result current next ht hsched hc hp hn
    · cases hs
      unfold collectBatch
      dsimp only
      split
      · exact ⟨h.json, h.revision⟩
      · exact ⟨h.json, h.revision⟩
  | applyingFrontier =>
    cases hs
    cases hf : applyFrontierResults reprOf board s.data with
    | error e => exact h
    | ok d =>
      obtain ⟨next, hnext, hd⟩ := bind_eq_ok.mp hf
      obtain ⟨plan, -, hd⟩ := bind_eq_ok.mp hd
      cases hd
      refine ⟨h.json, ?_⟩
      intro v hv
      cases hv
      exact ⟨next, h.read hread hb hnext, .inl rfl⟩
  | applying values =>
    cases hs
    cases hf : applyResults reprOf board s.data a.input.fresh values with
    | error e => exact h
    | ok d =>
      obtain ⟨results, hresults, hd⟩ := bind_eq_ok.mp hf
      obtain ⟨next, hnext, hd⟩ := bind_eq_ok.mp hd
      cases hd
      refine ⟨h.json, ?_⟩
      intro v hv
      cases hv
      exact ⟨next, happly.batch values results next ht hresults hnext, .inl rfl⟩
  | returned => cases hs
  | raised e => cases hs

theorem stored_resume {d : TickData} (h : Stored P d) : Stored P (resumePending d).data := by
  unfold resumePending
  dsimp only
  split
  · split
    · exact h
    · exact h
  · split
    · split
      · exact h
      · exact h
    · exact h

def AppliesMove (reprOf : Value → String) (board : TaskBoard) (P : TaskBoardRevision → Prop)
    (s : TickState) : TickMove → Prop
  | .act a => Applies reprOf board P s a
  | .reload => True

theorem stored_run {moves : List TickMove} (hread : ∀ r r', P r → RereadBoard r r' → P r')
    (hb : P board.revision)
    (happly : (reloadingTick reprOf board).Meets (AppliesMove reprOf board P) TickState.initial moves)
    (hr : (reloadingTick reprOf board).run TickState.initial moves = some s) : Stored P s.data := by
  have hstep : ∀ s m t, Stored P s.data → AppliesMove reprOf board P s m →
      (reloadingTick reprOf board).step s m = some t → Stored P t.data := by
    intro s m t h hc ht
    cases m with
    | act a => exact Stored.step h hread hb hc ht
    | reload =>
      cases ht
      exact stored_resume h
  exact (reloadingTick reprOf board).run_invariant_meeting (I := fun s => Stored P s.data) hstep
    stored_initial happly hr

theorem finalize_stored {report : CloseReport} {fresh : Fresh} {next : TaskBoardRevision}
    (h : Stored P s.data) (hread : ∀ r r', P r → RereadBoard r r' → P r')
    (hcut : s.data.revision = none → s.data.revisionJson = none →
      incompleteRevision reprOf board s.data report fresh = .ok next → P next)
    (hf : finalizeTickSnapshot reprOf board s.data report fresh = .ok next) : P next := by
  unfold finalizeTickSnapshot at hf
  split at hf
  · rename_i v hv
    obtain ⟨r, hr, hw⟩ := h.revision v hv
    exact hread r next hr (board_reread hw hf)
  · rename_i hnone
    split at hf
    · rename_i v hv
      obtain ⟨r, hr, hw⟩ := h.json v hv
      exact hread r next hr (board_reread hw hf)
    · rename_i hjson
      exact hcut hnone hjson hf

end Stored

end Agently.TaskBoard
