import Mathlib
import Agently.TaskBoard.TickAccounts

/-! # Closing a tick of either scheduler

Source: `_finalize_tick_snapshot` and `store_revision_state` of
`TaskBoard/TaskBoardRuntime.py`. A frontier tick stores its revision as soon as it has asked for
cards; a tick that is closed then installs what is stored, and a card that has not returned is
not recorded at all. -/

namespace Agently.TaskBoard

open Agently.Lib Agently.Utils
open Agently.TaskDAGValidation (Fault bind_eq_ok)

section Frontier

variable {reprOf : Value → String} {answered : String → TaskBoardCardResult → Prop}
  {board : TaskBoard} {c c' : Dict String Value} {s t : TickState} {a : TickAction}
  {r next : TaskBoardRevision}

/-- What JSON holds as collected can be read, and is read as an answer of the card. -/
structure Entries (reprOf : Value → String) (answered : String → TaskBoardCardResult → Prop)
    (c : Dict String Value) : Prop where
  stable : ∀ id w, c.get? id = some w → JsonStable w
  made : ∀ id w, c.get? id = some w → ∃ x y, answered id x ∧ Rewritten x.toDict w ∧
    cardResultFromValue reprOf w = .ok y ∧ y.Normal reprOf

/-- Through JSON the results of the revision become those of the collected values. -/
structure Storing (reprOf : Value → String) (board : TaskBoard) (c : Dict String Value)
    (r : TaskBoardRevision) : Prop where
  valid : ValidRevision r
  returned : ∀ id w y, c.get? id = some w → cardResultFromValue reprOf w = .ok y →
    ∃ x, r.cardResults.get? id = some x ∧
      ∀ w', reloaded x.toDict = some w' → cardResultFromValue reprOf w' = .ok y
  others : ∀ id, c.get? id = none →
    (r.cardResults.get? id).isSome = (board.revision.cardResults.get? id).isSome

theorem Storing.read {v : Value} {fresh : String} (h : Storing reprOf board c r)
    (he : Entries reprOf answered c) (hv : reloaded r.toDict = some v)
    (hr : revisionFromValue reprOf fresh v = .ok next) : HoldsCollected reprOf board c next := by
  have hresults := results_of_json hv hr
  refine ⟨(board_reread (.inr hv) hr).valid h.valid, ?_, ?_⟩
  · intro id w hw
    obtain ⟨x, y, -, -, hy, hnormal⟩ := he.made id w hw
    obtain ⟨x', hget, hreload⟩ := h.returned id w y hw hy
    refine ⟨y, hy, hnormal.reads, ?_⟩
    have hrel := hresults id
    rw [hget] at hrel
    generalize next.cardResults.get? id = z at hrel
    cases hrel with
    | some hz =>
      obtain ⟨w', hw', hz⟩ := hz
      cases hz.symm.trans (hreload w' hw')
      rfl
  · intro id hid
    rw [← h.others id (Dict.get?_eq_none_iff.mpr hid)]
    have hrel := hresults id
    generalize r.cardResults.get? id = x at hrel
    generalize next.cardResults.get? id = z at hrel
    cases hrel with
    | none => rfl
    | some _ => rfl

theorem kept_entry {x : TaskBoardCardResult} (he : Entries reprOf answered c)
    (hc : reloadedEntries (Dict.set c x.cardId x.toDict) = some c') {id : String}
    (hid : id ≠ x.cardId) : c'.get? id = c.get? id := by
  have hrel := reloaded_lookup hc id
  rw [Dict.get?_set_of_ne c x.toDict (Ne.symm hid)] at hrel
  cases hw : c.get? id with
  | none =>
    rw [hw] at hrel
    generalize c'.get? id = z at hrel
    cases hrel
    rfl
  | some w =>
    rw [hw] at hrel
    generalize c'.get? id = z at hrel
    cases hrel with
    | some hz => rw [← hz, he.stable id w hw]

theorem new_entry {x : TaskBoardCardResult}
    (hc : reloadedEntries (Dict.set c x.cardId x.toDict) = some c') :
    ∃ w, c'.get? x.cardId = some w ∧ reloaded x.toDict = some w := by
  have hrel := reloaded_lookup hc x.cardId
  rw [Dict.get?_set_self] at hrel
  generalize c'.get? x.cardId = z at hrel
  cases hrel with
  | some hz => exact ⟨_, rfl, hz⟩

theorem Entries.collect {x : TaskBoardCardResult} (he : Entries reprOf answered c)
    (hid : Clean x.cardId) (hx : answered x.cardId x)
    (hc : reloadedEntries (Dict.set c x.cardId x.toDict) = some c') :
    Entries reprOf answered c' := by
  obtain ⟨wx, hget, hreload⟩ := new_entry hc
  constructor
  · intro id w hw
    by_cases h : id = x.cardId
    · rw [h, hget] at hw
      cases hw
      exact stable_of_reloaded hreload
    · rw [kept_entry he hc h] at hw
      exact he.stable id w hw
  · intro id w hw
    by_cases h : id = x.cardId
    · rw [h, hget] at hw
      cases hw
      obtain ⟨y, hy, -⟩ := @reloaded_reads reprOf x wx hid hreload
      exact ⟨x, y, h ▸ hx, .inr hreload, hy, normal_of_reloaded hreload hy⟩
    · rw [kept_entry he hc h] at hw
      exact he.made id w hw

theorem HoldsCollected.collect {x : TaskBoardCardResult} (h : HoldsCollected reprOf board c r)
    (he : Entries reprOf answered c)
    (hc : reloadedEntries (Dict.set c x.cardId x.toDict) = some c') (hv : ValidRevision next)
    (hn : next.cardResults = r.cardResults.set x.cardId x.cleaned) : Storing reprOf board c' next := by
  obtain ⟨wx, hget, hreload⟩ := new_entry hc
  refine ⟨hv, ?_, ?_⟩
  · intro id w y hw hy
    by_cases hix : id = x.cardId
    · rw [hix, hget] at hw
      cases hw
      refine ⟨x.cleaned, ?_, ?_⟩
      · rw [hn, hix, Dict.get?_set_self]
      · intro w' hw'
        rw [reloaded_cleaned hreload hw', hy]
    · rw [kept_entry he hc hix] at hw
      obtain ⟨y', hy', -, hres⟩ := h.returned id w hw
      obtain ⟨-, y'', -, -, hy'', hnormal⟩ := he.made id w hw
      cases hy'.symm.trans hy
      cases hy''.symm.trans hy
      refine ⟨y, ?_, ?_⟩
      · rw [hn, Dict.get?_set_of_ne _ _ (Ne.symm hix), hres]
      · intro w' hw'
        rw [hnormal.reloads] at hw'
        cases hw'
        exact hnormal.reads
  · intro id hnone
    have hix : id ≠ x.cardId := by
      intro hix
      rw [hix, hget] at hnone
      cases hnone
    rw [kept_entry he hc hix] at hnone
    rw [hn, Dict.get?_set_of_ne _ _ (Ne.symm hix)]
    exact h.others id (Dict.get?_eq_none_iff.mp hnone)

/-- The task is about cards in `ids`; it closes the frontier only where there are none. -/
def TickTask.Fronts (answered : String → TaskBoardCardResult → Prop) (ids : List String) :
    TickTask → Prop
  | .requesting js complete => (∀ id ∈ js, id ∈ ids) ∧ (complete = true → ids = [])
  | .requested id | .running id _ _ => id ∈ ids
  | .collecting x => x.cardId ∈ ids ∧ answered x.cardId x ∧ x.patchProposal = none
  | .applyingFrontier => ids = []
  | .preparing | .applying _ => False
  | .returned | .raised _ => True

theorem TickTask.Fronts.mono {task : TickTask} {ids ids' : List String} (h : task.Fronts answered ids)
    (hne : ids ≠ []) (hsub : ∀ id ∈ ids, id ∈ ids') : task.Fronts answered ids' := by
  cases task with
  | requesting js complete => exact ⟨fun id hid => hsub id (h.1 id hid), fun hc => absurd (h.2 hc) hne⟩
  | requested id => exact hsub id h
  | running id card results => exact hsub id h
  | collecting x => exact ⟨hsub x.cardId h.1, h.2⟩
  | applyingFrontier => exact absurd h hne
  | preparing => exact h.elim
  | applying values => exact h.elim
  | returned => trivial
  | raised e => trivial

def Unraised (s : TickState) : Prop := ∀ e, TickTask.raised e ∉ s.tasks

theorem unraised_set {n : Nat} {task task' : TickTask} {more : List TickTask}
    (h : s.tasks[n]? = some task) (hne : ∀ e, task ≠ .raised e)
    (hu : ∀ e, TickTask.raised e ∉ s.tasks.set n task' ++ more) : Unraised s := by
  intro e hm
  obtain ⟨l₁, l₂, hl, hset⟩ := exists_split h
  apply hu e
  rw [hset]
  rw [hl] at hm
  rcases List.mem_append.mp hm with hm | hm
  · exact List.mem_append_left _ (List.mem_append_left _ hm)
  · rcases List.mem_cons.mp hm with hm | hm
    · exact absurd hm.symm (hne e)
    · exact List.mem_append_left _ (List.mem_append_right _ (List.mem_cons_of_mem _ hm))

structure Kept (reprOf : Value → String) (board : TaskBoard) (d : TickData) : Prop where
  stored : ∃ r v, d.revisionJson = some v ∧ reloaded r.toDict = some v ∧
    Storing reprOf board (d.collectedJson.getD []) r
  written : ∀ v, d.revision = some v → d.dispatchedCardIds = [] ∧
    ∃ r, v = r.toDict ∧ HoldsCollected reprOf board [] r

structure Fronting (reprOf : Value → String) (answered : String → TaskBoardCardResult → Prop)
    (board : TaskBoard) (s : TickState) : Prop where
  entries : Entries reprOf answered (s.data.collectedJson.getD [])
  running : s.data.runningCardIds = s.data.dispatchedCardIds
  clean : ∀ id ∈ s.data.dispatchedCardIds, Clean id
  asked : ∀ id w, Dict.get? (s.data.collectedJson.getD []) id = some w →
    id ∈ s.data.dispatchedCardIds
  tasks : ∀ task ∈ s.tasks, task.Fronts answered s.data.dispatchedCardIds
  kept : Unraised s → Kept reprOf board s.data

namespace Fronting

theorem collected_nil (h : Fronting reprOf answered board s) (hd : s.data.dispatchedCardIds = []) :
    s.data.collectedJson.getD [] = [] := by
  cases hc : s.data.collectedJson.getD [] with
  | nil => rfl
  | cons p rest =>
    have hget := h.asked p.1 p.2
    rw [hc, hd] at hget
    exact absurd (hget (Dict.get?_cons_self p.1 p.2 rest)) List.not_mem_nil

theorem goes (h : Fronting reprOf answered board s) {n : Nat} {task task' : TickTask}
    {more : List TickTask} {log : List TickEvent} (ht : s.tasks[n]? = some task)
    (hne : ∀ e, task ≠ .raised e) (hf : task'.Fronts answered s.data.dispatchedCardIds)
    (hmore : ∀ task ∈ more, task.Fronts answered s.data.dispatchedCardIds) :
    Fronting reprOf answered board
      { s with tasks := s.tasks.set n task' ++ more, log := log } := by
  refine ⟨h.entries, h.running, h.clean, h.asked, ?_, fun hu => h.kept (unraised_set ht hne hu)⟩
  intro u hu
  rcases List.mem_append.mp hu with hu | hu
  · exact forall_mem_set h.tasks hf u hu
  · exact hmore u hu

theorem setTask (h : Fronting reprOf answered board s) {n : Nat} {task task' : TickTask}
    (ht : s.tasks[n]? = some task) (hne : ∀ e, task ≠ .raised e)
    (hf : task'.Fronts answered s.data.dispatchedCardIds) :
    Fronting reprOf answered board (setTask s n task') := by
  have hg : Fronting reprOf answered board
      { s with tasks := s.tasks.set n task' ++ [], log := s.log } :=
    h.goes ht hne hf fun u hu => by cases hu
  rw [List.append_nil] at hg
  exact hg

theorem rewrite (h : Fronting reprOf answered board s) {d : TickData}
    (hc : d.collectedJson = s.data.collectedJson) (hr : d.runningCardIds = s.data.runningCardIds)
    (hd : d.dispatchedCardIds = s.data.dispatchedCardIds)
    (hk : Kept reprOf board s.data → Kept reprOf board d) :
    Fronting reprOf answered board { s with data := d } := by
  refine ⟨?_, ?_, ?_, ?_, ?_, fun hu => hk (h.kept hu)⟩
  · rw [hc]
    exact h.entries
  · rw [hr, hd]
    exact h.running
  · rw [hd]
    exact h.clean
  · rw [hc, hd]
    exact h.asked
  · rw [hd]
    exact h.tasks

theorem reads (h : Fronting reprOf answered board s) (hk : Kept reprOf board s.data)
    {r : TaskBoardRevision} (hr : revisionFromState reprOf board s.data = .ok r) :
    HoldsCollected reprOf board (s.data.collectedJson.getD []) r := by
  obtain ⟨q, v, hv, hreload, hq⟩ := hk.stored
  unfold revisionFromState at hr
  rw [hv] at hr
  exact hq.read h.entries hreload hr

theorem apply (h : Fronting reprOf answered board s) {n : Nat}
    (ht : s.tasks[n]? = some .applyingFrontier) :
    Fronting reprOf answered board (finishApply s n (applyFrontierResults reprOf board s.data)) := by
  have hd : s.data.dispatchedCardIds = [] := h.tasks _ (List.mem_of_getElem? ht)
  have hne : ∀ e, TickTask.applyingFrontier ≠ .raised e := fun e he => by cases he
  cases hf : applyFrontierResults reprOf board s.data with
  | error e => exact h.setTask ht hne trivial
  | ok d =>
    obtain ⟨next, hnext, hf⟩ := bind_eq_ok.mp hf
    obtain ⟨plan, -, hf⟩ := bind_eq_ok.mp hf
    cases hf
    have hset : Fronting reprOf answered board (TaskBoard.setTask s n .returned) :=
      h.setTask ht hne trivial
    refine hset.rewrite rfl rfl rfl ?_
    intro hk
    refine ⟨hk.stored, ?_⟩
    intro v hv
    cases hv
    have hread := h.reads hk hnext
    rw [h.collected_nil hd] at hread
    exact ⟨hd, next, rfl, hread⟩

theorem dispatched (h : Fronting reprOf answered board s) {n : Nat} {x : TaskBoardCardResult}
    {fresh : Fresh} {current : TaskBoardRevision} {e : TickData} {ids : List String} {complete : Bool}
    (ht : s.tasks[n]? = some (.collecting x))
    (hcurrent : revisionFromState reprOf board s.data = .ok current)
    (hnext : applyFrontierCardResult reprOf fresh current x = .ok next)
    (hc : reloadedEntries (Dict.set (s.data.collectedJson.getD []) x.cardId x.toDict) = some c')
    (hentries : Entries reprOf answered c')
    (hasked : ∀ id w, c'.get? id = some w → id ∈ s.data.dispatchedCardIds)
    (hp : prepareFrontierDispatch { s.data with collectedJson := some c' } next =
      .ok (e, ids, complete)) :
    Fronting reprOf answered board (TaskBoard.setTask { s with data := e } n (.requesting ids complete)) := by
  obtain ⟨hin, -, hplain⟩ := h.tasks _ (List.mem_of_getElem? ht)
  have hid : Clean x.cardId := h.clean _ hin
  have hne : s.data.dispatchedCardIds ≠ [] := List.ne_nil_of_mem hin
  obtain ⟨hvalid, v, plan, hv, hids, rfl, hcomplete⟩ := prepareFrontierDispatch_ok hp
  have hsub : ∀ id ∈ s.data.dispatchedCardIds, id ∈ sortedSet (s.data.dispatchedCardIds ++ ids) :=
    fun id hid => mem_sortedSet.mpr (List.mem_append_left _ hid)
  refine ⟨hentries, ?_, ?_, fun id w hw => hsub id (hasked id w hw), ?_, ?_⟩
  · show sortedSet (s.data.runningCardIds ++ ids) = sortedSet (s.data.dispatchedCardIds ++ ids)
    rw [h.running]
  · intro id hm
    rcases List.mem_append.mp (mem_sortedSet.mp hm) with hm | hm
    · exact h.clean id hm
    · refine clean_runnable hvalid ?_
      rw [hids] at hm
      unfold newCards at hm
      split at hm
      · cases hm
      · exact List.mem_of_mem_filter hm
  · refine forall_mem_set (fun u hu => (h.tasks u hu).mono hne hsub)
      ⟨fun id hm => mem_sortedSet.mpr (List.mem_append_right _ hm), ?_⟩
    intro htrue
    have hrunning : s.data.runningCardIds.isEmpty = false := by
      rw [h.running]
      simpa using hne
    rw [hcomplete] at htrue
    exact absurd ((Bool.and_eq_true _ _).mp htrue).1 (by simp [hrunning])
  · intro hu
    have hu' : Unraised s := by
      have hset : ∀ e, TickTask.raised e ∉ s.tasks.set n (.requesting ids complete) ++ [] := by
        rw [List.append_nil]
        exact hu
      exact unraised_set ht (fun e he => by cases he) hset
    have hk := h.kept hu'
    have hread := h.reads hk hcurrent
    obtain ⟨hvnext, hresults⟩ := applied_frontier hread.valid hid hplain hnext
    exact ⟨⟨next, v, rfl, hv, hread.collect h.entries hc hvnext hresults⟩,
      fun w hw => absurd (hk.written w hw).1 hne⟩

theorem collect (h : Fronting reprOf answered board s) {n : Nat} {x : TaskBoardCardResult}
    (ht : s.tasks[n]? = some (.collecting x)) (fresh : Fresh) :
    Fronting reprOf answered board (collectFrontier reprOf board s n fresh x) := by
  obtain ⟨hin, hanswered, hplain⟩ := h.tasks _ (List.mem_of_getElem? ht)
  have hid : Clean x.cardId := h.clean _ hin
  have hne : s.data.dispatchedCardIds ≠ [] := List.ne_nil_of_mem hin
  have hcollecting : ∀ e, TickTask.collecting x ≠ .raised e := fun e he => by cases he
  unfold collectFrontier
  split
  · exact h.setTask ht hcollecting trivial
  · rename_i current hcurrent
    split
    · exact h.setTask ht hcollecting trivial
    · rename_i next hnext
      split
      · exact h.setTask ht hcollecting trivial
      · rename_i c' hc'
        have hentries := h.entries.collect hid hanswered hc'
        have hasked : ∀ id w, Dict.get? c' id = some w → id ∈ s.data.dispatchedCardIds := by
          intro id w hw
          by_cases hix : id = x.cardId
          · rw [hix]
            exact hin
          · rw [kept_entry h.entries hc' hix] at hw
            exact h.asked id w hw
        dsimp only
        cases hp : prepareFrontierDispatch { s.data with collectedJson := some c' } next with
        | error e =>
          refine ⟨hentries, h.running, h.clean, hasked, forall_mem_set h.tasks trivial, ?_⟩
          intro hu
          obtain ⟨l₁, l₂, -, hset⟩ := exists_split ht
          refine absurd ?_ (hu e)
          show TickTask.raised e ∈ s.tasks.set n (.raised e)
          rw [hset]
          exact List.mem_append_right _ List.mem_cons_self
        | ok p =>
          obtain ⟨e, ids, complete⟩ := p
          exact h.dispatched ht hcurrent hnext hc' hentries hasked hp

theorem step (h : Fronting reprOf answered board s) (hb : board.scheduler = .frontier)
    (ha : AnswersWith reprOf answered s a) (ht : (tick reprOf board).step s a = some t) :
    Fronting reprOf answered board t := by
  obtain ⟨task, htask, ht⟩ := Option.bind_eq_some_iff.mp ht
  have hf := h.tasks task (List.mem_of_getElem? htask)
  cases task with
  | preparing => exact hf.elim
  | requesting ids complete =>
    have hne : ∀ e, TickTask.requesting ids complete ≠ .raised e := fun e he => by cases he
    cases ids with
    | cons id rest =>
      cases ht
      refine h.goes htask hne ⟨fun j hj => hf.1 j (List.mem_cons_of_mem _ hj), hf.2⟩ ?_
      intro u hu
      rw [List.mem_singleton.mp hu]
      exact hf.1 id List.mem_cons_self
    | nil =>
      cases complete with
      | true =>
        cases ht
        have hdata := h.rewrite (d := { s.data with frontierClosed := true }) rfl rfl rfl
          fun hk => ⟨hk.stored, hk.written⟩
        refine hdata.goes htask hne trivial ?_
        intro u hu
        rw [List.mem_singleton.mp hu]
        exact hf.2 rfl
      | false =>
        cases ht
        exact h.setTask htask hne trivial
  | requested id =>
    have hne : ∀ e, TickTask.requested id ≠ .raised e := fun e he => by cases he
    simp only [stepTask] at ht
    split at ht
    · cases ht
      exact h.setTask htask hne trivial
    · rename_i task' hstart
      obtain ⟨card, results, rfl⟩ := startCard_running hstart
      cases ht
      exact h.setTask htask hne hf
  | running id card results =>
    have hne : ∀ e, TickTask.running id card results ≠ .raised e := fun e he => by cases he
    simp only [stepTask] at ht
    split at ht
    · cases ht
      exact h.setTask htask hne trivial
    · rename_i answer hanswer
      split at ht
      · cases ht
        exact h.setTask htask hne trivial
      · rename_i x hx
        cases ht
        obtain ⟨hanswered, rfl, hplain⟩ := ha id card results answer x htask hanswer hx
        exact h.setTask htask hne ⟨hf, hanswered, hplain⟩
  | collecting x =>
    simp only [stepTask, hb] at ht
    cases ht
    exact h.collect htask a.input.fresh
  | applyingFrontier =>
    cases ht
    exact h.apply htask
  | applying values => exact hf.elim
  | returned => cases ht
  | raised e => cases ht

theorem run {as : List TickAction} (h : Fronting reprOf answered board s)
    (hb : board.scheduler = .frontier)
    (hm : (tick reprOf board).Meets (AnswersWith reprOf answered) s as)
    (hr : (tick reprOf board).run s as = some t) : Fronting reprOf answered board t :=
  (tick reprOf board).run_invariant_meeting (fun _ _ _ hu ha ht => hu.step hb ha ht) h hm hr

theorem accounts (h : Fronting reprOf answered board s) (hb : board.scheduler = .frontier)
    (hu : Unraised s) (hall : ∀ id ∈ s.data.dispatchedCardIds,
      Dict.get? (s.data.collectedJson.getD []) id ≠ none)
    {report : CloseReport} {fresh : Fresh}
    (hf : finalizeTickSnapshot reprOf board s.data report fresh = .ok next) :
    AccountsFor reprOf answered board s.data next := by
  obtain ⟨⟨q, v, hv, hreload, hq⟩, hwritten⟩ := h.kept hu
  have hholds : HoldsCollected reprOf board (s.data.collectedJson.getD []) next := by
    unfold finalizeTickSnapshot at hf
    split at hf
    · rename_i w hw
      obtain ⟨hd, r, rfl, hr⟩ := hwritten w hw
      rw [h.collected_nil hd]
      exact hr.reread hf
    · rw [hv] at hf
      exact hq.read h.entries hreload hf
  have hreq : requestedCards board.scheduler s.data = s.data.dispatchedCardIds := by
    rw [hb]
    rfl
  have hcol : collectedOf board.scheduler s.data = s.data.collectedJson.getD [] := by
    rw [hb]
    rfl
  refine ⟨hholds.valid, ?_, ?_, ?_⟩
  · rw [hreq, hcol]
    intro id hid w hw
    obtain ⟨x, y, hx, hwritten, hy, -⟩ := h.entries.made id w hw
    obtain ⟨y', hy', -, hget⟩ := hholds.returned id w hw
    cases hy'.symm.trans hy
    exact ⟨x, y, hx, hwritten, hy, hget⟩
  · rw [hreq, hcol]
    intro id hid hnone
    exact absurd hnone (hall id hid)
  · rw [hreq]
    intro id hid
    refine hholds.others id fun hm => hid ?_
    obtain ⟨w, hw⟩ := get?_of_keys hm
    exact h.asked id w hw

end Fronting

theorem fronting_prepared (hv : ValidRevision board.revision) (hb : board.scheduler = .frontier)
    (ht : (tick reprOf board).step TickState.initial a = some t) :
    Fronting reprOf answered board t ∨ t.finished = true ∧ t.data = frontierStart := by
  rw [step_initial hb ht]
  cases hp : prepareFrontierDispatch frontierStart board.revision with
  | error e => exact .inr ⟨rfl, rfl⟩
  | ok p =>
    obtain ⟨e, ids, complete⟩ := p
    obtain ⟨-, v, plan, hreload, hids, rfl, hcomplete⟩ := prepareFrontierDispatch_ok hp
    refine .inl ⟨⟨?_, ?_⟩, rfl, ?_, ?_, ?_, fun _ => ⟨⟨board.revision, v, rfl, hreload, hv, ?_, ?_⟩, ?_⟩⟩
    · intro id w hw
      cases hw
    · intro id w hw
      cases hw
    · intro id hm
      rcases List.mem_append.mp (mem_sortedSet.mp hm) with hm | hm
      · cases hm
      · rw [hids] at hm
        unfold newCards at hm
        split at hm
        · cases hm
        · exact clean_runnable hv (List.mem_of_mem_filter hm)
    · intro id w hw
      cases hw
    · intro task hm
      cases List.mem_singleton.mp hm
      refine ⟨fun id hid => mem_sortedSet.mpr (List.mem_append_right _ hid), ?_⟩
      intro htrue
      rw [hcomplete] at htrue
      have hnil : ids = [] := List.isEmpty_iff.mp ((Bool.and_eq_true _ _).mp htrue).2
      show sortedSet ([] ++ ids) = []
      rw [hnil]
      rfl
    · intro id w y hw
      cases hw
    · exact fun _ _ => rfl
    · intro w hw
      cases hw

theorem fronting_run {as : List TickAction} (hv : ValidRevision board.revision)
    (hb : board.scheduler = .frontier)
    (hm : (tick reprOf board).Meets (AnswersWith reprOf answered) TickState.initial as)
    (hr : (tick reprOf board).run TickState.initial as = some t) :
    t = TickState.initial ∨ t.data = frontierStart ∨ Fronting reprOf answered board t := by
  cases as with
  | nil => exact .inl (Option.some.inj hr).symm
  | cons a as =>
    obtain ⟨u, hu, hrun⟩ := (tick reprOf board).run_cons_eq_some.mp hr
    have hprep : Fronting reprOf answered board u ∨ u.finished = true ∧ u.data = frontierStart :=
      fronting_prepared hv hb hu
    rcases hprep with hfront | ⟨hend, hdata⟩
    · exact .inr (.inr (hfront.run hb (hm.2 u hu) hrun))
    · rw [run_finished hend hrun]
      exact .inr (.inl hdata)

end Frontier

def HasAsked (d : TickData) : Prop :=
  d.expectedCardIds ≠ none ∨ d.revisionJson ≠ none ∨ d.revision ≠ none

/-- Every card the tick has asked for has returned, and no task has raised. -/
structure AllReturned (scheduler : Scheduler) (s : TickState) : Prop where
  returned : ∀ id ∈ requestedCards scheduler s.data, (collectedOf scheduler s.data).get? id ≠ none
  unraised : Unraised s

/-- A closed tick accounts for the cards it has asked for when it is a batch tick, or when they
have all returned. While a batch tick has no revision closing it installs one. -/
theorem closed_ticks_account {reprOf : Value → String} {answered : String → TaskBoardCardResult → Prop}
    {board : TaskBoard} {as : List TickAction} {s : TickState} (hv : ValidRevision board.revision)
    (hm : (tick reprOf board).Meets (AnswersWith reprOf answered) TickState.initial as)
    (hr : (tick reprOf board).run TickState.initial as = some s) (hasked : HasAsked s.data)
    (hclose : board.scheduler = .batch ∨ AllReturned board.scheduler s) (report : CloseReport)
    (fresh : Fresh) :
    (board.scheduler = .batch → s.data.revision = none →
      ∃ next, finalizeTickSnapshot reprOf board s.data report fresh = .ok next) ∧
      ∀ next, finalizeTickSnapshot reprOf board s.data report fresh = .ok next →
        AccountsFor reprOf answered board s.data next := by
  have hstart : s ≠ TickState.initial := by
    rintro rfl
    rcases hasked with h | h | h
    all_goals exact h rfl
  cases hb : board.scheduler with
  | batch =>
    rcases returning_run hv hb hm hr with he | hnone | ⟨c, hret⟩
    · exact absurd he hstart
    · refine ⟨fun _ hrev => ?_, fun next hf => hnone.accounts hv hb hf⟩
      rw [hnone.revision] at hrev
      cases hrev
    · exact ⟨fun _ hrev => hret.installs hv hb hrev report fresh,
        fun next hf => hret.accounts hv hb hf⟩
  | frontier =>
    have hno : Scheduler.frontier ≠ .batch := by decide
    refine ⟨fun h => absurd h hno, ?_⟩
    intro next hf
    rcases fronting_run hv hb hm hr with he | hdata | hfront
    · exact absurd he hstart
    · rw [hdata] at hasked
      rcases hasked with h | h | h
      all_goals exact absurd rfl h
    · rcases hclose with h | hall
      · cases hb.symm.trans h
      · refine hfront.accounts hb hall.unraised ?_ hf
        have hreturned := hall.returned
        rw [hb] at hreturned
        exact hreturned

theorem answering_with (v : Value) (tasks : List Nat) (s : TickState)
    (M : Machine TickState TickAction) :
    M.Meets (AnswersWith plainText fun _ x => x.preview = v) s (answering (.value v) tasks) := by
  induction tasks generalizing s with
  | nil => trivial
  | cons n tasks ih =>
    refine ⟨?_, fun t _ => ih t⟩
    intro id card results answer x _ ha hx
    cases ha
    cases hx
    exact ⟨rfl, rfl, rfl⟩

def askedAndClosed (scheduler : Scheduler) : Option (TickState × TaskBoardRevision) :=
  ((tick plainText { loneBoard with scheduler := scheduler }).run TickState.initial
    (answering (.value .none) [0, 0])).bind fun s =>
      (finalizeTickSnapshot plainText { loneBoard with scheduler := scheduler } s.data {} {}).toOption.map
        fun next => (s, next)

theorem askedAndClosed_spec {scheduler : Scheduler} {s : TickState} {next : TaskBoardRevision}
    (h : askedAndClosed scheduler = some (s, next)) :
    (tick plainText { loneBoard with scheduler := scheduler }).run TickState.initial
        (answering (.value .none) [0, 0]) = some s ∧
      finalizeTickSnapshot plainText { loneBoard with scheduler := scheduler } s.data {} {} =
        .ok next := by
  obtain ⟨u, hrun, hu⟩ := Option.bind_eq_some_iff.mp h
  obtain ⟨r, hr, he⟩ := Option.map_eq_some_iff.mp hu
  cases he
  refine ⟨hrun, ?_⟩
  cases hf : finalizeTickSnapshot plainText { loneBoard with scheduler := scheduler } s.data {} {} with
  | error e =>
    rw [hf] at hr
    cases hr
  | ok q =>
    rw [hf] at hr
    cases hr
    rfl

theorem lone_card_unaccounted :
    ¬ ∀ (reprOf : Value → String) (answered : String → TaskBoardCardResult → Prop)
      (board : TaskBoard) (as : List TickAction) (s : TickState), ValidRevision board.revision →
        (tick reprOf board).Meets (AnswersWith reprOf answered) TickState.initial as →
          (tick reprOf board).run TickState.initial as = some s → HasAsked s.data →
            ∀ report fresh next, finalizeTickSnapshot reprOf board s.data report fresh = .ok next →
              AccountsFor reprOf answered board s.data next := by
  intro h
  have hend : (askedAndClosed .frontier).map (fun p => (p.1.data.dispatchedCardIds,
      p.1.data.collectedJson, p.1.data.revisionJson.isSome, p.2.cardResults.get? "a")) =
      some (["a"], some [], true, none) := by decide +kernel
  obtain ⟨⟨s, next⟩, hp, hend⟩ := Option.map_eq_some_iff.mp hend
  obtain ⟨hrun, hfinal⟩ := askedAndClosed_spec hp
  simp only [Prod.mk.injEq] at hend
  obtain ⟨hasked, hcollected, hjson, hresult⟩ := hend
  have hstored : s.data.revisionJson ≠ none := by
    intro hn
    rw [hn] at hjson
    cases hjson
  have hacc := h plainText (fun _ x => x.preview = .none) { loneBoard with scheduler := .frontier } _ s
    loneBoard_valid (answering_with _ _ _ _) hrun (.inr (.inl hstored)) {} {} next hfinal
  have hreq : "a" ∈ requestedCards .frontier s.data := by
    show "a" ∈ s.data.dispatchedCardIds
    rw [hasked]
    exact List.mem_cons_self
  have hnone : (collectedOf .frontier s.data).get? "a" = none := by
    show Dict.get? (s.data.collectedJson.getD []) "a" = none
    rw [hcollected]
    rfl
  obtain ⟨y, hy, -⟩ := hacc.interrupted "a" hreq hnone
  rw [hresult] at hy
  cases hy

theorem lone_card_interrupted : ∃ s next, askedAndClosed .batch = some (s, next) ∧
    AccountsFor plainText (fun _ x => x.preview = .none) { loneBoard with scheduler := .batch }
      s.data next := by
  have hend : (askedAndClosed .batch).map (fun p => p.1.data.expectedCardIds) = some (some ["a"]) := by
    decide +kernel
  obtain ⟨⟨s, next⟩, hp, hasked⟩ := Option.map_eq_some_iff.mp hend
  obtain ⟨hrun, hfinal⟩ := askedAndClosed_spec hp
  have hexpected : s.data.expectedCardIds ≠ none := by
    intro hn
    rw [hn] at hasked
    cases hasked
  exact ⟨s, next, hp, (@closed_ticks_account plainText (fun _ x => x.preview = .none)
    { loneBoard with scheduler := .batch } _ s loneBoard_valid (answering_with _ _ _ _) hrun
    (.inl hexpected) (.inl rfl) {} {}).2 next hfinal⟩

end Agently.TaskBoard
