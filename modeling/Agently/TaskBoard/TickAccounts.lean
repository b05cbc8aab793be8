import Agently.TaskBoard.ResumedTicks
import Agently.TaskBoard.WrittenResults

/-! # Closing a batch tick

Source: `_finalize_tick_snapshot` and `_interrupted_card_result` of
`TaskBoard/TaskBoardRuntime.py`. Each card a tick has asked for is to be accounted for when the
tick is closed: with the result it came to, or as interrupted. -/

namespace Agently.TaskBoard

open Agently.Lib Agently.Utils
open Agently.TaskDAGValidation (Fault strip strOf textOr orElse bind_eq_ok)

def requestedCards (scheduler : Scheduler) (d : TickData) : List String :=
  match scheduler with
  | .frontier => d.dispatchedCardIds
  | .batch => d.expectedCardIds.getD []

structure IsInterrupted (x : TaskBoardCardResult) : Prop where
  status : x.status = "failed"
  marked : TaskDAGValidation.get x.metadata "interrupted" = .bool true

section Accounts

variable (reprOf : Value → String) (answered : String → TaskBoardCardResult → Prop)
  (board : TaskBoard)

def AnswersWith (s : TickState) (a : TickAction) : Prop :=
  ∀ id card results answer x, s.tasks[a.task]? = some (.running id card results) →
    a.input.answer = .ok answer → coerceCardResult reprOf id answer = .ok x →
      answered id x ∧ x.cardId = id ∧ x.patchProposal = none

/-- The revision `next` accounts for the cards a tick with the data `d` has asked for. -/
structure AccountsFor (d : TickData) (next : TaskBoardRevision) : Prop where
  valid : ValidRevision next
  returned : ∀ id ∈ requestedCards board.scheduler d, ∀ v,
    (collectedOf board.scheduler d).get? id = some v →
      ∃ x y, answered id x ∧ Rewritten x.toDict v ∧ cardResultFromValue reprOf v = .ok y ∧
        next.cardResults.get? id = some y
  interrupted : ∀ id ∈ requestedCards board.scheduler d,
    (collectedOf board.scheduler d).get? id = none →
      ∃ y, next.cardResults.get? id = some y ∧ IsInterrupted y
  others : ∀ id ∉ requestedCards board.scheduler d,
    (next.cardResults.get? id).isSome = (board.revision.cardResults.get? id).isSome

end Accounts

section Made

variable {reprOf : Value → String} {answered : String → TaskBoardCardResult → Prop}

/-- The entry is `x` as a value, which the card has answered with. -/
structure Made (answered : String → TaskBoardCardResult → Prop) (p : String × Value)
    (x : TaskBoardCardResult) : Prop where
  answered : answered p.1 x
  own : x.cardId = p.1
  plain : x.patchProposal = none
  written : p.2 = x.toDict

theorem exists_made {entries : List (String × Value)} (h : ∀ p ∈ entries, ∃ x, Made answered p x) :
    ∃ xs, List.Forall₂ (Made answered) entries xs := by
  induction entries with
  | nil => exact ⟨[], .nil⟩
  | cons p entries ih =>
    obtain ⟨x, hx⟩ := h p List.mem_cons_self
    obtain ⟨xs, hxs⟩ := ih (List.forall_mem_cons.mp h).2
    exact ⟨x :: xs, .cons hx hxs⟩

theorem made_ids {entries : List (String × Value)} {xs : List TaskBoardCardResult}
    (h : List.Forall₂ (Made answered) entries xs) :
    xs.map TaskBoardCardResult.cardId = entries.map Prod.fst := by
  induction h with
  | nil => rfl
  | cons hx _ ih => rw [List.map_cons, List.map_cons, hx.own, ih]

theorem readResults_made {entries : List (String × Value)} {xs : List TaskBoardCardResult}
    (h : List.Forall₂ (Made answered) entries xs) (hid : ∀ p ∈ entries, Clean p.1) :
    readResults reprOf (entries.map Prod.snd) = .ok (xs.map TaskBoardCardResult.cleaned) := by
  induction h with
  | nil => rfl
  | @cons p x entries xs hx _ ih =>
    have hclean : Clean x.cardId := hx.own ▸ hid p List.mem_cons_self
    rw [List.map_cons, readResults, hx.written, reads_cleaned hclean,
      ih (List.forall_mem_cons.mp hid).2]
    rfl

theorem forall₂_left {α β : Type} {R : α → β → Prop} {xs : List α} {ys : List β}
    (h : List.Forall₂ R xs ys) {x : α} (hx : x ∈ xs) : ∃ y ∈ ys, R x y := by
  obtain ⟨y, hy, hr⟩ := forall₂_right h.flip hx
  exact ⟨y, hy, hr⟩

theorem cleaned_ids (xs : List TaskBoardCardResult) :
    (xs.map TaskBoardCardResult.cleaned).map TaskBoardCardResult.cardId =
      xs.map TaskBoardCardResult.cardId := by
  rw [List.map_map]
  rfl

theorem cleaned_all (xs : List TaskBoardCardResult) :
    (xs.map TaskBoardCardResult.cleaned).map TaskBoardCardResult.cleaned =
      xs.map TaskBoardCardResult.cleaned := by
  rw [List.map_map]
  exact List.map_congr_left fun x _ => cleaned_cleaned x

end Made

theorem applyAll_append {reprOf : Value → String} {p q : Patching}
    {xs ys : List (List (String × Value))} (h : Patching.applyAll reprOf p xs = .ok q) :
    Patching.applyAll reprOf p (xs ++ ys) = Patching.applyAll reprOf q ys := by
  induction xs generalizing p with
  | nil =>
    cases h
    rfl
  | cons x xs ih =>
    obtain ⟨m, hm, hrest⟩ := Patching.applyAll_cons h
    rw [List.cons_append, Patching.applyAll, hm]
    exact ih hrest

theorem apply_diagnostic (reprOf : Value → String) (p : Patching) (kvs : List (String × Value)) :
    p.apply reprOf [("op", .str "append_diagnostic"), ("diagnostic", .dict kvs)] =
      .ok { p with diagnostics := p.diagnostics ++ [kvs] } := by
  have hop : strip (strOf reprOf (orElse (.str "append_diagnostic") (.str ""))) =
      "append_diagnostic" := by
    have ho : orElse (.str "append_diagnostic") (.str "") = .str "append_diagnostic" := if_pos rfl
    rw [ho]
    show strip "append_diagnostic" = "append_diagnostic"
    decide
  unfold Patching.apply
  simp only [get_cons, if_true, String.reduceEq, if_false]
  rw [hop]
  rfl

theorem closing_patch {reprOf : Value → String} {r : TaskBoardRevision} (hv : ValidRevision r)
    {results : List TaskBoardCardResult} (hx : ∀ x ∈ results, Readable reprOf r.graph.ids x)
    {patch : TaskBoardPatch} {kvs : List (String × Value)} (hbase : patch.baseRevision = r.revisionId)
    (hops : patch.operations = results.map recordOperation ++
      [[("op", .str "append_diagnostic"), ("diagnostic", .dict kvs)]]) (fresh : String) :
    ∃ next, applyTaskBoardPatch reprOf fresh r patch = .ok next ∧ ValidRevision next ∧
      next.cardResults = recordedResults results r.cardResults := by
  have hall := @applyAll_record reprOf (Patching.start r) results hv.ids_nodup hx
  have hleft : Patching.applyAll reprOf (Patching.start r) patch.operations = .ok
      { Patching.start r with
        cards := r.graph.cards.map (recordedCard results)
        cardResults := recordedResults results r.cardResults
        diagnostics := r.diagnostics ++ [kvs] } := by
    rw [hops, applyAll_append hall, Patching.applyAll, apply_diagnostic]
    rfl
  have hvalid : ValidRevision (r.patched patch
      { Patching.start r with
        cards := r.graph.cards.map (recordedCard results)
        cardResults := recordedResults results r.cardResults
        diagnostics := r.diagnostics ++ [kvs] } fresh) := patched_valid hv hx rfl rfl
  exact ⟨_, applyTaskBoardPatch_iff.mpr ⟨hv, hbase, _, hleft, rfl, hvalid⟩, hvalid, rfl⟩

theorem closedSchedule_ok {board : TaskBoard} (hv : ValidRevision board.revision) (d : TickData) :
    ∃ schedule, closedSchedule board d = .ok schedule := by
  obtain ⟨plan, hplan, -⟩ := schedule_spec hv
  unfold closedSchedule
  split
  · exact ⟨_, rfl⟩
  · exact ⟨_, rfl⟩
  · rw [hplan]
    exact ⟨_, rfl⟩

theorem interrupted_cleaned (r : TaskBoardRevision) (report : CloseReport) (id : String) :
    (interruptedCardResult r report id).cleaned = interruptedCardResult r report id := by
  refine (cleaned_iff _).mpr ⟨?_, rfl, ?_⟩
  · rw [cleaned_status]
    show (if strip "failed" = "" then "completed" else strip "failed") = "failed"
    decide
  · rw [cleaned_version]
    show textOr taskBoardSchemaVersion taskBoardSchemaVersion = taskBoardSchemaVersion
    decide

theorem interrupted_marked (r : TaskBoardRevision) (report : CloseReport) (id : String) :
    IsInterrupted (interruptedCardResult r report id) := by
  refine ⟨rfl, ?_⟩
  simp only [interruptedCardResult, get_cons, String.reduceEq, if_false, if_true]

section Recorded

variable {reprOf : Value → String} {answered : String → TaskBoardCardResult → Prop}
  {board : TaskBoard} {c : Dict String Value}

/-- Of the collected values `c` the revision holds the results, of other cards what the board
holds. -/
structure HoldsCollected (reprOf : Value → String) (board : TaskBoard) (c : Dict String Value)
    (r : TaskBoardRevision) : Prop where
  valid : ValidRevision r
  returned : ∀ id v, c.get? id = some v → ∃ y, cardResultFromValue reprOf v = .ok y ∧
    cardResultFromValue reprOf y.toDict = .ok y ∧ r.cardResults.get? id = some y
  others : ∀ id, id ∉ c.keys →
    (r.cardResults.get? id).isSome = (board.revision.cardResults.get? id).isSome

theorem recorded_made {entries : List (String × Value)} {xs ys : List TaskBoardCardResult}
    {d : Dict String TaskBoardCardResult} (h : List.Forall₂ (Made answered) entries xs)
    (hid : ∀ p ∈ entries, Clean p.1)
    (hn : ((xs.map TaskBoardCardResult.cleaned ++ ys).map TaskBoardCardResult.cardId).Nodup)
    {p : String × Value} (hp : p ∈ entries) :
    ∃ y, cardResultFromValue reprOf p.2 = .ok y ∧ cardResultFromValue reprOf y.toDict = .ok y ∧
      (recordedResults (xs.map TaskBoardCardResult.cleaned ++ ys) d).get? p.1 = some y := by
  obtain ⟨x, hx, hmade⟩ := forall₂_left h hp
  have hclean : Clean x.cardId := hmade.own ▸ hid p hp
  refine ⟨x.cleaned, ?_, ?_, ?_⟩
  · rw [hmade.written]
    exact reads_cleaned hclean
  · rw [reads_cleaned (x := x.cleaned) hclean, cleaned_cleaned]
  · have hm : x.cleaned ∈ xs.map TaskBoardCardResult.cleaned ++ ys :=
      List.mem_append_left _ (List.mem_map_of_mem hx)
    rw [← hmade.own]
    exact recordedResults_of_mem hn hm

theorem HoldsCollected.reread {r r' : TaskBoardRevision} {fresh : String}
    (h : HoldsCollected reprOf board c r) (hr : revisionFromValue reprOf fresh r.toDict = .ok r') :
    HoldsCollected reprOf board c r' := by
  have hresults := results_of_dict hr
  refine ⟨(board_reread (.inl rfl) hr).valid h.valid, ?_, ?_⟩
  · intro id v hv
    obtain ⟨y, hy, hback, hget⟩ := h.returned id v hv
    refine ⟨y, hy, hback, ?_⟩
    have hrel := hresults id
    rw [hget] at hrel
    generalize r'.cardResults.get? id = z at hrel
    cases hrel with
    | some he =>
      rw [hback] at he
      cases he
      rfl
  · intro id hid
    rw [← h.others id hid]
    have hrel := hresults id
    generalize r.cardResults.get? id = x at hrel
    generalize r'.cardResults.get? id = z at hrel
    cases hrel with
    | none => rfl
    | some _ => rfl

end Recorded

section Batch

variable {reprOf : Value → String} {answered : String → TaskBoardCardResult → Prop}
  {board : TaskBoard} {c : Dict String Value} {s t : TickState} {a : TickAction}

def AllCollected (board : TaskBoard) (c : Dict String Value) : Prop :=
  ∀ id ∈ board.revision.runnable, id ∈ c.keys

def TickTask.Returns (answered : String → TaskBoardCardResult → Prop) (board : TaskBoard)
    (c : Dict String Value) : TickTask → Prop
  | .collecting x => answered x.cardId x ∧ x.patchProposal = none
  | .applying values => AllCollected board c ∧ values = board.revision.runnable.filterMap c.get?
  | .preparing | .requesting _ true | .applyingFrontier => False
  | _ => True

/-- A batch tick that has asked for its layer and has collected `c`. -/
structure Returning (reprOf : Value → String) (answered : String → TaskBoardCardResult → Prop)
    (board : TaskBoard) (c : Dict String Value) (s : TickState) : Prop where
  expected : s.data.expectedCardIds = some board.revision.runnable
  nonempty : board.revision.runnable ≠ []
  stored : s.data.revisionJson = none
  collected : s.data.collected = some c
  made : ∀ p ∈ c, ∃ x, Made answered p x
  once : (s.inFlight ++ c.keys).Nodup
  known : ∀ id ∈ s.inFlight ++ c.keys, id ∈ board.revision.runnable
  tasks : ∀ task ∈ s.tasks, task.Returns answered board c
  applied : ∀ v, s.data.revision = some v → AllCollected board c ∧
    ∃ next, v = next.toDict ∧ HoldsCollected reprOf board c next

theorem get?_of_keys {id : String} (h : id ∈ c.keys) : ∃ v, c.get? id = some v :=
  Option.ne_none_iff_exists'.mp fun hn => Dict.get?_eq_none_iff.mp hn h

theorem keys_of_get? {id : String} {v : Value} (h : c.get? id = some v) : id ∈ c.keys :=
  List.mem_map_of_mem (f := Prod.fst) (Dict.mem_of_get? h)

theorem clean_runnable {r : TaskBoardRevision} (hv : ValidRevision r) {id : String}
    (h : id ∈ r.runnable) : Clean id := by
  obtain ⟨card, hc, rfl⟩ := List.mem_map.mp (runnable_subset hv h)
  exact clean_of_cardId (hv.ids card hc)

def entriesOf (ids : List String) (c : Dict String Value) : List (String × Value) :=
  ids.filterMap fun id => (c.get? id).map fun v => (id, v)

theorem entriesOf_values (ids : List String) (c : Dict String Value) :
    (entriesOf ids c).map Prod.snd = ids.filterMap c.get? := by
  unfold entriesOf
  rw [List.map_filterMap]
  refine List.filterMap_congr fun id _ => ?_
  cases c.get? id with
  | none => rfl
  | some v => rfl

theorem mem_entriesOf {ids : List String} {p : String × Value} :
    p ∈ entriesOf ids c ↔ p.1 ∈ ids ∧ c.get? p.1 = some p.2 := by
  unfold entriesOf
  obtain ⟨k, v⟩ := p
  simp only [List.mem_filterMap, Option.map_eq_some_iff, Prod.mk.injEq]
  constructor
  · rintro ⟨id, hid, w, hw, rfl, rfl⟩
    exact ⟨hid, hw⟩
  · rintro ⟨hid, hv⟩
    exact ⟨k, hid, v, hv, rfl, rfl⟩

theorem entriesOf_ids {ids : List String} (h : ∀ id ∈ ids, id ∈ c.keys) :
    (entriesOf ids c).map Prod.fst = ids := by
  induction ids with
  | nil => rfl
  | cons id ids ih =>
    obtain ⟨v, hv⟩ := get?_of_keys (h id List.mem_cons_self)
    have hrest := ih (List.forall_mem_cons.mp h).2
    unfold entriesOf at hrest ⊢
    rw [List.filterMap_cons, hv]
    exact congrArg (List.cons id) hrest

theorem startCard_running {d : TickData} {id : String} {task : TickTask}
    (h : TaskBoard.startCard reprOf board d id = .ok task) :
    ∃ card results, task = .running id card results := by
  obtain ⟨revision, -, h⟩ := bind_eq_ok.mp h
  obtain ⟨plan, -, h⟩ := bind_eq_ok.mp h
  split at h
  · cases h
  · cases h
    exact ⟨_, _, rfl⟩

namespace Returning

theorem not_collected (h : Returning reprOf answered board c s) {id : String} (hid : id ∈ s.inFlight) :
    id ∉ c.keys := by
  intro hm
  exact (List.nodup_append.mp h.once).2.2 id hid id hm rfl

theorem not_all (h : Returning reprOf answered board c s) {id : String} (hid : id ∈ s.inFlight) :
    ¬ AllCollected board c :=
  fun hall => h.not_collected hid (hall id (h.known id (List.mem_append_left _ hid)))

theorem setTask (h : Returning reprOf answered board c s) {n : Nat} {task task' : TickTask}
    (ht : s.tasks[n]? = some task) (hc : task'.cards.Sublist task.cards)
    (hr : task'.Returns answered board c) : Returning reprOf answered board c (setTask s n task') := by
  have hsub : (TaskBoard.setTask s n task').inFlight.Sublist s.inFlight := by
    obtain ⟨l₁, l₂, hl, hset⟩ := exists_split ht
    unfold TickState.inFlight TaskBoard.setTask
    rw [hset, hl, List.flatMap_append, List.flatMap_append, List.flatMap_cons, List.flatMap_cons]
    exact (List.Sublist.refl _).append (hc.append (List.Sublist.refl _))
  have hall := hsub.append (List.Sublist.refl c.keys)
  exact ⟨h.expected, h.nonempty, h.stored, h.collected, h.made, h.once.sublist hall,
    fun id hid => h.known id (hall.subset hid), forall_mem_set h.tasks hr, h.applied⟩

theorem request (h : Returning reprOf answered board c s) {n : Nat} {id : String}
    {rest : List String} (ht : s.tasks[n]? = some (.requesting (id :: rest) false)) :
    Returning reprOf answered board c { s with
      tasks := s.tasks.set n (.requesting rest false) ++ [.requested id]
      log := .cardRequested id s.data :: s.log } := by
  have hperm := (inFlight_request ht).append_right c.keys
  exact ⟨h.expected, h.nonempty, h.stored, h.collected, h.made, hperm.nodup_iff.mpr h.once,
    fun id hid => h.known id (hperm.mem_iff.mp hid), forall_mem_set_append h.tasks trivial trivial,
    h.applied⟩

theorem tokens_collected (h : Returning reprOf answered board c s) {n : Nat} {x : TaskBoardCardResult}
    (ht : s.tasks[n]? = some (.collecting x)) (hin : x.cardId ∈ s.inFlight) :
    ((s.tasks.set n .returned).flatMap TickTask.cards ++ (Dict.set c x.cardId x.toDict).keys).Perm
      (s.inFlight ++ c.keys) := by
  have hkeys : (Dict.set c x.cardId x.toDict).keys = c.keys ++ [x.cardId] :=
    Dict.keys_set_of_not_mem (h.not_collected hin) x.toDict
  obtain ⟨l₁, l₂, hl, hset⟩ := exists_split ht
  unfold TickState.inFlight
  rw [hkeys, hset, hl, List.perm_iff_count]
  intro j
  simp only [List.flatMap_append, List.flatMap_cons, TickTask.cards, List.count_append,
    List.count_cons, List.count_nil]
  omega

theorem collectBatch_eq (h : Returning reprOf answered board c s) (n : Nat) (x : TaskBoardCardResult) :
    collectBatch s n x =
      if board.revision.runnable.length ≤ (Dict.set c x.cardId x.toDict).length then
        { data := { s.data with collected := some (Dict.set c x.cardId x.toDict) }
          tasks := s.tasks.set n .returned ++
            [.applying (board.revision.runnable.filterMap (Dict.get? (Dict.set c x.cardId x.toDict)))]
          log := .cardsCompleted { s.data with
            collected := some (Dict.set c x.cardId x.toDict) } :: s.log }
      else
        { s with
          data := { s.data with collected := some (Dict.set c x.cardId x.toDict) }
          tasks := s.tasks.set n .returned } := by
  have hne : board.revision.runnable.isEmpty = false := by simpa using h.nonempty
  unfold collectBatch
  simp only [h.expected, h.collected, Option.getD_some, hne, Bool.not_false, Bool.true_and,
    decide_eq_true_eq]
  rfl

theorem collect (h : Returning reprOf answered board c s) {n : Nat} {x : TaskBoardCardResult}
    (ht : s.tasks[n]? = some (.collecting x)) :
    ∃ c', Returning reprOf answered board c' (collectBatch s n x) := by
  have hin : x.cardId ∈ s.inFlight := mem_inFlight (List.mem_of_getElem? ht) List.mem_cons_self
  obtain ⟨hanswered, hplain⟩ := h.tasks _ (List.mem_of_getElem? ht)
  have hperm := h.tokens_collected ht hin
  have honce := hperm.nodup_iff.mpr h.once
  have hknown : ∀ id ∈ (s.tasks.set n .returned).flatMap TickTask.cards ++
      (Dict.set c x.cardId x.toDict).keys, id ∈ board.revision.runnable :=
    fun id hid => h.known id (hperm.mem_iff.mp hid)
  have hmade : ∀ p ∈ Dict.set c x.cardId x.toDict, ∃ y, Made answered p y := by
    intro p hp
    rcases Dict.mem_set hp with rfl | hp
    · exact ⟨x, hanswered, rfl, hplain, rfl⟩
    · exact h.made p hp
  have hnone : ∀ v, s.data.revision = some v → False :=
    fun v hv => h.not_all hin (h.applied v hv).1
  -- no task applies results while the card is on its way
  have htasks : ∀ c', ∀ task ∈ s.tasks, task.Returns answered board c' := by
    intro c' task hm
    have hf := h.tasks task hm
    cases task with
    | applying values => exact absurd hf.1 (h.not_all hin)
    | requesting ids complete =>
      cases complete with
      | true => exact hf.elim
      | false => trivial
    | _ => exact hf
  refine ⟨Dict.set c x.cardId x.toDict, ?_⟩
  rw [h.collectBatch_eq]
  split
  next hlen =>
    have hall : AllCollected board (Dict.set c x.cardId x.toDict) := by
      have hkeys : (Dict.set c x.cardId x.toDict).keys.Nodup := (List.nodup_append.mp honce).2.1
      have hsub : (Dict.set c x.cardId x.toDict).keys ⊆ board.revision.runnable :=
        fun id hid => hknown id (List.mem_append_right _ hid)
      have hle : board.revision.runnable.length ≤ (Dict.set c x.cardId x.toDict).keys.length := by
        rw [Dict.keys, List.length_map]
        exact hlen
      have hp := (List.subperm_of_subset hkeys hsub).perm_of_length_le hle
      exact fun id hid => hp.mem_iff.mpr hid
    have hflight : (s.tasks.set n .returned ++ [TickTask.applying (board.revision.runnable.filterMap
        (Dict.get? (Dict.set c x.cardId x.toDict)))]).flatMap TickTask.cards =
        (s.tasks.set n .returned).flatMap TickTask.cards := by
      rw [List.flatMap_append]
      exact List.append_nil _
    rw [← hflight] at honce hknown
    exact ⟨h.expected, h.nonempty, h.stored, rfl, hmade, honce, hknown,
      forall_mem_set_append (htasks _) trivial ⟨hall, rfl⟩, fun v hv => (hnone v hv).elim⟩
  next =>
    exact ⟨h.expected, h.nonempty, h.stored, rfl, hmade, honce, hknown,
      forall_mem_set (htasks _) trivial, fun v hv => (hnone v hv).elim⟩

theorem apply (h : Returning reprOf answered board c s) (hv : ValidRevision board.revision) {n : Nat}
    {values : List Value} (ht : s.tasks[n]? = some (.applying values)) (fresh : Fresh) :
    Returning reprOf answered board c
      (finishApply s n (applyResults reprOf board s.data fresh values)) := by
  obtain ⟨hall, rfl⟩ := h.tasks _ (List.mem_of_getElem? ht)
  cases hd : applyResults reprOf board s.data fresh (board.revision.runnable.filterMap c.get?) with
  | error e => exact h.setTask ht (List.Sublist.refl _) trivial
  | ok d =>
    obtain ⟨results, hresults, hd⟩ := bind_eq_ok.mp hd
    obtain ⟨next, hnext, hd⟩ := bind_eq_ok.mp hd
    cases hd
    have hclean : ∀ p ∈ entriesOf board.revision.runnable c, Clean p.1 :=
      fun p hp => clean_runnable hv (mem_entriesOf.mp hp).1
    have hmade : ∀ p ∈ entriesOf board.revision.runnable c, ∃ x, Made answered p x :=
      fun p hp => h.made p (Dict.mem_of_get? (mem_entriesOf.mp hp).2)
    obtain ⟨xs, hxs⟩ := exists_made hmade
    have hids : xs.map TaskBoardCardResult.cardId = board.revision.runnable :=
      (made_ids hxs).trans (entriesOf_ids hall)
    rw [← entriesOf_values, readResults_made hxs hclean] at hresults
    cases hresults
    have hrunnable : ∀ x ∈ xs, x.cardId ∈ board.revision.runnable :=
      fun x hx => hids ▸ List.mem_map_of_mem hx
    have hown : ∀ x ∈ xs.map TaskBoardCardResult.cleaned, Clean x.cardId := by
      intro x hx
      obtain ⟨y, hy, rfl⟩ := List.mem_map.mp hx
      exact clean_runnable hv (hrunnable y hy)
    have hplain : ∀ x ∈ xs.map TaskBoardCardResult.cleaned, x.patchProposal = none := by
      intro x hx
      obtain ⟨y, hy, rfl⟩ := List.mem_map.mp hx
      obtain ⟨p, -, hp⟩ := forall₂_right hxs hy
      exact hp.plain
    obtain ⟨hvalid, hrec⟩ := applied_plain hv hown hplain hnext
    rw [cleaned_all] at hrec
    have hset : Returning reprOf answered board c (TaskBoard.setTask s n .returned) :=
      h.setTask ht (List.nil_sublist _) trivial
    refine ⟨h.expected, h.nonempty, h.stored, h.collected, h.made, hset.once, hset.known,
      hset.tasks, ?_⟩
    intro v hw
    cases hw
    refine ⟨hall, next, rfl, hvalid, ?_, ?_⟩
    · intro id v hid
      have hmem : (id, v) ∈ entriesOf board.revision.runnable c :=
        mem_entriesOf.mpr ⟨h.known id (List.mem_append_right _ (keys_of_get? hid)), hid⟩
      have hn : ((xs.map TaskBoardCardResult.cleaned ++ []).map TaskBoardCardResult.cardId).Nodup := by
        rw [List.append_nil, cleaned_ids, hids]
        exact runnable_nodup hv
      obtain ⟨y, hy, hback, hget⟩ := recorded_made (d := board.revision.cardResults) hxs hclean hn hmem
      rw [List.append_nil, ← hrec] at hget
      exact ⟨y, hy, hback, hget⟩
    · intro id hid
      rw [hrec, recordedResults_of_not_mem]
      intro x hx he
      obtain ⟨y, hy, rfl⟩ := List.mem_map.mp hx
      exact hid (he ▸ hall _ (hrunnable y hy))

theorem step (h : Returning reprOf answered board c s) (hv : ValidRevision board.revision)
    (hb : board.scheduler = .batch) (ha : AnswersWith reprOf answered s a)
    (ht : (tick reprOf board).step s a = some t) : ∃ c', Returning reprOf answered board c' t := by
  obtain ⟨task, htask, ht⟩ := Option.bind_eq_some_iff.mp ht
  have hf := h.tasks task (List.mem_of_getElem? htask)
  cases task with
  | preparing => exact hf.elim
  | requesting ids complete =>
    cases complete with
    | true => exact hf.elim
    | false =>
      cases ids with
      | cons id rest =>
        cases ht
        exact ⟨c, h.request htask⟩
      | nil =>
        cases ht
        exact ⟨c, h.setTask htask (List.Sublist.refl _) trivial⟩
  | requested id =>
    simp only [stepTask] at ht
    split at ht
    · cases ht
      exact ⟨c, h.setTask htask (List.nil_sublist _) trivial⟩
    · rename_i task' hstart
      obtain ⟨card, results, rfl⟩ := startCard_running hstart
      cases ht
      exact ⟨c, h.setTask htask (List.Sublist.refl _) trivial⟩
  | running id card results =>
    simp only [stepTask] at ht
    split at ht
    · cases ht
      exact ⟨c, h.setTask htask (List.nil_sublist _) trivial⟩
    · rename_i answer hanswer
      split at ht
      · cases ht
        exact ⟨c, h.setTask htask (List.nil_sublist _) trivial⟩
      · rename_i x hx
        cases ht
        obtain ⟨hanswered, rfl, hplain⟩ := ha id card results answer x htask hanswer hx
        exact ⟨c, h.setTask htask (List.Sublist.refl _) ⟨hanswered, hplain⟩⟩
  | collecting x =>
    simp only [stepTask, hb] at ht
    cases ht
    exact h.collect htask
  | applyingFrontier => exact hf.elim
  | applying values =>
    cases ht
    exact ⟨c, h.apply hv htask a.input.fresh⟩
  | returned => cases ht
  | raised e => cases ht

theorem run {as : List TickAction} (h : Returning reprOf answered board c s)
    (hv : ValidRevision board.revision) (hb : board.scheduler = .batch)
    (hm : (tick reprOf board).Meets (AnswersWith reprOf answered) s as)
    (hr : (tick reprOf board).run s as = some t) : ∃ c', Returning reprOf answered board c' t :=
  (tick reprOf board).run_invariant_meeting (I := fun u => ∃ c', Returning reprOf answered board c' u)
    (fun _ _ _ ⟨_, hu⟩ ha ht => hu.step hv hb ha ht) ⟨c, h⟩ hm hr

theorem requested (h : Returning reprOf answered board c s) (hb : board.scheduler = .batch) :
    requestedCards board.scheduler s.data = board.revision.runnable := by
  rw [hb]
  show s.data.expectedCardIds.getD [] = _
  rw [h.expected]
  rfl

theorem collectedOf_eq (h : Returning reprOf answered board c s) (hb : board.scheduler = .batch) :
    collectedOf board.scheduler s.data = c := by
  rw [hb]
  show s.data.collected.getD [] = _
  rw [h.collected]
  rfl

theorem accounts_finished (h : Returning reprOf answered board c s) (hb : board.scheduler = .batch)
    {r : TaskBoardRevision} (hall : AllCollected board c) (hr : HoldsCollected reprOf board c r) :
    AccountsFor reprOf answered board s.data r := by
  have hreq := h.requested hb
  have hcol := h.collectedOf_eq hb
  refine ⟨hr.valid, ?_, ?_, ?_⟩
  · rw [hreq, hcol]
    intro id hid v hget
    obtain ⟨x, hx⟩ := h.made _ (Dict.mem_of_get? hget)
    obtain ⟨y, hy, -, hres⟩ := hr.returned id v hget
    exact ⟨x, y, hx.answered, .inl hx.written, hy, hres⟩
  · rw [hreq, hcol]
    intro id hid hnone
    exact absurd (hall id hid) (Dict.get?_eq_none_iff.mp hnone)
  · rw [hreq]
    intro id hid
    exact hr.others id fun hm => hid (h.known id (List.mem_append_right _ hm))

def closingResults (board : TaskBoard) (report : CloseReport) (xs : List TaskBoardCardResult) :
    List TaskBoardCardResult :=
  let collected := xs.map TaskBoardCardResult.cleaned
  collected ++ ((board.revision.runnable.filter fun id => id ≠ "").filter fun id =>
    id ∉ collected.map TaskBoardCardResult.cardId).map (interruptedCardResult board.revision report)

theorem incomplete (h : Returning reprOf answered board c s) (hv : ValidRevision board.revision)
    (report : CloseReport) (fresh : Fresh) :
    ∃ xs next, List.Forall₂ (Made answered) c xs ∧
      incompleteRevision reprOf board s.data report fresh = .ok next ∧ ValidRevision next ∧
      next.cardResults =
        recordedResults (closingResults board report xs) board.revision.cardResults := by
  obtain ⟨xs, hxs⟩ := exists_made h.made
  have hknown : ∀ id ∈ c.keys, id ∈ board.revision.runnable :=
    fun id hid => h.known id (List.mem_append_right _ hid)
  have hclean : ∀ p ∈ c, Clean p.1 :=
    fun p hp => clean_runnable hv (hknown p.1 (List.mem_map_of_mem hp))
  have hids : xs.map TaskBoardCardResult.cardId = c.keys := made_ids hxs
  have hreadable : ∀ x ∈ closingResults board report xs, Readable reprOf board.revision.graph.ids x := by
    intro x hx
    rcases List.mem_append.mp hx with hx | hx
    · obtain ⟨y, hy, rfl⟩ := List.mem_map.mp hx
      have hrun : y.cardId ∈ board.revision.runnable := hknown _ (hids ▸ List.mem_map_of_mem hy)
      refine ⟨?_, runnable_subset hv hrun⟩
      rw [reads_cleaned (x := y.cleaned) (clean_runnable hv hrun), cleaned_cleaned]
    · obtain ⟨id, hid, rfl⟩ := List.mem_map.mp hx
      have hrun : id ∈ board.revision.runnable := List.mem_of_mem_filter (List.mem_of_mem_filter hid)
      refine ⟨?_, runnable_subset hv hrun⟩
      rw [reads_cleaned (clean_runnable hv hrun), interrupted_cleaned]
  have hread : readResults reprOf (c.map Prod.snd) = .ok (xs.map TaskBoardCardResult.cleaned) :=
    readResults_made hxs hclean
  obtain ⟨schedule, hschedule⟩ := closedSchedule_ok hv s.data
  have hexpected : expectedIds s.data schedule = board.revision.runnable := by
    unfold expectedIds
    rw [h.expected]
  have hcollected : s.data.collected.getD (s.data.collectedJson.getD []) = c := by
    rw [h.collected]
    rfl
  suffices hnext : ∃ next, incompleteRevision reprOf board s.data report fresh = .ok next ∧
      ValidRevision next ∧ next.cardResults =
        recordedResults (closingResults board report xs) board.revision.cardResults by
    obtain ⟨next, hnext⟩ := hnext
    exact ⟨xs, next, hxs, hnext⟩
  unfold incompleteRevision
  rw [hschedule]
  simp only [bind, Except.bind, hcollected, hread, hexpected]
  exact closing_patch hv hreadable rfl rfl _

theorem closing_once (h : Returning reprOf answered board c s) (hv : ValidRevision board.revision)
    (report : CloseReport) {xs : List TaskBoardCardResult}
    (hxs : List.Forall₂ (Made answered) c xs) :
    ((closingResults board report xs).map TaskBoardCardResult.cardId).Nodup := by
  have hids : (xs.map TaskBoardCardResult.cleaned).map TaskBoardCardResult.cardId = c.keys :=
    (cleaned_ids xs).trans (made_ids hxs)
  have hmissing : ∀ ids : List String,
      (ids.map (interruptedCardResult board.revision report)).map TaskBoardCardResult.cardId = ids := by
    intro ids
    rw [List.map_map]
    exact List.map_id ids
  unfold closingResults
  dsimp only
  rw [List.map_append, hmissing, hids]
  refine (List.nodup_append.mp h.once).2.1.append (((runnable_nodup hv).filter _).filter _) ?_
  intro id hid hm
  exact of_decide_eq_true (List.mem_filter.mp hm).2 hid

theorem accounts_cut (h : Returning reprOf answered board c s) (hv : ValidRevision board.revision)
    (hb : board.scheduler = .batch) (report : CloseReport) (fresh : Fresh) :
    ∃ next, incompleteRevision reprOf board s.data report fresh = .ok next ∧
      AccountsFor reprOf answered board s.data next := by
  obtain ⟨xs, next, hxs, hnext, hvalid, hresults⟩ :=
    h.incomplete hv report fresh
  have hknown : ∀ id ∈ c.keys, id ∈ board.revision.runnable :=
    fun id hid => h.known id (List.mem_append_right _ hid)
  have hids : (xs.map TaskBoardCardResult.cleaned).map TaskBoardCardResult.cardId = c.keys :=
    (cleaned_ids xs).trans (made_ids hxs)
  have honce := h.closing_once hv report hxs
  have hreq := h.requested hb
  have hcol := h.collectedOf_eq hb
  refine ⟨next, hnext, hvalid, ?_, ?_, ?_⟩
  · rw [hreq, hcol]
    intro id hid v hget
    have hmem := Dict.mem_of_get? hget
    obtain ⟨x, hx⟩ := h.made _ hmem
    obtain ⟨y, hy, -, hres⟩ := recorded_made (d := board.revision.cardResults) hxs
      (fun p hp => clean_runnable hv (hknown p.1 (List.mem_map_of_mem hp))) honce hmem
    exact ⟨x, y, hx.answered, .inl hx.written, hy, hresults ▸ hres⟩
  · rw [hreq, hcol]
    intro id hid hnone
    have hclean := clean_runnable hv hid
    have hmem : interruptedCardResult board.revision report id ∈ closingResults board report xs := by
      refine List.mem_append_right _ (List.mem_map_of_mem (List.mem_filter.mpr ⟨?_, ?_⟩))
      · exact List.mem_filter.mpr ⟨hid, decide_eq_true hclean.2⟩
      · rw [hids]
        exact decide_eq_true (Dict.get?_eq_none_iff.mp hnone)
    refine ⟨_, ?_, interrupted_marked board.revision report id⟩
    rw [hresults]
    exact recordedResults_of_mem honce hmem
  · rw [hreq]
    intro id hid
    rw [hresults, recordedResults_of_not_mem]
    intro x hx he
    rcases List.mem_append.mp hx with hx | hx
    · exact hid (hknown id (hids ▸ he ▸ List.mem_map_of_mem hx))
    · obtain ⟨j, hj, rfl⟩ := List.mem_map.mp hx
      exact hid (he ▸ List.mem_of_mem_filter (List.mem_of_mem_filter hj))

theorem accounts (h : Returning reprOf answered board c s) (hv : ValidRevision board.revision)
    (hb : board.scheduler = .batch) {report : CloseReport} {fresh : Fresh} {next : TaskBoardRevision}
    (hf : finalizeTickSnapshot reprOf board s.data report fresh = .ok next) :
    AccountsFor reprOf answered board s.data next := by
  unfold finalizeTickSnapshot at hf
  split at hf
  · rename_i v hrev
    obtain ⟨hall, r, rfl, hr⟩ := h.applied v hrev
    exact h.accounts_finished hb hall (hr.reread hf)
  · rw [h.stored] at hf
    obtain ⟨next', hnext, hacc⟩ := h.accounts_cut hv hb report fresh
    cases hnext.symm.trans hf
    exact hacc

theorem installs (h : Returning reprOf answered board c s) (hv : ValidRevision board.revision)
    (hb : board.scheduler = .batch) (hnone : s.data.revision = none) (report : CloseReport)
    (fresh : Fresh) :
    ∃ next, finalizeTickSnapshot reprOf board s.data report fresh = .ok next := by
  obtain ⟨next, hnext, -⟩ := h.accounts_cut hv hb report fresh
  unfold finalizeTickSnapshot
  rw [hnone, h.stored]
  exact ⟨next, hnext⟩

end Returning

structure NothingAsked (board : TaskBoard) (s : TickState) : Prop where
  expected : s.data.expectedCardIds = none
  revision : s.data.revision = some board.revision.toDict
  finished : s.finished = true

theorem NothingAsked.accounts (h : NothingAsked board s) (hv : ValidRevision board.revision)
    (hb : board.scheduler = .batch) {report : CloseReport} {fresh : Fresh} {next : TaskBoardRevision}
    (hf : finalizeTickSnapshot reprOf board s.data report fresh = .ok next) :
    AccountsFor reprOf answered board s.data next := by
  have hreq : requestedCards board.scheduler s.data = [] := by
    rw [hb]
    show s.data.expectedCardIds.getD [] = _
    rw [h.expected]
    rfl
  have hstart : HoldsCollected reprOf board [] board.revision :=
    ⟨hv, fun _ _ hn => absurd hn (by simp), fun _ _ => rfl⟩
  unfold finalizeTickSnapshot at hf
  rw [h.revision] at hf
  have hnext := hstart.reread hf
  refine ⟨hnext.valid, ?_, ?_, fun id _ => hnext.others id List.not_mem_nil⟩
  · rw [hreq]
    intro id hid
    cases hid
  · rw [hreq]
    intro id hid
    cases hid

theorem returning_prepared (hv : ValidRevision board.revision) (hb : board.scheduler = .batch)
    (ht : (tick reprOf board).step TickState.initial a = some t) :
    Returning reprOf answered board [] t ∨ NothingAsked board t := by
  rw [step_prepares ht]
  obtain ⟨plan, hplan, hrun⟩ := schedule_spec hv
  unfold prepareTick
  simp only [hb, hplan, hrun]
  by_cases hne : board.revision.runnable = []
  · rw [if_pos hne]
    exact .inr ⟨rfl, rfl, rfl⟩
  · rw [if_neg hne]
    have hflight : (TaskBoard.setTask { TickState.initial with data := { TickState.initial.data with
        schedule := some plan.toDict, topology := some "batch"
        expectedCardIds := some board.revision.runnable, collected := some [] } } 0
          (.requesting board.revision.runnable false)).inFlight = board.revision.runnable := by
      simp [TickState.inFlight, TaskBoard.setTask, TickState.initial, TickTask.cards]
    refine .inl ⟨rfl, hne, rfl, rfl, ?_, ?_, ?_, ?_, ?_⟩
    · intro p hp
      cases hp
    · rw [hflight, Dict.keys, List.map_nil, List.append_nil]
      exact runnable_nodup hv
    · rw [hflight, Dict.keys, List.map_nil, List.append_nil]
      exact fun id hid => hid
    · intro task hm
      cases List.mem_singleton.mp hm
      trivial
    · intro v hrev
      cases hrev

theorem returning_run {as : List TickAction} (hv : ValidRevision board.revision)
    (hb : board.scheduler = .batch)
    (hm : (tick reprOf board).Meets (AnswersWith reprOf answered) TickState.initial as)
    (hr : (tick reprOf board).run TickState.initial as = some t) :
    t = TickState.initial ∨ NothingAsked board t ∨ ∃ c, Returning reprOf answered board c t := by
  cases as with
  | nil => exact .inl (Option.some.inj hr).symm
  | cons a as =>
    obtain ⟨u, hu, hrun⟩ := (tick reprOf board).run_cons_eq_some.mp hr
    have hprep : Returning reprOf answered board [] u ∨ NothingAsked board u :=
      returning_prepared hv hb hu
    rcases hprep with hret | hnone
    · exact .inr (.inr (hret.run hv hb (hm.2 u hu) hrun))
    · have hend := run_finished hnone.finished hrun
      exact .inr (.inl (hend ▸ hnone))

end Batch

end Agently.TaskBoard
