import Agently.TaskBoard.StoredRevisions

/-! # Recording results in a revision

Source: `TaskBoard/TaskBoardRuntime.py`, `TaskBoard/TaskBoardValidation.py`. A revision in which
results without patch proposals have been recorded: its cards take the statuses of their results,
its results are set, its status is derived. -/

namespace Agently.TaskBoard

open Agently.Lib Agently.Utils
open Agently.TaskDAGValidation (Fault strip orElse strOf textOr bind_eq_ok then_eq_ok)

def recordedCard (results : List TaskBoardCardResult) (card : TaskBoardCard) : TaskBoardCard :=
  results.foldl (fun c x => if c.id = x.cardId then c.withStatus x.status else c) card

def recordedResults (results : List TaskBoardCardResult) (d : Dict String TaskBoardCardResult) :
    Dict String TaskBoardCardResult :=
  results.foldl (fun d x => d.set x.cardId x) d

/-- A result that can be recorded as it is: it reads back and proposes no patch. -/
structure Recordable (reprOf : Value → String) (ids : List String) (x : TaskBoardCardResult) :
    Prop where
  normal : x.Normal reprOf
  known : x.cardId ∈ ids
  plain : x.patchProposal = none

structure Readable (reprOf : Value → String) (ids : List String) (x : TaskBoardCardResult) : Prop where
  reads : cardResultFromValue reprOf x.toDict = .ok x
  known : x.cardId ∈ ids

theorem Recordable.readable {reprOf : Value → String} {ids : List String} {x : TaskBoardCardResult}
    (h : Recordable reprOf ids x) : Readable reprOf ids x :=
  ⟨h.normal.reads, h.known⟩

section Cards

variable (results : List TaskBoardCardResult) (card : TaskBoardCard)

theorem recordedCard_eq : ∃ status, recordedCard results card = card.withStatus status := by
  induction results generalizing card with
  | nil => exact ⟨card.status, rfl⟩
  | cons x results ih =>
    rw [recordedCard, List.foldl_cons]
    obtain ⟨status, hs⟩ := ih (if card.id = x.cardId then card.withStatus x.status else card)
    refine ⟨status, hs.trans ?_⟩
    split <;> rfl

theorem recordedCard_id : (recordedCard results card).id = card.id := by
  obtain ⟨status, hs⟩ := recordedCard_eq results card
  rw [hs]
  rfl

theorem recordedCard_dependsOn : (recordedCard results card).dependsOn = card.dependsOn := by
  obtain ⟨status, hs⟩ := recordedCard_eq results card
  rw [hs]
  rfl

theorem recordedCard_required :
    taskBoardCardRequired (recordedCard results card) = taskBoardCardRequired card := by
  obtain ⟨status, hs⟩ := recordedCard_eq results card
  rw [hs]
  rfl

theorem recordedCard_of_not_mem (h : ∀ x ∈ results, x.cardId ≠ card.id) :
    recordedCard results card = card := by
  induction results generalizing card with
  | nil => rfl
  | cons x results ih =>
    have hx : ¬ card.id = x.cardId := fun e => h x List.mem_cons_self e.symm
    rw [recordedCard, List.foldl_cons, if_neg hx]
    exact ih card (List.forall_mem_cons.mp h).2

variable {results card}

theorem recordedResults_of_not_mem {d : Dict String TaskBoardCardResult} {id : String}
    (h : ∀ x ∈ results, x.cardId ≠ id) : (recordedResults results d).get? id = d.get? id := by
  induction results generalizing d with
  | nil => rfl
  | cons x results ih =>
    rw [recordedResults, List.foldl_cons]
    refine (ih (List.forall_mem_cons.mp h).2).trans ?_
    exact Dict.get?_set_of_ne _ _ (h x List.mem_cons_self)

theorem recordedResults_of_mem {d : Dict String TaskBoardCardResult}
    (hn : (results.map TaskBoardCardResult.cardId).Nodup) {x : TaskBoardCardResult}
    (hx : x ∈ results) : (recordedResults results d).get? x.cardId = some x := by
  induction results generalizing d with
  | nil => cases hx
  | cons y results ih =>
    obtain ⟨hy, hn⟩ := List.nodup_cons.mp hn
    rw [recordedResults, List.foldl_cons]
    rcases List.mem_cons.mp hx with rfl | hx
    · refine (recordedResults_of_not_mem ?_).trans (Dict.get?_set_self d x.cardId x)
      intro z hz he
      exact hy (he ▸ List.mem_map_of_mem hz)
    · exact ih hn hx

theorem mem_recordedResults {d : Dict String TaskBoardCardResult} {p : String × TaskBoardCardResult}
    (hp : p ∈ recordedResults results d) : p ∈ d ∨ ∃ x ∈ results, p = (x.cardId, x) := by
  induction results generalizing d with
  | nil => exact .inl hp
  | cons y results ih =>
    rw [recordedResults, List.foldl_cons] at hp
    rcases ih hp with hp | ⟨x, hx, hp⟩
    · rcases Dict.mem_set hp with hp | hp
      · exact .inr ⟨y, List.mem_cons_self, hp⟩
      · exact .inl hp
    · exact .inr ⟨x, List.mem_cons_of_mem _ hx, hp⟩

end Cards

section Operations

variable {reprOf : Value → String}

theorem changeCard_ok {change : TaskBoardCard → TaskBoardCard} {id : String}
    {cards : List TaskBoardCard} (hn : (cards.map TaskBoardCard.id).Nodup)
    (h : id ∈ cards.map TaskBoardCard.id) :
    changeCard change id cards = .ok (cards.map fun c => if c.id = id then change c else c) := by
  induction cards with
  | nil => cases h
  | cons card cards ih =>
    obtain ⟨hc, hn⟩ := List.nodup_cons.mp hn
    rw [changeCard, List.map_cons]
    by_cases he : card.id = id
    · have hrest : (cards.map fun c => if c.id = id then change c else c) = cards := by
        refine (List.map_congr_left ?_).trans (List.map_id cards)
        intro c hm
        rw [if_neg]
        · rfl
        · intro e
          exact hc (he ▸ e ▸ List.mem_map_of_mem hm)
      rw [if_pos he, if_pos he, hrest]
    · have hid : id ∈ cards.map TaskBoardCard.id := by
        rcases List.mem_cons.mp h with e | hm
        · exact absurd e.symm he
        · exact hm
      rw [if_neg he, if_neg he, ih hn hid]

theorem record_ok {p : Patching} {x : TaskBoardCardResult}
    (hn : (p.cards.map TaskBoardCard.id).Nodup)
    (hx : Readable reprOf (p.cards.map TaskBoardCard.id) x) :
    p.record reprOf x.toDict = .ok { p with
      cards := p.cards.map (recordedCard [x]), cardResults := recordedResults [x] p.cardResults } := by
  have hd : orElse x.toDict (.dict []) = x.toDict := if_pos rfl
  unfold Patching.record
  rw [hd, hx.reads]
  simp only [bind, Except.bind]
  rw [changeCard_ok hn hx.known]
  rfl

theorem apply_record (p : Patching) (x : TaskBoardCardResult) :
    p.apply reprOf (recordOperation x) = p.record reprOf x.toDict := by
  have hop : TaskDAGValidation.get (recordOperation x) "op" = .str "record_card_result" := by
    simp only [recordOperation, get_cons, if_true]
  have hres : TaskDAGValidation.get (recordOperation x) "result" = x.toDict := by
    simp only [recordOperation, get_cons, String.reduceEq, if_false, if_true]
  have htext : strip (strOf reprOf (orElse (.str "record_card_result") (.str ""))) =
      "record_card_result" := by
    have ho : orElse (.str "record_card_result") (.str "") = .str "record_card_result" := if_pos rfl
    rw [ho]
    show strip "record_card_result" = "record_card_result"
    decide
  unfold Patching.apply
  rw [hop, htext, hres]
  rfl

theorem applyAll_record {p : Patching} {results : List TaskBoardCardResult}
    (hn : (p.cards.map TaskBoardCard.id).Nodup)
    (hx : ∀ x ∈ results, Readable reprOf (p.cards.map TaskBoardCard.id) x) :
    Patching.applyAll reprOf p (results.map recordOperation) = .ok { p with
      cards := p.cards.map (recordedCard results)
      cardResults := recordedResults results p.cardResults } := by
  induction results generalizing p with
  | nil =>
    have hid : p.cards.map (recordedCard []) = p.cards := List.map_id p.cards
    rw [hid]
    rfl
  | cons x results ih =>
    have hids : (p.cards.map (recordedCard [x])).map TaskBoardCard.id =
        p.cards.map TaskBoardCard.id := by
      rw [List.map_map]
      exact List.map_congr_left fun c _ => recordedCard_id [x] c
    have hcards : (p.cards.map (recordedCard [x])).map (recordedCard results) =
        p.cards.map (recordedCard (x :: results)) := by
      rw [List.map_map]
      rfl
    rw [List.map_cons, Patching.applyAll, apply_record, record_ok hn (hx x List.mem_cons_self)]
    simp only
    rw [ih (by rwa [hids]) (by
      rw [hids]
      exact (List.forall_mem_cons.mp hx).2)]
    rw [hcards]
    rfl

theorem addResults_ok {fresh : Fresh} {r : TaskBoardRevision} {patch : TaskBoardPatch}
    {results : List TaskBoardCardResult} (hp : ∀ x ∈ results, x.patchProposal = none) :
    addResults reprOf fresh r patch results = .ok { patch with
      operations := patch.operations ++ results.map recordOperation
      diagnostics := patch.diagnostics ++ results.flatMap TaskBoardCardResult.diagnostics
      evidenceRefs := patch.evidenceRefs ++
        results.flatMap fun x => x.artifactRefs ++ x.fileRefs } := by
  induction results generalizing patch with
  | nil => simp [addResults]
  | cons x results ih =>
    have hx := hp x List.mem_cons_self
    rw [addResults, addResult]
    simp only [hx]
    rw [ih (List.forall_mem_cons.mp hp).2]
    simp [List.append_assoc]

end Operations

section Revisions

variable {reprOf : Value → String} {r next : TaskBoardRevision}
  {results : List TaskBoardCardResult}

structure Recorded (reprOf : Value → String) (r : TaskBoardRevision)
    (results : List TaskBoardCardResult) (next : TaskBoardRevision) : Prop where
  cards : next.graph.cards = r.graph.cards.map (recordedCard results)
  results : next.cardResults = recordedResults results r.cardResults
  status : next.status = textOr (deriveBoardStatus next.graph.cards next.cardResults r.status) r.status
  valid : ValidRevision next
  normal : next.Normal reprOf

theorem cardById_map {graph : TaskBoardGraph} {f : TaskBoardCard → TaskBoardCard}
    (hf : ∀ c, (f c).id = c.id) (id : String) :
    ({ graph with cards := graph.cards.map f } : TaskBoardGraph).cardById id =
      (graph.cardById id).map f := by
  unfold TaskBoardGraph.cardById
  simp only [List.find?_map, Function.comp_def, hf]

theorem ids_recorded (graph : TaskBoardGraph) :
    ({ graph with cards := graph.cards.map (recordedCard results) } : TaskBoardGraph).ids =
      graph.ids := by
  unfold TaskBoardGraph.ids
  simp only [List.map_map]
  exact List.map_congr_left fun c _ => recordedCard_id results c

theorem dependsOn_recorded (graph : TaskBoardGraph) :
    ({ graph with cards := graph.cards.map (recordedCard results) } : TaskBoardGraph).dependsOn =
      graph.dependsOn := by
  funext id
  unfold TaskBoardGraph.dependsOn
  rw [cardById_map (recordedCard_id results), Option.map_map]
  congr 2
  funext c
  exact recordedCard_dependsOn results c

theorem patched_valid (h : ValidRevision r)
    (hx : ∀ x ∈ results, Readable reprOf r.graph.ids x) {next : TaskBoardRevision}
    (hg : next.graph = { r.graph with cards := r.graph.cards.map (recordedCard results) })
    (hres : next.cardResults = recordedResults results r.cardResults) : ValidRevision next := by
  have hids : next.graph.ids = r.graph.ids := hg ▸ ids_recorded r.graph
  have hdeps : next.graph.dependsOn = r.graph.dependsOn := hg ▸ dependsOn_recorded r.graph
  refine ⟨?_, ?_, hids ▸ h.ids_nodup, ?_, ?_, ?_⟩
  · rw [hg]
    simpa using h.nonempty
  · rw [hg]
    intro card hc
    obtain ⟨c, hcm, rfl⟩ := List.mem_map.mp hc
    rw [recordedCard_id]
    exact h.ids c hcm
  · rw [hids]
    rw [hg]
    intro card hc
    obtain ⟨c, hcm, rfl⟩ := List.mem_map.mp hc
    rw [recordedCard_dependsOn]
    exact h.known c hcm
  · rw [hids, hdeps]
    exact h.acyclic
  · rw [hids, hres]
    intro p hp
    rcases mem_recordedResults hp with hp | ⟨x, hxm, rfl⟩
    · exact h.results p hp
    · exact ⟨(hx x hxm).known, rfl⟩

theorem derive_ne {cards : List TaskBoardCard} {d : Dict String TaskBoardCardResult} {s : String}
    (hs : s ≠ "") : deriveBoardStatus cards d s ≠ "" := by
  unfold deriveBoardStatus
  simp only
  split
  · decide
  · split
    · decide
    · split
      · decide
      · split
        · decide
        · exact hs

theorem jsonStable_result {x : TaskBoardCardResult} (h : JsonStable x.toDict) :
    (∀ kvs ∈ x.artifactRefs, JsonStable (.dict kvs)) ∧ (∀ kvs ∈ x.fileRefs, JsonStable (.dict kvs)) ∧
      ∀ kvs ∈ x.diagnostics, JsonStable (.dict kvs) := by
  unfold TaskBoardCardResult.toDict at h
  rw [jsonStable_dict] at h
  simp only [List.forall_mem_cons, jsonStable_dictList] at h
  exact ⟨h.2.2.2.2.2.1, h.2.2.2.2.2.2.1, h.2.2.2.2.2.2.2.1⟩

theorem jsonStable_notePatch {m : List (String × Value)} (h : JsonStable (.dict m)) (id : String) :
    JsonStable (.dict (notePatch m id)) := by
  rw [jsonStable_dict] at h ⊢
  intro p hp
  unfold notePatch at hp
  split at hp
  next =>
    rcases List.mem_append.mp hp with hp | hp
    · exact h p hp
    · rw [List.mem_singleton.mp hp]
      simp
  next xs hxs =>
    rcases Dict.mem_set hp with rfl | hp
    · have hl := jsonStable_list.mp (h _ (Dict.mem_of_get? hxs))
      rw [jsonStable_list]
      intro v hv
      rcases List.mem_append.mp hv with hv | hv
      · exact hl v hv
      · rw [List.mem_singleton.mp hv]
        exact jsonStable_str id
    · exact h p hp
  next => exact h p hp

theorem recordedCard_reads {ids : List String} (hx : ∀ x ∈ results, Recordable reprOf ids x)
    {card : TaskBoardCard} (h : cardFromValue reprOf card.toDict = .ok card) :
    cardFromValue reprOf (recordedCard results card).toDict = .ok (recordedCard results card) := by
  induction results generalizing card with
  | nil => exact h
  | cons x results ih =>
    rw [recordedCard, List.foldl_cons]
    refine ih (List.forall_mem_cons.mp hx).2 ?_
    split
    · exact withStatus_reads h (result_status_ne (hx x List.mem_cons_self).normal.reads)
    · exact h

theorem applyCardResults_ok (fresh : Fresh) (hv : ValidRevision r) (hn : r.Normal reprOf)
    (hx : ∀ x ∈ results, Recordable reprOf r.graph.ids x) (hne : results ≠ []) :
    ∃ next, applyCardResults reprOf fresh r results = .ok next ∧ Recorded reprOf r results next := by
  obtain ⟨hread, hkept⟩ := (normal_iff r).mp hn
  let patch : TaskBoardPatch :=
    { baseRevision := r.revisionId
      operations := results.map recordOperation
      patchId := fresh.patchId.text
      source := "task_board.tick"
      diagnostics := [] ++ results.flatMap TaskBoardCardResult.diagnostics
      evidenceRefs := [] ++ results.flatMap fun x => x.artifactRefs ++ x.fileRefs }
  let p : Patching :=
    { cards := r.graph.cards.map (recordedCard results)
      cardResults := recordedResults results r.cardResults
      evidenceRefs := r.evidenceRefs, diagnostics := r.diagnostics, metadata := r.metadata
      status := r.status, explicitBoardStatus := false }
  let next := r.patched patch p fresh.revisionId.text
  have hvalid : ValidRevision next := patched_valid hv (fun x hm => (hx x hm).readable) rfl rfl
  refine ⟨next, ?_, rfl, rfl, rfl, hvalid, (normal_iff next).mpr ⟨?_, ?_⟩⟩
  · have hall := @applyAll_record reprOf
      { cards := r.graph.cards, cardResults := r.cardResults, evidenceRefs := r.evidenceRefs
        diagnostics := r.diagnostics, metadata := r.metadata, status := r.status
        explicitBoardStatus := false } results hv.ids_nodup fun x hm => (hx x hm).readable
    have hnext := (validate_iff next).mpr hvalid
    unfold applyCardResults
    rw [if_neg hne, addResults_ok fun x hm => (hx x hm).plain]
    show applyTaskBoardPatch reprOf fresh.revisionId.text r patch = .ok next
    unfold applyTaskBoardPatch
    rw [(validate_iff r).mpr hv, hall]
    simp only [bind, Except.bind, ne_eq, not_true_eq_false, if_false, pure, Except.pure, patch]
    simp only [next, patch, p] at hnext
    rw [hnext]
  · exact
      { boardId := hread.boardId
        revisionId := nextRevisionId_clean fresh.revisionId r.revisionId
        graphId := hread.graphId
        graphVersion := hread.graphVersion
        cards := by
          intro card hc
          obtain ⟨c, hcm, rfl⟩ := List.mem_map.mp hc
          exact recordedCard_reads hx (hread.cards c hcm)
        status := by
          have hd : deriveBoardStatus p.cards p.cardResults r.status ≠ "" := derive_ne hread.status
          show textOr (deriveBoardStatus p.cards p.cardResults r.status) r.status ≠ ""
          rw [(textOr_iff hread.status).mpr hd]
          exact hd
        results := by
          intro p hp
          rcases mem_recordedResults hp with hp | ⟨x, hxm, rfl⟩
          · exact hread.results p hp
          · exact (hx x hxm).normal.reads
        version := hread.version }
  · exact
      { cards := by
          intro card hc
          obtain ⟨c, hcm, rfl⟩ := List.mem_map.mp hc
          obtain ⟨status, hs⟩ := recordedCard_eq results c
          have hcs := (jsonStable_card c).mp (hkept.cards c hcm)
          rw [hs]
          exact (jsonStable_card _).mpr hcs
        graph := hkept.graph
        results := by
          intro p hp
          rcases mem_recordedResults hp with hp | ⟨x, hxm, rfl⟩
          · exact hkept.results p hp
          · exact (hx x hxm).normal.reloads
        evidence := by
          intro kvs hk
          rcases List.mem_append.mp hk with hk | hk
          · exact hkept.evidence kvs hk
          · obtain ⟨x, hxm, hk⟩ := List.mem_flatMap.mp hk
            obtain ⟨ha, hf, -⟩ := jsonStable_result (hx x hxm).normal.reloads
            rcases List.mem_append.mp hk with hk | hk
            · exact ha kvs hk
            · exact hf kvs hk
        diagnostics := by
          intro kvs hk
          rcases List.mem_append.mp hk with hk | hk
          · exact hkept.diagnostics kvs hk
          · obtain ⟨x, hxm, hk⟩ := List.mem_flatMap.mp hk
            exact (jsonStable_result (hx x hxm).normal.reloads).2.2 kvs hk
        metadata := jsonStable_notePatch hkept.metadata fresh.patchId.text }

theorem applyCardResults_reads (fresh : Fresh) {x y : TaskBoardCardResult}
    (hx : cardResultFromValue reprOf x.toDict = .ok y)
    (hy : cardResultFromValue reprOf y.toDict = .ok y) (hp : x.patchProposal = none) :
    applyCardResults reprOf fresh r [x] = applyCardResults reprOf fresh r [y] := by
  have hfields := hx
  rw [cardResultFromValue_toDict] at hfields
  cases hc : cleanStr reprOf (.str x.cardId) with
  | none => simp [hc] at hfields
  | some cardId =>
    simp only [hc, Except.ok.injEq] at hfields
    have hdiag : y.diagnostics = x.diagnostics := by rw [← hfields]
    have hart : y.artifactRefs = x.artifactRefs := by rw [← hfields]
    have hfile : y.fileRefs = x.fileRefs := by rw [← hfields]
    have hyp : y.patchProposal = none := by rw [← hfields, ← hp]
    have hone : ∀ p : Patching, p.applyAll reprOf [recordOperation x] =
        p.applyAll reprOf [recordOperation y] := by
      intro p
      have hd : ∀ z : TaskBoardCardResult, orElse z.toDict (.dict []) = z.toDict :=
        fun z => if_pos rfl
      simp only [Patching.applyAll, apply_record, Patching.record, hd, hx, hy]
    unfold applyCardResults
    rw [if_neg (List.cons_ne_nil _ _), if_neg (List.cons_ne_nil _ _),
      addResults_ok (by simpa using hp), addResults_ok (by simpa using hyp)]
    simp only [bind, Except.bind, List.map_cons, List.map_nil, List.flatMap_cons,
      List.flatMap_nil, List.nil_append, List.append_nil, hdiag, hart, hfile]
    unfold applyTaskBoardPatch
    simp only [hone]
    rfl

end Revisions

end Agently.TaskBoard
