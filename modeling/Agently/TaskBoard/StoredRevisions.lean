import Mathlib.Data.List.DropRight
import Agently.TaskBoard.ValidBoards

/-! # Revisions in the runtime data

Source: `types/data/task_board.py`. What JSON keeps of a revision and what `from_value` gives
back of it, as long as its texts are the ones `from_value` makes. -/

namespace Agently.TaskBoard

open Agently.Lib Agently.Utils
open Agently.TaskDAGValidation (Fault strip strip_strip get orElse strOf textOr isSpace
  isSpace_of_alphanum bind_eq_ok then_eq_ok)

def JsonStable (v : Value) : Prop := reloaded v = some v

theorem reloadedList_iff {xs : List Value} :
    reloadedList xs = some xs ↔ ∀ x ∈ xs, JsonStable x := by
  induction xs with
  | nil => simp [reloadedList]
  | cons x xs ih =>
    simp only [reloadedList, Option.bind_eq_some_iff, Option.map_eq_some_iff, List.forall_mem_cons,
      ← ih]
    constructor
    · rintro ⟨y, hy, ys, hys, he⟩
      cases he
      exact ⟨hy, hys⟩
    · rintro ⟨hx, hxs⟩
      exact ⟨x, hx, xs, hxs, rfl⟩

theorem reloadedEntries_iff {kvs : List (String × Value)} :
    reloadedEntries kvs = some kvs ↔ ∀ p ∈ kvs, JsonStable p.2 := by
  induction kvs with
  | nil => simp [reloadedEntries]
  | cons p kvs ih =>
    obtain ⟨k, v⟩ := p
    simp only [reloadedEntries, Option.bind_eq_some_iff, Option.map_eq_some_iff,
      List.forall_mem_cons, ← ih]
    constructor
    · rintro ⟨w, hw, rest, hrest, he⟩
      cases he
      exact ⟨hw, hrest⟩
    · rintro ⟨hv, hrest⟩
      exact ⟨v, hv, kvs, hrest, rfl⟩

@[simp] theorem jsonStable_str (s : String) : JsonStable (.str s) := rfl

@[simp] theorem jsonStable_list {xs : List Value} :
    JsonStable (.list xs) ↔ ∀ x ∈ xs, JsonStable x := by
  rw [← reloadedList_iff]
  unfold JsonStable reloaded
  rw [Option.map_eq_some_iff]
  constructor
  · rintro ⟨ys, hys, he⟩
    cases he
    exact hys
  · intro h
    exact ⟨xs, h, rfl⟩

@[simp] theorem jsonStable_dict {kvs : List (String × Value)} :
    JsonStable (.dict kvs) ↔ ∀ p ∈ kvs, JsonStable p.2 := by
  rw [← reloadedEntries_iff]
  unfold JsonStable reloaded
  rw [Option.map_eq_some_iff]
  constructor
  · rintro ⟨ys, hys, he⟩
    cases he
    exact hys
  · intro h
    exact ⟨kvs, h, rfl⟩

@[simp] theorem jsonStable_textList (xs : List String) : JsonStable (textList xs) := by
  simp [textList]

@[simp] theorem jsonStable_dictList {xs : List (List (String × Value))} :
    JsonStable (dictList xs) ↔ ∀ kvs ∈ xs, JsonStable (.dict kvs) := by
  simp [dictList]

@[simp] theorem jsonStable_card (card : TaskBoardCard) :
    JsonStable card.toDict ↔
      JsonStable (.dict card.evidenceContract) ∧ JsonStable (.dict card.metadata) := by
  simp [TaskBoardCard.toDict]

structure KeptByJson (r : TaskBoardRevision) : Prop where
  cards : ∀ card ∈ r.graph.cards, JsonStable card.toDict
  graph : JsonStable (.dict r.graph.metadata)
  results : ∀ p ∈ r.cardResults, JsonStable p.2.toDict
  evidence : ∀ kvs ∈ r.evidenceRefs, JsonStable (.dict kvs)
  diagnostics : ∀ kvs ∈ r.diagnostics, JsonStable (.dict kvs)
  metadata : JsonStable (.dict r.metadata)

theorem reloads_iff (r : TaskBoardRevision) : JsonStable r.toDict ↔ KeptByJson r := by
  have hg : JsonStable r.graph.toDict ↔
      (∀ card ∈ r.graph.cards, JsonStable card.toDict) ∧ JsonStable (.dict r.graph.metadata) := by
    unfold TaskBoardGraph.toDict
    rw [jsonStable_dict]
    simp only [List.forall_mem_cons, jsonStable_str, true_and, List.not_mem_nil, false_imp_iff,
      implies_true, and_true, jsonStable_list, List.forall_mem_map]
  have hr : JsonStable (.dict (r.cardResults.map fun p => (p.1, p.2.toDict))) ↔
      ∀ p ∈ r.cardResults, JsonStable p.2.toDict := by
    simp only [jsonStable_dict, List.forall_mem_map]
  unfold TaskBoardRevision.toDict
  rw [jsonStable_dict]
  simp only [List.forall_mem_cons, jsonStable_str, true_and, List.not_mem_nil, false_imp_iff,
    implies_true, and_true, hg, hr, jsonStable_dictList]
  constructor
  · rintro ⟨⟨hc, hm⟩, hrs, he, hd, hmeta⟩
    exact ⟨hc, hm, hrs, he, hd, hmeta⟩
  · intro h
    exact ⟨⟨h.cards, h.graph⟩, h.results, h.evidence, h.diagnostics, h.metadata⟩

section Reading

variable {reprOf : Value → String}

/-- A text `_clean_str` leaves as it is. -/
def Clean (s : String) : Prop := strip s = s ∧ s ≠ ""

theorem cleanStr_str (s : String) :
    cleanStr reprOf (.str s) = if strip s = "" then none else some (strip s) := rfl

theorem cleanStr_iff {s : String} : cleanStr reprOf (.str s) = some s ↔ Clean s := by
  rw [cleanStr_str]
  unfold Clean
  constructor
  · intro h
    split at h
    · cases h
    · have hs : strip s = s := Option.some.inj h
      exact ⟨hs, fun he => by simp_all⟩
  · rintro ⟨hs, hne⟩
    rw [if_neg (by rwa [hs]), hs]

theorem cleanStr_getD {s default : String} (hd : default ≠ s) :
    (cleanStr reprOf (.str s)).getD default = s ↔ Clean s := by
  rw [← @cleanStr_iff reprOf]
  cases hc : cleanStr reprOf (.str s) with
  | none => simp [hd]
  | some t => simp

theorem strOr_str (s default : String) : strOr reprOf (.str s) default = textOr s default := by
  unfold strOr orElse textOr
  by_cases hs : s = ""
  · simp [hs, Value.truthy, strOf]
  · simp [hs, Value.truthy, strOf]

theorem textOr_iff {s default : String} (hd : default ≠ "") : textOr s default = s ↔ s ≠ "" := by
  unfold textOr
  by_cases hs : s = ""
  · simp [hs, hd]
  · simp [hs]

theorem mappingTuple_dictList (xs : List (List (String × Value))) :
    mappingTuple (dictList xs) = xs := by
  show (xs.map Value.dict).map mappingItem = xs
  rw [List.map_map]
  exact List.map_id xs

theorem cardsFromValues_iff {cards : List TaskBoardCard} :
    cardsFromValues reprOf (cards.map TaskBoardCard.toDict) = .ok cards ↔
      ∀ card ∈ cards, cardFromValue reprOf card.toDict = .ok card := by
  induction cards with
  | nil => simp [cardsFromValues]
  | cons card cards ih =>
    simp only [List.map_cons, cardsFromValues, List.forall_mem_cons, ← ih]
    cases hc : cardFromValue reprOf card.toDict with
    | error e => simp
    | ok c =>
      cases hcs : cardsFromValues reprOf (cards.map TaskBoardCard.toDict) with
      | error e => simp
      | ok cs => simp

theorem resultsFromEntries_iff {results : Dict String TaskBoardCardResult} :
    resultsFromEntries reprOf (results.map fun p => (p.1, p.2.toDict)) = .ok results ↔
      ∀ p ∈ results, cardResultFromValue reprOf p.2.toDict = .ok p.2 := by
  induction results with
  | nil => simp [resultsFromEntries]
  | cons p results ih =>
    obtain ⟨k, result⟩ := p
    obtain ⟨kvs, hk⟩ : ∃ kvs, result.toDict = .dict kvs := ⟨_, rfl⟩
    rw [List.map_cons, List.forall_mem_cons, ← ih]
    simp only [hk, resultsFromEntries]
    cases hc : cardResultFromValue reprOf (.dict kvs) with
    | error e => simp
    | ok r =>
      cases hrs : resultsFromEntries reprOf (results.map fun p => (p.1, p.2.toDict)) with
      | error e => simp
      | ok rs => simp

/-- What `from_value` must find in a revision's mapping to give the revision back. -/
structure ReadBack (reprOf : Value → String) (r : TaskBoardRevision) : Prop where
  boardId : Clean r.boardId
  revisionId : Clean r.revisionId
  graphId : Clean r.graph.graphId
  graphVersion : r.graph.schemaVersion ≠ ""
  cards : ∀ card ∈ r.graph.cards, cardFromValue reprOf card.toDict = .ok card
  status : r.status ≠ ""
  results : ∀ p ∈ r.cardResults, cardResultFromValue reprOf p.2.toDict = .ok p.2
  version : r.schemaVersion ≠ ""

theorem get_cons (k' : String) (v : Value) (rest : List (String × Value)) (k : String) :
    TaskDAGValidation.get ((k', v) :: rest) k =
      if k' = k then v else TaskDAGValidation.get rest k := by
  unfold TaskDAGValidation.get
  rw [Dict.get?_cons]
  split <;> rfl

theorem graphFromValue_toDict (fresh : String) (graph : TaskBoardGraph) :
    graphFromValue reprOf fresh graph.toDict =
      match cardsFromValues reprOf (graph.cards.map TaskBoardCard.toDict) with
      | .error e => .error e
      | .ok cards => .ok
          { graphId := (cleanStr reprOf (.str graph.graphId)).getD ("task_board_graph-" ++ fresh)
            cards := cards
            metadata := graph.metadata
            schemaVersion := textOr graph.schemaVersion taskBoardSchemaVersion } := by
  unfold graphFromValue TaskBoardGraph.toDict
  simp only [get_cons, String.reduceEq, if_false, if_true, strOr_str, mapping] <;> rfl

theorem orElse_graph (graph : TaskBoardGraph) (v : Value) : orElse graph.toDict v = graph.toDict :=
  if_pos rfl

theorem orElse_dict (kvs : List (String × Value)) : orElse (.dict kvs) (.dict []) = .dict kvs := by
  cases kvs with
  | nil => exact if_neg (by decide)
  | cons p kvs => exact if_pos rfl

theorem revisionFromValue_toDict (fresh : String) (r : TaskBoardRevision) :
    revisionFromValue reprOf fresh r.toDict =
      match cleanStr reprOf (.str r.boardId) with
      | none => .error (.valueError "TaskBoardRevision requires non-empty 'board_id'.")
      | some boardId =>
        match graphFromValue reprOf fresh r.graph.toDict with
        | .error e => .error e
        | .ok graph =>
          match resultsFromEntries reprOf (r.cardResults.map fun p => (p.1, p.2.toDict)) with
          | .error e => .error e
          | .ok results => .ok
              { boardId := boardId
                revisionId := (cleanStr reprOf (.str r.revisionId)).getD ("rev-" ++ fresh)
                graph := graph
                status := textOr r.status "running"
                cardResults := results
                evidenceRefs := r.evidenceRefs
                diagnostics := r.diagnostics
                metadata := r.metadata
                schemaVersion := textOr r.schemaVersion taskBoardSchemaVersion } := by
  unfold revisionFromValue TaskBoardRevision.toDict
  simp only [get_cons, String.reduceEq, if_false, if_true, strOr_str, mapping, mappingTuple_dictList,
    orElse_graph, orElse_dict] <;> rfl

theorem drawn_ne (pre s : String) : ∃ fresh, pre ++ fresh ≠ s := by
  by_contra h
  push Not at h
  have h₁ := h ""
  have h₂ := h "x"
  have hl := congrArg String.length (h₁.trans h₂.symm)
  simp at hl

theorem ReadBack.reads {r : TaskBoardRevision} (h : ReadBack reprOf r) (fresh : String) :
    revisionFromValue reprOf fresh r.toDict = .ok r := by
  have hrev : cleanStr reprOf (.str r.revisionId) = some r.revisionId :=
    cleanStr_iff.mpr h.revisionId
  have hgid : cleanStr reprOf (.str r.graph.graphId) = some r.graph.graphId :=
    cleanStr_iff.mpr h.graphId
  have hgv : textOr r.graph.schemaVersion taskBoardSchemaVersion = r.graph.schemaVersion :=
    (textOr_iff (by decide)).mpr h.graphVersion
  have hst : textOr r.status "running" = r.status := (textOr_iff (by decide)).mpr h.status
  have hv : textOr r.schemaVersion taskBoardSchemaVersion = r.schemaVersion :=
    (textOr_iff (by decide)).mpr h.version
  rw [revisionFromValue_toDict, graphFromValue_toDict, cleanStr_iff.mpr h.boardId,
    cardsFromValues_iff.mpr h.cards, resultsFromEntries_iff.mpr h.results, hrev, hgid]
  simp only [hgv, hst, hv, Option.getD_some]

theorem readBack_of_reads {r : TaskBoardRevision}
    (h : ∀ fresh, revisionFromValue reprOf fresh r.toDict = .ok r) : ReadBack reprOf r := by
  obtain ⟨fresh, hf⟩ := drawn_ne "rev-" r.revisionId
  obtain ⟨fresh', hf'⟩ := drawn_ne "task_board_graph-" r.graph.graphId
  have h₁ := h fresh
  have h₂ := h fresh'
  rw [revisionFromValue_toDict, graphFromValue_toDict] at h₁ h₂
  obtain ⟨boardId, revisionId, ⟨graphId, cards, graphMeta, graphVersion⟩, status, results⟩ := r
  simp only at hf hf' h₁ h₂
  cases hb : cleanStr reprOf (.str boardId) with
  | none => simp [hb] at h₁
  | some boardId' =>
    cases hc : cardsFromValues reprOf (cards.map TaskBoardCard.toDict) with
    | error e => simp [hb, hc] at h₁
    | ok cards' =>
      cases hr : resultsFromEntries reprOf (results.map fun p => (p.1, p.2.toDict)) with
      | error e => simp [hb, hc, hr] at h₁
      | ok results' =>
        simp only [hb, hc, hr, Except.ok.injEq, TaskBoardRevision.mk.injEq,
          TaskBoardGraph.mk.injEq] at h₁ h₂
        obtain ⟨rfl, hrev, ⟨-, rfl, -, hgv⟩, hst, rfl, -, -, -, hv⟩ := h₁
        obtain ⟨-, -, ⟨hgid, -⟩, -⟩ := h₂
        exact
          { boardId := cleanStr_iff.mp hb
            revisionId := (cleanStr_getD hf).mp hrev
            graphId := (cleanStr_getD hf').mp hgid
            graphVersion := (textOr_iff (by decide)).mp hgv
            cards := cardsFromValues_iff.mp hc
            status := (textOr_iff (by decide)).mp hst
            results := resultsFromEntries_iff.mp hr
            version := (textOr_iff (by decide)).mp hv }

theorem normal_iff (r : TaskBoardRevision) :
    r.Normal reprOf ↔ ReadBack reprOf r ∧ KeptByJson r := by
  constructor
  · intro h
    exact ⟨readBack_of_reads h.reads, (reloads_iff r).mp h.reloads⟩
  · rintro ⟨h₁, h₂⟩
    exact ⟨h₁.reads, (reloads_iff r).mpr h₂⟩

theorem get_nil (k : String) : TaskDAGValidation.get [] k = .none := rfl

theorem cardFromValue_toDict (card : TaskBoardCard) :
    cardFromValue reprOf card.toDict =
      match cleanStr reprOf (orElse (.str card.id) .none) with
      | none => .error (.valueError "TaskBoardCard requires non-empty 'id'.")
      | some id =>
        match cleanStr reprOf (orElse (.str card.objective) .none) with
        | none => .error (.valueError "TaskBoardCard requires non-empty 'objective'.")
        | some objective => .ok
            { id := id
              objective := objective
              dependsOn := strTuple reprOf (textList card.dependsOn)
              inputRefs := strTuple reprOf (textList card.inputRefs)
              requiredOutputs := strTuple reprOf (textList card.requiredOutputs)
              allowedExecutionShape := textOr card.allowedExecutionShape "auto"
              policyScopeRefs := strTuple reprOf (textList card.policyScopeRefs)
              evidenceContract := card.evidenceContract
              failurePolicy := failurePolicyOf reprOf
                (orElse (orElse (.str card.failurePolicy)
                  (TaskDAGValidation.get card.evidenceContract "failure_policy"))
                  (TaskDAGValidation.get card.metadata "failure_policy"))
              status := textOr card.status "pending"
              metadata := card.metadata
              schemaVersion := textOr card.schemaVersion taskBoardSchemaVersion } := by
  unfold cardFromValue TaskBoardCard.toDict
  simp only [get_cons, get_nil, String.reduceEq, if_false, if_true, strOr_str, mapping] <;> rfl

theorem withStatus_reads {card : TaskBoardCard} {status : String}
    (h : cardFromValue reprOf card.toDict = .ok card) (hs : status ≠ "") :
    cardFromValue reprOf (card.withStatus status).toDict = .ok (card.withStatus status) := by
  rw [cardFromValue_toDict] at h ⊢
  obtain ⟨id, objective⟩ := card
  simp only [TaskBoardCard.withStatus] at h ⊢
  cases hid : cleanStr reprOf (orElse (.str id) .none) with
  | none => simp [hid] at h
  | some id' =>
    cases hobj : cleanStr reprOf (orElse (.str objective) .none) with
    | none => simp [hid, hobj] at h
    | some objective' =>
      simp only [hid, hobj, Except.ok.injEq, TaskBoardCard.mk.injEq] at h ⊢
      obtain ⟨h₁, h₂, h₃, h₄, h₅, h₆, h₇, h₈, h₉, -, h₁₁, h₁₂⟩ := h
      exact ⟨h₁, h₂, h₃, h₄, h₅, h₆, h₇, h₈, h₉, (textOr_iff (by decide)).mpr hs, h₁₁, h₁₂⟩

theorem cardResultFromValue_toDict (result : TaskBoardCardResult) :
    cardResultFromValue reprOf result.toDict =
      match cleanStr reprOf (.str result.cardId) with
      | none => .error (.valueError "TaskBoardCardResult requires non-empty 'card_id'.")
      | some cardId => .ok
          { cardId := cardId
            status := (cleanStr reprOf (.str result.status)).getD "completed"
            outputDigest := cleanStr reprOf (textOrNone result.outputDigest)
            preview := result.preview
            artifactRefs := result.artifactRefs
            fileRefs := result.fileRefs
            diagnostics := result.diagnostics
            patchProposal := result.patchProposal
            metadata := result.metadata
            schemaVersion := textOr result.schemaVersion taskBoardSchemaVersion } := by
  unfold cardResultFromValue TaskBoardCardResult.toDict
  simp only [get_cons, String.reduceEq, if_false, if_true, strOr_str, mapping,
    mappingTuple_dictList]
  cases result.patchProposal with
  | none => rfl
  | some p => rfl

theorem result_status_ne {result : TaskBoardCardResult}
    (h : cardResultFromValue reprOf result.toDict = .ok result) : result.status ≠ "" := by
  rw [cardResultFromValue_toDict] at h
  intro hs
  rw [hs] at h
  cases hc : cleanStr reprOf (.str result.cardId) with
  | none => simp [hc] at h
  | some cardId =>
    simp only [hc, Except.ok.injEq] at h
    have he : (cleanStr reprOf (.str "")).getD "completed" = result.status :=
      congrArg TaskBoardCardResult.status h
    have hnone : cleanStr reprOf (.str "") = none := by rw [cleanStr_str, if_pos (by decide)]
    rw [hnone, hs] at he
    exact absurd he (by decide)

def TaskBoardCardResult.cleaned (x : TaskBoardCardResult) : TaskBoardCardResult :=
  { x with
    status := if strip x.status = "" then "completed" else strip x.status
    outputDigest := x.outputDigest.bind fun s => if strip s = "" then none else some (strip s)
    schemaVersion := textOr x.schemaVersion taskBoardSchemaVersion }

theorem reads_cleaned {x : TaskBoardCardResult} (hid : Clean x.cardId) :
    cardResultFromValue reprOf x.toDict = .ok x.cleaned := by
  rw [cardResultFromValue_toDict, cleanStr_iff.mpr hid, cleanStr_str]
  unfold TaskBoardCardResult.cleaned
  have hs : (if strip x.status = "" then none else some (strip x.status)).getD "completed" =
      if strip x.status = "" then "completed" else strip x.status := by
    split <;> rfl
  rw [hs]
  cases hd : x.outputDigest with
  | none => rfl
  | some d => rfl

theorem cleaned_cleaned (x : TaskBoardCardResult) : x.cleaned.cleaned = x.cleaned := by
  unfold TaskBoardCardResult.cleaned
  have hv : textOr (textOr x.schemaVersion taskBoardSchemaVersion) taskBoardSchemaVersion =
      textOr x.schemaVersion taskBoardSchemaVersion := by
    unfold textOr
    split <;> simp_all
  have hs : (if strip (if strip x.status = "" then "completed" else strip x.status) = "" then "completed"
      else strip (if strip x.status = "" then "completed" else strip x.status)) =
      if strip x.status = "" then "completed" else strip x.status := by
    by_cases hx : strip x.status = ""
    · rw [if_pos hx]
      decide
    · rw [if_neg hx, strip_strip, if_neg hx]
  rw [hv, hs]
  cases x.outputDigest with
  | none => rfl
  | some d =>
    by_cases hd : strip d = ""
    · simp [hd]
    · simp [hd, strip_strip]

theorem cleaned_reloads {x : TaskBoardCardResult} (h : JsonStable x.toDict) :
    JsonStable x.cleaned.toDict := by
  unfold TaskBoardCardResult.toDict at h ⊢
  rw [jsonStable_dict] at h ⊢
  simp only [List.forall_mem_cons, jsonStable_str, true_and] at h ⊢
  refine ⟨?_, h.2⟩
  cases x.cleaned.outputDigest with
  | none => rfl
  | some d => rfl

theorem cleaned_normal {x : TaskBoardCardResult} (hid : Clean x.cardId) (h : JsonStable x.toDict) :
    x.cleaned.Normal reprOf := by
  refine ⟨?_, cleaned_reloads h⟩
  rw [reads_cleaned (x := x.cleaned) hid, cleaned_cleaned]

end Reading

theorem clean_of_plain {s : String} (hne : s ≠ "") (h : ∀ c ∈ s.toList, isSpace c = false) :
    Clean s := by
  have hdrop : ∀ l : List Char, (∀ c ∈ l, isSpace c = false) → l.dropWhile isSpace = l := by
    intro l hl
    cases l with
    | nil => rfl
    | cons c l => rw [List.dropWhile_cons, if_neg (by simp [hl c List.mem_cons_self])]
  refine ⟨?_, hne⟩
  unfold strip
  rw [hdrop _ h, hdrop _ (fun c hc => h c (List.mem_reverse.mp hc)), List.reverse_reverse,
    String.ofList_toList]

theorem nextRevisionId_clean (fresh : DrawnId) (id : String) :
    Clean (nextRevisionId fresh.text id) := by
  have hpre : ∀ s : String, (∀ c ∈ s.toList, c.isAlphanum = true) → Clean ("rev-" ++ s) := by
    intro s hs
    refine clean_of_plain (by simp [String.append_eq_empty_iff]) ?_
    intro c hc
    rw [String.toList_append, List.mem_append] at hc
    rcases hc with hc | hc
    · have hall : ("rev-".toList.all fun c => !isSpace c) = true := by decide
      simpa using List.all_eq_true.mp hall c hc
    · exact isSpace_of_alphanum (hs c hc)
  have hfresh := hpre fresh.text (List.all_eq_true.mp fresh.plain)
  unfold nextRevisionId
  split
  · split
    · refine hpre _ ?_
      intro c hc
      have hd : c.isDigit = true := by
        rw [Nat.toString_eq_ofList_toDigits, String.toList_ofList] at hc
        exact Nat.isDigit_of_mem_toDigits (by omega) (by omega) hc
      simp [Char.isAlphanum, hd]
    · exact hfresh
  · exact hfresh

end Agently.TaskBoard
