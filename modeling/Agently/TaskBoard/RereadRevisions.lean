import Agently.TaskBoard.PlayedBoards

/-! # What a revision keeps when it is written and read back

Source: `to_dict` and `from_value` of `types/data/task_board.py`. Whatever a revision holds, the
cards, their dependencies and the statuses that are read back are those that were written, up to
blanks and empty texts. -/

namespace Agently.TaskBoard

open Agently.Lib Agently.Utils
open Agently.TaskDAGValidation (Fault strip strip_strip orElse strOf textOr)

section Reread

variable {reprOf : Value → String}

theorem cleanStr_some {s t : String} (h : cleanStr reprOf (.str s) = some t) : t = strip s := by
  rw [cleanStr_str] at h
  split at h
  · cases h
  · exact (Option.some.inj h).symm

theorem cleanStr_orElse {s t : String} (h : cleanStr reprOf (orElse (.str s) .none) = some t) :
    t = strip s := by
  unfold orElse at h
  split at h
  · exact cleanStr_some h
  · cases h

theorem mem_cleanItems {result vs : List String} {d : String} :
    d ∈ cleanItems reprOf result (vs.map .str) ↔ d ∈ result ∨ ∃ v ∈ vs, strip v = d ∧ d ≠ "" := by
  induction vs generalizing result with
  | nil => simp [cleanItems]
  | cons v rest ih =>
    simp only [List.map_cons, cleanItems, cleanStr_str]
    by_cases hv : strip v = ""
    · rw [if_pos hv]
      dsimp only
      rw [ih]
      simp only [List.mem_cons, exists_eq_or_imp]
      constructor
      · rintro (h | h)
        · exact .inl h
        · exact .inr (.inr h)
      · rintro (h | ⟨rfl, hne⟩ | h)
        · exact .inl h
        · exact absurd hv hne
        · exact .inr h
    · rw [if_neg hv]
      dsimp only
      by_cases hm : strip v ∈ result
      · rw [if_pos hm, ih]
        simp only [List.mem_cons, exists_eq_or_imp]
        constructor
        · rintro (h | h)
          · exact .inl h
          · exact .inr (.inr h)
        · rintro (h | ⟨rfl, -⟩ | h)
          · exact .inl h
          · exact .inl hm
          · exact .inr h
      · rw [if_neg hm, ih]
        simp only [List.mem_append, List.mem_cons, List.not_mem_nil, or_false, exists_eq_or_imp]
        constructor
        · rintro ((h | rfl) | h)
          · exact .inl h
          · exact .inr (.inl ⟨rfl, hv⟩)
          · exact .inr (.inr h)
        · rintro (h | ⟨rfl, -⟩ | h)
          · exact .inl (.inl h)
          · exact .inl (.inr rfl)
          · exact .inr h

theorem mem_strTuple {vs : List String} (hv : ∀ v ∈ vs, Clean v) {d : String} :
    d ∈ strTuple reprOf (textList vs) ↔ d ∈ vs := by
  have h : strTuple reprOf (textList vs) = cleanItems reprOf [] (vs.map .str) := rfl
  rw [h, mem_cleanItems]
  constructor
  · rintro (hm | ⟨v, hm, rfl, -⟩)
    · cases hm
    · rwa [(hv v hm).1]
  · intro hm
    exact .inr ⟨d, hm, hv d hm⟩

/-- What `_failure_policy` makes of a normalised text. -/
def policyOfText (text : String) : String :=
  let normalized := (Dict.get? failurePolicyAliases text).getD text
  if normalized ∈ ["required", "optional", "degradable"] then normalized else "required"

/-- What `task_board_card_failure_policy` makes of it. -/
def cardPolicyOfText (text : String) : String :=
  if text ∈ ["nice_to_have", "best_effort", "non_blocking", "nonblocking"] then "optional"
  else if text ∈ ["soft", "fallback", "degrade"] then "degradable"
  else if text ∈ ["optional", "degradable"] then text
  else "required"

def policyWords : List String := failurePolicyAliases.map Prod.fst ++ ["required", "optional", "degradable"]

theorem policyOfText_eq (text : String) : policyOfText text = cardPolicyOfText text := by
  have hwords : ∀ w ∈ policyWords, policyOfText w = cardPolicyOfText w := by decide
  by_cases hw : text ∈ policyWords
  · exact hwords text hw
  · have hkeys : text ∉ Dict.keys failurePolicyAliases :=
      fun h => hw (List.mem_append_left _ h)
    have hthree : text ∉ ["required", "optional", "degradable"] :=
      fun h => hw (List.mem_append_right _ h)
    have hother : policyOfText text = "required" := by
      unfold policyOfText
      rw [Dict.get?_eq_none_iff.mpr hkeys]
      exact if_neg hthree
    have hin : ∀ {ws : List String}, (∀ w ∈ ws, w ∈ policyWords) → text ∉ ws :=
      fun hws h => hw (hws text h)
    rw [hother, cardPolicyOfText, if_neg (hin (by decide)), if_neg (hin (by decide)),
      if_neg (hin (by decide))]

theorem cardPolicyOfText_words (text : String) :
    cardPolicyOfText text ∈ ["required", "optional", "degradable"] := by
  unfold cardPolicyOfText
  split
  · decide
  · split
    · decide
    · split
      · rename_i h
        exact List.mem_cons_of_mem _ h
      · decide

variable {card : TaskBoardCard}

theorem required_reread {card' : TaskBoardCard} (hne : card.failurePolicy ≠ "") {a b : Value}
    (h : card'.failurePolicy =
      failurePolicyOf reprOf (orElse (orElse (.str card.failurePolicy) a) b)) :
    taskBoardCardRequired card' = taskBoardCardRequired card := by
  have htruthy : (Value.str card.failurePolicy).truthy = true := decide_eq_true hne
  have hread : orElse (orElse (.str card.failurePolicy) a) b = .str card.failurePolicy := by
    unfold orElse
    rw [if_pos htruthy, if_pos htruthy]
  have hpolicy : failurePolicyOf reprOf (.str card.failurePolicy) =
      policyOfText (dashed (lower (strip card.failurePolicy))) := by
    unfold failurePolicyOf orElse
    rw [if_pos htruthy]
    rfl
  have hown : taskBoardCardFailurePolicy card =
      cardPolicyOfText (dashed (lower (strip card.failurePolicy))) := by
    unfold taskBoardCardFailurePolicy textOr
    rw [if_neg hne]
    rfl
  have hwords : ∀ w ∈ ["required", "optional", "degradable"],
      cardPolicyOfText (dashed (lower (strip (textOr w "required")))) = w := by decide +kernel
  have hback : taskBoardCardFailurePolicy card' = taskBoardCardFailurePolicy card := by
    rw [hown]
    show cardPolicyOfText (dashed (lower (strip (textOr card'.failurePolicy "required")))) = _
    rw [h, hread, hpolicy, policyOfText_eq]
    exact hwords _ (cardPolicyOfText_words _)
  unfold taskBoardCardRequired
  rw [hback]

def Rewritten (v w : Value) : Prop := w = v ∨ reloaded v = some w

variable {w : Value}

theorem Rewritten.str {s : String} (h : Rewritten (.str s) w) : w = .str s := by
  rcases h with rfl | h
  · rfl
  · cases h
    rfl

theorem Rewritten.none (h : Rewritten .none w) : w = .none := by
  rcases h with rfl | h
  · rfl
  · cases h
    rfl

theorem Rewritten.textList {xs : List String} (h : Rewritten (textList xs) w) :
    w = TaskBoard.textList xs := by
  rcases h with rfl | h
  · rfl
  · rw [jsonStable_textList xs] at h
    exact (Option.some.inj h).symm

theorem Rewritten.list {xs : List Value} (h : Rewritten (.list xs) w) :
    ∃ ys, w = .list ys ∧ List.Forall₂ Rewritten xs ys := by
  rcases h with rfl | h
  · exact ⟨xs, rfl, List.forall₂_same.mpr fun x _ => .inl rfl⟩
  · obtain ⟨ys, hys, rfl⟩ := Option.map_eq_some_iff.mp h
    refine ⟨ys, rfl, ?_⟩
    clear h
    induction xs generalizing ys with
    | nil =>
      cases hys
      exact .nil
    | cons x xs ih =>
      rw [reloadedList] at hys
      obtain ⟨y, hy, hys⟩ := Option.bind_eq_some_iff.mp hys
      obtain ⟨zs, hzs, rfl⟩ := Option.map_eq_some_iff.mp hys
      exact .cons (.inr hy) (ih zs hzs)

variable {kvs : List (String × Value)}

theorem Rewritten.dict (h : Rewritten (.dict kvs) w) :
    ∃ kvs', w = .dict kvs' ∧
      List.Forall₂ (fun p p' => p'.1 = p.1 ∧ Rewritten p.2 p'.2) kvs kvs' := by
  rcases h with rfl | h
  · exact ⟨kvs, rfl, List.forall₂_same.mpr fun p _ => ⟨rfl, .inl rfl⟩⟩
  · obtain ⟨kvs', hkvs, rfl⟩ := Option.map_eq_some_iff.mp h
    refine ⟨kvs', rfl, ?_⟩
    clear h
    induction kvs generalizing kvs' with
    | nil =>
      cases hkvs
      exact .nil
    | cons p kvs ih =>
      obtain ⟨k, v⟩ := p
      rw [reloadedEntries] at hkvs
      obtain ⟨v', hv, hkvs⟩ := Option.bind_eq_some_iff.mp hkvs
      obtain ⟨rest, hrest, rfl⟩ := Option.map_eq_some_iff.mp hkvs
      exact .cons ⟨rfl, .inr hv⟩ (ih rest hrest)

theorem rewritten_get {kvs' : List (String × Value)}
    (h : List.Forall₂ (fun p p' => p'.1 = p.1 ∧ Rewritten p.2 p'.2) kvs kvs') (k : String) :
    Rewritten (TaskDAGValidation.get kvs k) (TaskDAGValidation.get kvs' k) := by
  induction h with
  | nil => exact .inl rfl
  | @cons p p' kvs kvs' hp _ ih =>
    obtain ⟨k₁, v⟩ := p
    obtain ⟨k₂, v'⟩ := p'
    obtain ⟨rfl, hv⟩ := hp
    rw [get_cons, get_cons]
    split
    · exact hv
    · exact ih

structure RereadCard (card card' : TaskBoardCard) : Prop where
  id : card'.id = strip card.id
  dependsOn : (∀ d ∈ card.dependsOn, Clean d) →
    ∀ d, d ∈ card'.dependsOn ↔ d ∈ card.dependsOn
  status : card'.status = textOr card.status "pending"
  required : card.failurePolicy ≠ "" → taskBoardCardRequired card' = taskBoardCardRequired card
  policy : card'.failurePolicy ≠ ""

theorem cardFromValue_ok (h : cardFromValue reprOf (.dict kvs) = .ok card) :
    cleanStr reprOf (orElse (TaskDAGValidation.get kvs "id") (TaskDAGValidation.get kvs "card_id")) =
        some card.id ∧
      card.dependsOn = strTuple reprOf (TaskDAGValidation.get kvs "depends_on") ∧
      card.status = strOr reprOf (TaskDAGValidation.get kvs "status") "pending" ∧
      ∃ a b, card.failurePolicy = failurePolicyOf reprOf
        (orElse (orElse (TaskDAGValidation.get kvs "failure_policy") a) b) := by
  simp only [cardFromValue] at h
  split at h
  · cases h
  · rename_i id hid
    split at h
    · cases h
    · cases h
      exact ⟨hid, rfl, rfl, _, _, rfl⟩

theorem policy_ne (v : Value) : failurePolicyOf reprOf v ≠ "" := by
  unfold failurePolicyOf
  dsimp only
  split
  · rename_i h
    intro he
    rw [he] at h
    revert h
    decide
  · decide

theorem card_reread {card' : TaskBoardCard} (hw : Rewritten card.toDict w)
    (h : cardFromValue reprOf w = .ok card') : RereadCard card card' := by
  obtain ⟨kvs, rfl, hkvs⟩ := Rewritten.dict hw
  obtain ⟨hid, hdeps, hstatus, a, b, hpolicy⟩ := cardFromValue_ok h
  have hget := rewritten_get hkvs
  rw [(hget "id").str, (hget "card_id").none] at hid
  rw [(hget "depends_on").textList] at hdeps
  rw [(hget "status").str, strOr_str] at hstatus
  rw [(hget "failure_policy").str] at hpolicy
  constructor
  · exact cleanStr_orElse hid
  · intro hclean d
    rw [hdeps]
    exact mem_strTuple hclean
  · exact hstatus
  · intro hne
    exact required_reread hne hpolicy
  · rw [hpolicy]
    exact policy_ne _

structure RereadResult (x x' : TaskBoardCardResult) : Prop where
  cardId : x'.cardId = strip x.cardId
  status : x'.status = if strip x.status = "" then "completed" else strip x.status

theorem cardResultFromValue_ok {x : TaskBoardCardResult}
    (h : cardResultFromValue reprOf (.dict kvs) = .ok x) :
    cleanStr reprOf (TaskDAGValidation.get kvs "card_id") = some x.cardId ∧
      x.status = (cleanStr reprOf (TaskDAGValidation.get kvs "status")).getD "completed" := by
  simp only [cardResultFromValue] at h
  split at h
  · cases h
  · rename_i cardId hid
    cases h
    exact ⟨hid, rfl⟩

theorem result_reread {x x' : TaskBoardCardResult} (hw : Rewritten x.toDict w)
    (h : cardResultFromValue reprOf w = .ok x') : RereadResult x x' := by
  obtain ⟨kvs, rfl, hkvs⟩ := Rewritten.dict hw
  obtain ⟨hid, hstatus⟩ := cardResultFromValue_ok h
  have hget := rewritten_get hkvs
  rw [(hget "card_id").str] at hid
  rw [(hget "status").str, cleanStr_str] at hstatus
  constructor
  · exact cleanStr_some hid
  · rw [hstatus]
    split <;> rfl

structure RereadBoard (r r' : TaskBoardRevision) : Prop where
  cards : List.Forall₂ RereadCard r.graph.cards r'.graph.cards
  results : List.Forall₂ (fun p p' => p'.1 = p.1 ∧ RereadResult p.2 p'.2) r.cardResults r'.cardResults

theorem cards_reread {cards cards' : List TaskBoardCard} {ws : List Value}
    (hw : List.Forall₂ Rewritten (cards.map TaskBoardCard.toDict) ws)
    (h : cardsFromValues reprOf ws = .ok cards') : List.Forall₂ RereadCard cards cards' := by
  induction cards generalizing ws cards' with
  | nil =>
    cases hw
    cases h
    exact .nil
  | cons card cards ih =>
    cases hw with
    | @cons _ w _ ws hcard hrest =>
      rw [cardsFromValues] at h
      cases hc : cardFromValue reprOf w with
      | error e =>
        rw [hc] at h
        cases h
      | ok card' =>
        cases hcs : cardsFromValues reprOf ws with
        | error e =>
          rw [hc, hcs] at h
          cases h
        | ok rest =>
          rw [hc, hcs] at h
          cases h
          exact .cons (card_reread hcard hc) (ih hrest hcs)

theorem results_reread {results results' : Dict String TaskBoardCardResult}
    (hw : List.Forall₂ (fun p p' => p'.1 = p.1 ∧ Rewritten p.2 p'.2)
      (results.map fun p => (p.1, p.2.toDict)) kvs)
    (h : resultsFromEntries reprOf kvs = .ok results') :
    List.Forall₂ (fun p p' => p'.1 = p.1 ∧ RereadResult p.2 p'.2) results results' := by
  induction results generalizing kvs results' with
  | nil =>
    cases hw
    cases h
    exact .nil
  | cons p results ih =>
    cases hw with
    | @cons _ q _ kvs hq hrest =>
      obtain ⟨k, w⟩ := q
      obtain ⟨hk, hw⟩ := hq
      obtain ⟨entries, rfl, -⟩ := Rewritten.dict hw
      rw [resultsFromEntries] at h
      cases hc : cardResultFromValue reprOf (.dict entries) with
      | error e =>
        rw [hc] at h
        cases h
      | ok x =>
        cases hcs : resultsFromEntries reprOf kvs with
        | error e =>
          rw [hc, hcs] at h
          cases h
        | ok rest =>
          rw [hc, hcs] at h
          cases h
          exact .cons ⟨hk, result_reread hw hc⟩ (ih hrest hcs)

theorem revisionFromValue_ok {fresh : String} {r : TaskBoardRevision}
    (h : revisionFromValue reprOf fresh (.dict kvs) = .ok r) :
    graphFromValue reprOf fresh (orElse (TaskDAGValidation.get kvs "graph") (.dict [])) = .ok r.graph ∧
      ∃ raw, orElse (TaskDAGValidation.get kvs "card_results") (.dict []) = .dict raw ∧
        resultsFromEntries reprOf raw = .ok r.cardResults := by
  simp only [revisionFromValue] at h
  split at h
  · cases h
  · split at h
    · cases h
    · rename_i graph hgraph
      split at h
      · rename_i raw hraw
        split at h
        · cases h
        · rename_i results hresults
          cases h
          exact ⟨hgraph, raw, hraw, hresults⟩
      · cases h

theorem graphFromValue_ok {fresh : String} {graph : TaskBoardGraph}
    {xs : List Value} (hcards : TaskDAGValidation.get kvs "cards" = .list xs)
    (h : graphFromValue reprOf fresh (.dict kvs) = .ok graph) :
    cardsFromValues reprOf xs = .ok graph.cards := by
  simp only [graphFromValue, hcards] at h
  split at h
  · cases h
  · rename_i cards hc
    cases h
    exact hc

theorem board_reread {fresh : String} {r r' : TaskBoardRevision}
    (hw : Rewritten r.toDict w) (h : revisionFromValue reprOf fresh w = .ok r') :
    RereadBoard r r' := by
  obtain ⟨kvs, rfl, hkvs⟩ := Rewritten.dict hw
  obtain ⟨hgraph, raw, hraw, hresults⟩ := revisionFromValue_ok h
  have hget := rewritten_get hkvs
  constructor
  · obtain ⟨entries, hentries, hg⟩ := (hget "graph").dict
    obtain ⟨xs, hxs, hcards⟩ := (rewritten_get hg "cards").list
    have hne : (Value.dict entries).truthy = true := by
      cases hg
      rfl
    rw [hentries, orElse, if_pos hne] at hgraph
    exact cards_reread hcards (graphFromValue_ok hxs hgraph)
  · obtain ⟨entries, hentries, he⟩ := (hget "card_results").dict
    rw [hentries, orElse_dict] at hraw
    cases hraw
    exact results_reread he hresults

end Reread

theorem forall₂_right {α β : Type} {R : α → β → Prop} {xs : List α} {ys : List β}
    (h : List.Forall₂ R xs ys) {y : β} (hy : y ∈ ys) : ∃ x ∈ xs, R x y := by
  induction h with
  | nil => cases hy
  | cons hxy _ ih =>
    rcases List.mem_cons.mp hy with rfl | hy
    · exact ⟨_, List.mem_cons_self, hxy⟩
    · obtain ⟨x, hx, hr⟩ := ih hy
      exact ⟨x, List.mem_cons_of_mem _ hx, hr⟩

theorem RereadCard.id_eq {card card' : TaskBoardCard} (h : RereadCard card card')
    (hid : matchesCardId card.id = true) : card'.id = card.id := by
  rw [h.id, (clean_of_cardId hid).1]

theorem ids_reread {cards cards' : List TaskBoardCard} (h : List.Forall₂ RereadCard cards cards')
    (hids : ∀ card ∈ cards, matchesCardId card.id = true) :
    cards'.map TaskBoardCard.id = cards.map TaskBoardCard.id := by
  induction h with
  | nil => rfl
  | cons hc _ ih =>
    rw [List.map_cons, List.map_cons, hc.id_eq (hids _ List.mem_cons_self),
      ih (List.forall_mem_cons.mp hids).2]

theorem RereadBoard.card {r r' : TaskBoardRevision} (h : RereadBoard r r') (hv : ValidRevision r)
    {card' : TaskBoardCard} (hc : card' ∈ r'.graph.cards) :
    ∃ card ∈ r.graph.cards, RereadCard card card' ∧ card'.id = card.id ∧
      ∀ d, d ∈ card'.dependsOn ↔ d ∈ card.dependsOn := by
  obtain ⟨card, hm, hr⟩ := forall₂_right h.cards hc
  refine ⟨card, hm, hr, hr.id_eq (hv.ids card hm), hr.dependsOn ?_⟩
  intro d hd
  obtain ⟨dep, hdep, rfl⟩ := List.mem_map.mp (hv.known card hm d hd)
  exact clean_of_cardId (hv.ids dep hdep)

theorem RereadBoard.valid {r r' : TaskBoardRevision} (h : RereadBoard r r') (hv : ValidRevision r) :
    ValidRevision r' := by
  have hids : r'.graph.ids = r.graph.ids := ids_reread h.cards hv.ids
  have hnodup : r'.graph.ids.Nodup := hids ▸ hv.ids_nodup
  constructor
  · intro hnil
    have hcards := h.cards
    rw [hnil] at hcards
    cases hc : r.graph.cards with
    | nil => exact hv.nonempty hc
    | cons card rest =>
      rw [hc] at hcards
      cases hcards
  · intro card' hc'
    obtain ⟨card, hc, -, hid, -⟩ := h.card hv hc'
    rw [hid]
    exact hv.ids card hc
  · exact hnodup
  · intro card' hc' d hd
    obtain ⟨card, hc, -, -, hdeps⟩ := h.card hv hc'
    rw [hids]
    exact hv.known card hc d ((hdeps d).mp hd)
  · intro x hx
    refine hv.acyclic x (Relation.TransGen.mono ?_ x x hx)
    intro d y ⟨hd, hy, hdy⟩
    refine ⟨hids ▸ hd, hids ▸ hy, ?_⟩
    obtain ⟨card', hc', rfl, hf'⟩ := cardById_of_mem_ids hnodup hy
    obtain ⟨card, hc, -, hid, hdeps⟩ := h.card hv hc'
    have hf : r.graph.cardById card'.id = some card := by
      rw [hid]
      exact DependencyList.find_of_mem hv.ids_nodup hc
    rw [TaskBoardGraph.dependsOn, hf'] at hdy
    rw [TaskBoardGraph.dependsOn, hf]
    exact (hdeps d).mp hdy
  · intro p' hp'
    obtain ⟨p, hp, hk, hx⟩ := forall₂_right h.results hp'
    obtain ⟨hknown, hcardId⟩ := hv.results p hp
    obtain ⟨card, hc, hid⟩ := List.mem_map.mp hknown
    rw [hids, hk, hx.cardId, hcardId]
    refine ⟨hknown, ?_⟩
    rw [← hid]
    exact (clean_of_cardId (hv.ids card hc)).1

end Agently.TaskBoard
