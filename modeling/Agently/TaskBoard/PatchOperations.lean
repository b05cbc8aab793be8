import Agently.TaskBoard.ValidBoards

/-! # What one operation of a patch does

Source: the loop of `apply_task_board_patch`. -/

namespace Agently.TaskBoard

open Agently.Lib Agently.Utils
open Agently.TaskDAGValidation (Fault strip orElse strOf bind_eq_ok then_eq_ok)

section Operations

variable (reprOf : Value → String)

def operationName (operation : List (String × Value)) : String :=
  strip (strOf reprOf (orElse (TaskDAGValidation.get operation "op") (.str "")))

inductive CardChange (operation : List (String × Value)) :
    String → (TaskBoardCard → TaskBoardCard) → Prop
  | update (card : TaskBoardCard) (name : operationName reprOf operation = "update_card")
      (read : operationCard reprOf operation = .ok card) :
      CardChange operation card.id fun _ => card
  | status (cardId : String) (name : operationName reprOf operation = "set_card_status")
      (read : operationText reprOf operation "card_id" = .ok cardId) :
      CardChange operation cardId fun card =>
        card.withStatus (strOr reprOf (TaskDAGValidation.get operation "status") "pending")
  | addDependency (cardId dependency : String)
      (name : operationName reprOf operation = "add_dependency")
      (read : operationText reprOf operation "dependency" = .ok dependency) :
      CardChange operation cardId fun card =>
        card.withDependencies reprOf (card.dependsOn ++ [dependency])
  | removeDependency (cardId dependency : String)
      (name : operationName reprOf operation = "remove_dependency")
      (read : operationText reprOf operation "dependency" = .ok dependency) :
      CardChange operation cardId fun card =>
        card.withDependencies reprOf (card.dependsOn.filter fun d => d ≠ dependency)

inductive Effect (p : Patching) (operation : List (String × Value)) : Patching → Prop
  | added (card : TaskBoardCard) (name : operationName reprOf operation = "add_card")
      (read : operationCard reprOf operation = .ok card)
      (new : card.id ∉ p.cards.map TaskBoardCard.id) :
      Effect p operation { p with cards := p.cards ++ [card] }
  | changed (cardId : String) (change : TaskBoardCard → TaskBoardCard) (cards : List TaskBoardCard)
      (by_operation : CardChange reprOf operation cardId change)
      (ran : changeCard change cardId p.cards = .ok cards) :
      Effect p operation { p with cards := cards }
  | recorded (result : TaskBoardCardResult) (cards : List TaskBoardCard)
      (name : operationName reprOf operation = "record_card_result")
      (read : cardResultFromValue reprOf
        (orElse (TaskDAGValidation.get operation "result") (.dict [])) = .ok result)
      (ran : changeCard (fun card => card.withStatus result.status) result.cardId p.cards = .ok cards) :
      Effect p operation
        { p with cards := cards, cardResults := p.cardResults.set result.cardId result }
  | metadata (kvs : List (String × Value)) (name : operationName reprOf operation = "update_metadata")
      (read : orElse (TaskDAGValidation.get operation "metadata") (.dict []) = .dict kvs) :
      Effect p operation
        { p with metadata := kvs.foldl (fun m q => Dict.set m q.1 q.2) p.metadata }
  | aside (evidenceRefs diagnostics : List (List (String × Value))) (status : String)
      (explicitBoardStatus : Bool)
      (name : operationName reprOf operation ∈
        ["append_evidence_ref", "append_diagnostic", "set_board_status"]) :
      Effect p operation
        { p with
          evidenceRefs := evidenceRefs, diagnostics := diagnostics, status := status
          explicitBoardStatus := explicitBoardStatus }

variable {reprOf}

theorem changed_ok {p p' : Patching} {change : TaskBoardCard → TaskBoardCard} {id : String}
    (h : p.changeCard change id = .ok p') :
    ∃ cards, changeCard change id p.cards = .ok cards ∧ p' = { p with cards := cards } := by
  unfold Patching.changeCard at h
  cases hc : changeCard change id p.cards with
  | error e =>
    rw [hc] at h
    cases h
  | ok cards =>
    rw [hc] at h
    cases h
    exact ⟨cards, rfl, rfl⟩

theorem apply_effect {p p' : Patching} {operation : List (String × Value)}
    (h : p.apply reprOf operation = .ok p') : Effect reprOf p operation p' := by
  unfold Patching.apply at h
  split at h
  · rename_i hname
    obtain ⟨card, hcard, h⟩ := bind_eq_ok.mp h
    split at h
    · cases h
    · rename_i hnew
      cases h
      refine .added card hname hcard ?_
      intro hm
      obtain ⟨existing, he, hid⟩ := List.mem_map.mp hm
      exact hnew (List.any_eq_true.mpr ⟨existing, he, decide_eq_true hid⟩)
  · rename_i hname
    obtain ⟨card, hcard, h⟩ := bind_eq_ok.mp h
    obtain ⟨cards, hran, rfl⟩ := changed_ok h
    exact .changed _ _ cards (.update card hname hcard) hran
  · rename_i hname
    obtain ⟨cardId, hid, h⟩ := bind_eq_ok.mp h
    obtain ⟨cards, hran, rfl⟩ := changed_ok h
    exact .changed _ _ cards (.status cardId hname hid) hran
  · rename_i hname
    obtain ⟨cardId, -, h⟩ := bind_eq_ok.mp h
    obtain ⟨dependency, hd, h⟩ := bind_eq_ok.mp h
    obtain ⟨cards, hran, rfl⟩ := changed_ok h
    exact .changed _ _ cards (.addDependency cardId dependency hname hd) hran
  · rename_i hname
    obtain ⟨cardId, -, h⟩ := bind_eq_ok.mp h
    obtain ⟨dependency, hd, h⟩ := bind_eq_ok.mp h
    obtain ⟨cards, hran, rfl⟩ := changed_ok h
    exact .changed _ _ cards (.removeDependency cardId dependency hname hd) hran
  · rename_i hname
    obtain ⟨result, hresult, h⟩ := bind_eq_ok.mp h
    obtain ⟨cards, hran, h⟩ := bind_eq_ok.mp h
    cases h
    exact .recorded result cards hname hresult hran
  · rename_i hname
    cases h
    exact .aside _ _ _ _ (by simp [operationName, hname])
  · rename_i hname
    cases h
    exact .aside _ _ _ _ (by simp [operationName, hname])
  · rename_i hname
    cases h
    exact .aside _ _ _ _ (by simp [operationName, hname])
  · rename_i hname
    split at h
    · rename_i kvs hkvs
      cases h
      exact .metadata kvs hname hkvs
    · cases h
  · cases h

def Patching.start (r : TaskBoardRevision) : Patching where
  cards := r.graph.cards
  cardResults := r.cardResults
  evidenceRefs := r.evidenceRefs
  diagnostics := r.diagnostics
  metadata := r.metadata
  status := r.status
  explicitBoardStatus := false

theorem applyTaskBoardPatch_iff {fresh : String} {r next : TaskBoardRevision} {patch : TaskBoardPatch} :
    applyTaskBoardPatch reprOf fresh r patch = .ok next ↔
      ValidRevision r ∧ patch.baseRevision = r.revisionId ∧
      ∃ left, Patching.applyAll reprOf (Patching.start r) patch.operations = .ok left ∧
        next = r.patched patch left fresh ∧ ValidRevision next := by
  unfold applyTaskBoardPatch
  rw [then_eq_ok, validate_iff]
  apply and_congr_right
  intro _
  by_cases hb : patch.baseRevision = r.revisionId
  · simp only [hb, ne_eq, not_true_eq_false, if_false, true_and]
    rw [bind_eq_ok]
    apply exists_congr
    intro left
    apply and_congr_right
    intro _
    rw [then_eq_ok, validate_iff]
    constructor
    · rintro ⟨hv, he⟩
      cases he
      exact ⟨rfl, hv⟩
    · rintro ⟨rfl, hv⟩
      exact ⟨hv, rfl⟩
  · simp only [hb, ne_eq, not_false_eq_true, if_true, false_and, iff_false]
    intro h
    cases h

theorem Patching.applyAll_cons {p p' : Patching} {operation : List (String × Value)}
    {rest : List (List (String × Value))} (h : applyAll reprOf p (operation :: rest) = .ok p') :
    ∃ q, p.apply reprOf operation = .ok q ∧ applyAll reprOf q rest = .ok p' := by
  rw [applyAll] at h
  cases hq : p.apply reprOf operation with
  | error e =>
    rw [hq] at h
    cases h
  | ok q =>
    rw [hq] at h
    exact ⟨q, rfl, h⟩

end Operations

end Agently.TaskBoard
