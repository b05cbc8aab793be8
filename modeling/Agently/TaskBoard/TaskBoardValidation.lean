import Agently.TaskBoard.TaskBoardData
import Agently.TaskDAG.TaskDAGValidation

/-! # Validating, scheduling and patching a board

Source: `TaskBoard/TaskBoardValidation.py` and the end of `types/data/task_board.py`. -/

namespace Agently.TaskBoard

open Agently.Lib Agently.Utils
open Agently.TaskDAGValidation (Fault strip get orElse strOf textOr sortedIds duplicates checkEach)

def raise {α : Type} (message : String) : Except Fault α := .error (.valueError message)

def terminalCardStatuses : List String := ["completed", "failed", "blocked", "skipped"]

def satisfyingDegradedStatuses : List String := ["failed", "blocked", "skipped", "setback"]

def isIdChar (c : Char) : Bool := c.isAlphanum || c == '_' || c == '.' || c == '-'

def matchesCardId (s : String) : Bool := !s.toList.isEmpty && s.toList.all isIdChar

def TaskBoardGraph.ids (graph : TaskBoardGraph) : List String := graph.cards.map TaskBoardCard.id

def TaskBoardGraph.cardById (graph : TaskBoardGraph) (id : String) : Option TaskBoardCard :=
  graph.cards.find? fun card => decide (card.id = id)

def TaskBoardGraph.dependsOn (graph : TaskBoardGraph) (id : String) : List String :=
  ((graph.cardById id).map TaskBoardCard.dependsOn).getD []

def TaskBoardGraph.adjacency (graph : TaskBoardGraph) (id : String) : List String :=
  graph.cards.flatMap fun card => (card.dependsOn.filter fun d => d = id).map fun _ => card.id

def TaskBoardGraph.roots (graph : TaskBoardGraph) : List String :=
  (graph.cards.filter fun card => card.dependsOn.isEmpty).map TaskBoardCard.id

def TaskBoardGraph.sorted (graph : TaskBoardGraph) : TopologicalSort.State String :=
  TopologicalSort.rounds graph.adjacency graph.ids.length
    { queue := graph.roots
      ordered := []
      indegree := fun id => (graph.dependsOn id).length }

def checkCardId (card : TaskBoardCard) : Except Fault Unit :=
  if card.id = "" then raise "TaskBoardCard id must be non-empty."
  else if matchesCardId card.id = false then
    raise ("TaskBoardCard id '" ++ card.id ++
      "' is invalid. Use letters, digits, underscore, dot, or dash.")
  else .ok ()

def checkDuplicates (ids : List String) : Except Fault Unit :=
  if duplicates [] ids = [] then .ok ()
  else raise ("Duplicate TaskBoardCard id(s): " ++ sortedIds (duplicates [] ids) ++ ".")

def checkDependency (ids : List String) (card : TaskBoardCard) (dependency : String) :
    Except Fault Unit :=
  if dependency ∈ ids then .ok ()
  else raise ("TaskBoardCard '" ++ card.id ++ "' depends on missing card '" ++ dependency ++ "'.")

def checkOrder (graph : TaskBoardGraph) : Except Fault Unit :=
  if graph.roots = [] then raise "TaskBoardGraph must contain at least one root card."
  else if graph.sorted.ordered.length ≠ graph.cards.length then
    raise ("TaskBoardGraph contains a dependency cycle: " ++
      sortedIds (graph.ids.filter fun id => decide (0 < graph.sorted.indegree id)) ++ ".")
  else .ok ()

def checkResult (ids : List String) (p : String × TaskBoardCardResult) : Except Fault Unit :=
  if p.1 ∉ ids then raise ("TaskBoardRevision contains result for unknown card '" ++ p.1 ++ "'.")
  else if p.2.cardId ≠ p.1 then
    raise ("TaskBoardRevision result key '" ++ p.1 ++ "' does not match result.card_id '" ++
      p.2.cardId ++ "'.")
  else .ok ()

def validateTaskBoardRevision (revision : TaskBoardRevision) : Except Fault Unit := do
  let graph := revision.graph
  if graph.cards = [] then raise "TaskBoardGraph must contain at least one card."
  checkEach checkCardId graph.cards
  checkDuplicates graph.ids
  checkEach (fun card => checkEach (checkDependency graph.ids card) card.dependsOn) graph.cards
  checkOrder graph
  checkEach (checkResult graph.ids) revision.cardResults

def taskBoardCardFailurePolicy (card : TaskBoardCard) : String :=
  let text := dashed (lower (strip (textOr card.failurePolicy "required")))
  if text ∈ ["nice_to_have", "best_effort", "non_blocking", "nonblocking"] then "optional"
  else if text ∈ ["soft", "fallback", "degrade"] then "degradable"
  else if text ∈ ["optional", "degradable"] then text
  else "required"

def taskBoardCardRequired (card : TaskBoardCard) : Bool :=
  decide (taskBoardCardFailurePolicy card = "required")

def taskBoardDependencySatisfied (card : TaskBoardCard) : Option TaskBoardCardResult → Bool
  | none => decide (lower (strip card.status) = "skipped") && !taskBoardCardRequired card
  | some result =>
    let status := lower (strip result.status)
    decide (status = "completed") ||
      (decide (status ∈ satisfyingDegradedStatuses) && !taskBoardCardRequired card)

def TaskBoardRevision.ended (revision : TaskBoardRevision) (card : TaskBoardCard) : Bool :=
  ((revision.cardResults.get? card.id).any fun result => decide (result.status ∈ terminalCardStatuses)) ||
    decide (card.status ∈ terminalCardStatuses)

def TaskBoardRevision.satisfied (revision : TaskBoardRevision) (dependency : String) : Bool :=
  (revision.graph.cardById dependency).any fun card =>
    taskBoardDependencySatisfied card (revision.cardResults.get? dependency)

/-- The diagnostic about a dependency that did not complete and is satisfied all the same. -/
def degradedDiagnostic (revision : TaskBoardRevision) (cardId dependency : String) :
    List (List (String × Value)) :=
  match revision.graph.cardById dependency with
  | none => []
  | some card =>
    let result := revision.cardResults.get? dependency
    let status := (result.map TaskBoardCardResult.status).getD card.status
    if taskBoardDependencySatisfied card result ∧ status ∈ satisfyingDegradedStatuses then
      [[("code", .str "taskboard.degraded_dependency_satisfied"), ("card_id", .str cardId),
        ("dependency", .str dependency), ("dependency_status", .str status),
        ("failure_policy", .str (taskBoardCardFailurePolicy card)),
        ("message", .str ("TaskBoardCard '" ++ cardId ++ "' can run because dependency '" ++
          dependency ++ "' is non-required and ended with status '" ++ status ++ "'."))]]
    else []

/-- The cards the loop of `schedule_task_board_revision` looks at: those that have not ended. -/
def TaskBoardRevision.openCards (revision : TaskBoardRevision) : List TaskBoardCard :=
  (revision.graph.sorted.ordered.filterMap revision.graph.cardById).filter fun card =>
    !revision.ended card

def scheduleTaskBoardRevision (revision : TaskBoardRevision) : Except Fault TaskBoardSchedulePlan := do
  validateTaskBoardRevision revision
  let ready := fun card : TaskBoardCard => card.dependsOn.all revision.satisfied
  return {
    revisionId := revision.revisionId
    runnableCardIds := (revision.openCards.filter ready).map TaskBoardCard.id
    blockedCardIds := (revision.openCards.filter fun card => !ready card).map TaskBoardCard.id
    completedCardIds := ((revision.cardResults.filter fun p => p.2.status = "completed").map
      Prod.fst).insertionSort fun a b => a ≤ b
    diagnostics := revision.openCards.flatMap fun card =>
      card.dependsOn.flatMap (degradedDiagnostic revision card.id) }

def TaskBoardSchedulePlan.toDict (plan : TaskBoardSchedulePlan) : Value :=
  .dict [("schema_version", .str taskBoardSchemaVersion), ("revision_id", .str plan.revisionId),
    ("runnable_card_ids", textList plan.runnableCardIds),
    ("blocked_card_ids", textList plan.blockedCardIds),
    ("completed_card_ids", textList plan.completedCardIds),
    ("diagnostics", dictList plan.diagnostics), ("metadata", .dict [])]

structure TaskBoardPatch where
  baseRevision : String
  operations : List (List (String × Value))
  patchId : String
  source : String := "task_board"
  diagnostics : List (List (String × Value)) := []
  evidenceRefs : List (List (String × Value)) := []

structure Patching where
  cards : List TaskBoardCard
  cardResults : Dict String TaskBoardCardResult
  evidenceRefs : List (List (String × Value))
  diagnostics : List (List (String × Value))
  metadata : List (String × Value)
  status : String
  explicitBoardStatus : Bool

/-- `cards[_card_index(cards, id)] = change(..)`: the first card with the id. -/
def changeCard (change : TaskBoardCard → TaskBoardCard) (id : String) :
    List TaskBoardCard → Except Fault (List TaskBoardCard)
  | [] => raise ("Unknown TaskBoardCard '" ++ id ++ "'.")
  | card :: rest =>
    if card.id = id then .ok (change card :: rest)
    else
      match changeCard change id rest with
      | .error e => .error e
      | .ok rest => .ok (card :: rest)

def TaskBoardCard.withStatus (card : TaskBoardCard) (status : String) : TaskBoardCard :=
  { card with status := status }

section Patches

variable (reprOf : Value → String)

def TaskBoardCard.withDependencies (card : TaskBoardCard) (dependencies : List String) :
    TaskBoardCard :=
  { card with dependsOn := strTuple reprOf (textList dependencies) }

def operationText (operation : List (String × Value)) (key : String) : Except Fault String :=
  let text := strip (strOf reprOf (orElse (get operation key) (.str "")))
  if text = "" then
    raise ("TaskBoardPatch operation '" ++ strOf reprOf (get operation "op") ++ "' requires " ++
      key ++ ".")
  else .ok text

def operationCard (operation : List (String × Value)) : Except Fault TaskBoardCard :=
  cardFromValue reprOf (orElse (get operation "card") (.dict []))

def diagnosticOf : Value → List (String × Value)
  | .dict kvs => kvs
  | v => [("message", .str (strOf reprOf v))]

def Patching.changeCard (p : Patching) (change : TaskBoardCard → TaskBoardCard) (id : String) :
    Except Fault Patching := do
  let cards ← TaskBoard.changeCard change id p.cards
  return { p with cards := cards }

def Patching.record (p : Patching) (value : Value) : Except Fault Patching := do
  let result ← cardResultFromValue reprOf (orElse value (.dict []))
  let cards ← TaskBoard.changeCard (fun card => card.withStatus result.status) result.cardId p.cards
  return { p with cards := cards, cardResults := p.cardResults.set result.cardId result }

def Patching.apply (p : Patching) (operation : List (String × Value)) : Except Fault Patching :=
  match strip (strOf reprOf (orElse (get operation "op") (.str ""))) with
  | "add_card" => do
      let card ← operationCard reprOf operation
      if p.cards.any fun existing => decide (existing.id = card.id) then
        raise ("TaskBoardPatch add_card duplicates card '" ++ card.id ++ "'.")
      else return { p with cards := p.cards ++ [card] }
  | "update_card" => do
      let card ← operationCard reprOf operation
      p.changeCard (fun _ => card) card.id
  | "set_card_status" => do
      let cardId ← operationText reprOf operation "card_id"
      p.changeCard (fun card => card.withStatus (strOr reprOf (get operation "status") "pending"))
        cardId
  | "add_dependency" => do
      let cardId ← operationText reprOf operation "card_id"
      let dependency ← operationText reprOf operation "dependency"
      p.changeCard (fun card => card.withDependencies reprOf (card.dependsOn ++ [dependency])) cardId
  | "remove_dependency" => do
      let cardId ← operationText reprOf operation "card_id"
      let dependency ← operationText reprOf operation "dependency"
      p.changeCard (fun card =>
        card.withDependencies reprOf (card.dependsOn.filter fun d => d ≠ dependency)) cardId
  | "record_card_result" => p.record reprOf (get operation "result")
  | "append_evidence_ref" =>
    .ok { p with evidenceRefs := p.evidenceRefs ++ [mappingItem (get operation "ref")] }
  | "append_diagnostic" =>
    .ok { p with diagnostics := p.diagnostics ++ [diagnosticOf reprOf (get operation "diagnostic")] }
  | "set_board_status" =>
    .ok { p with
      status := strOr reprOf (get operation "status") p.status, explicitBoardStatus := true }
  | "update_metadata" =>
    match orElse (get operation "metadata") (.dict []) with
    | .dict kvs => .ok { p with metadata := kvs.foldl (fun m q => Dict.set m q.1 q.2) p.metadata }
    | _ => raise "TaskBoardPatch update_metadata requires mapping metadata."
  | op => raise ("Unsupported TaskBoardPatch operation '" ++ op ++ "'.")

def Patching.applyAll : Patching → List (List (String × Value)) → Except Fault Patching
  | p, [] => .ok p
  | p, operation :: rest =>
    match p.apply reprOf operation with
    | .error e => .error e
    | .ok p => Patching.applyAll p rest

end Patches

def deriveBoardStatus (cards : List TaskBoardCard) (cardResults : Dict String TaskBoardCardResult)
    (currentStatus : String) : String :=
  let statusOf := fun card : TaskBoardCard =>
    lower (strip (((cardResults.get? card.id).map TaskBoardCardResult.status).getD card.status))
  let required := cards.filter taskBoardCardRequired
  if required.any fun card => decide (statusOf card ∈ ["failed", "error"]) then "failed"
  else if cards.any fun card => decide (statusOf card = "setback") then "running"
  else if required.any fun card => decide (statusOf card = "blocked") then "blocked"
  else if cards.all (fun card => decide (statusOf card ∈ terminalCardStatuses)) &&
      required.all (fun card => decide (statusOf card = "completed")) then "completed"
  else currentStatus

def digitsValue (cs : List Char) : Nat := cs.foldl (fun n c => 10 * n + (c.toNat - '0'.toNat)) 0

/-- `_next_revision_id`; `fresh` is the drawn identifier. -/
def nextRevisionId (fresh revisionId : String) : String :=
  match revisionId.toList with
  | 'r' :: 'e' :: 'v' :: '-' :: suffix =>
    if !suffix.isEmpty && suffix.all Char.isDigit then "rev-" ++ toString (digitsValue suffix + 1)
    else "rev-" ++ fresh
  | _ => "rev-" ++ fresh

/-- `metadata["applied_patches"].append(patch_id)`, where that is a list. -/
def notePatch (metadata : List (String × Value)) (patchId : String) : List (String × Value) :=
  match Dict.get? metadata "applied_patches" with
  | none => metadata ++ [("applied_patches", .list [.str patchId])]
  | some (.list xs) => Dict.set metadata "applied_patches" (.list (xs ++ [.str patchId]))
  | some _ => metadata

def TaskBoardRevision.patched (revision : TaskBoardRevision) (patch : TaskBoardPatch) (p : Patching)
    (fresh : String) : TaskBoardRevision :=
  let status := if p.explicitBoardStatus then p.status
    else deriveBoardStatus p.cards p.cardResults p.status
  { revision with
    revisionId := nextRevisionId fresh revision.revisionId
    graph := { revision.graph with cards := p.cards }
    status := textOr status revision.status
    cardResults := p.cardResults
    evidenceRefs := p.evidenceRefs ++ patch.evidenceRefs
    diagnostics := p.diagnostics ++ patch.diagnostics
    metadata := notePatch p.metadata patch.patchId }

def applyTaskBoardPatch (reprOf : Value → String) (fresh : String) (revision : TaskBoardRevision)
    (patch : TaskBoardPatch) : Except Fault TaskBoardRevision := do
  validateTaskBoardRevision revision
  if patch.baseRevision ≠ revision.revisionId then
    raise ("TaskBoardPatch base_revision mismatch: expected '" ++ revision.revisionId ++ "', got '" ++
      patch.baseRevision ++ "'.")
  let p ← Patching.applyAll reprOf
    { cards := revision.graph.cards, cardResults := revision.cardResults
      evidenceRefs := revision.evidenceRefs, diagnostics := revision.diagnostics
      metadata := revision.metadata, status := revision.status, explicitBoardStatus := false }
    patch.operations
  let next := revision.patched patch p fresh
  validateTaskBoardRevision next
  return next

end Agently.TaskBoard
