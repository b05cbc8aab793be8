import Agently.TaskDAG.TaskDAGData

/-! # Boards as data

Source: `types/data/task_board.py`. Cards, results and revisions are read from mappings by
`from_value` and written back by `to_dict`; `reprOf` is `str()` of what is no string, and `fresh`
the identifiers drawn for the ids a mapping leaves out. -/

namespace Agently.TaskBoard

open Agently.Lib Agently.Utils
open Agently.TaskDAGValidation (Fault typeName strip get orElse strOf textOr)

def taskBoardSchemaVersion : String := "task_board/v1"

/-- `str.lower`, as far as the result is compared with ASCII words: besides the ASCII
letters only the Kelvin sign becomes one. -/
def lowerChar (c : Char) : Char := if c = Char.ofNat 0x212A then 'k' else c.toLower

def lower (s : String) : String := s.map lowerChar

def dashed (s : String) : String := s.map fun c => if c = '-' then '_' else c

structure TaskBoardCard where
  id : String
  objective : String
  dependsOn : List String := []
  inputRefs : List String := []
  requiredOutputs : List String := []
  allowedExecutionShape : String := "auto"
  policyScopeRefs : List String := []
  evidenceContract : List (String × Value) := []
  failurePolicy : String := "required"
  status : String := "pending"
  metadata : List (String × Value) := []
  schemaVersion : String := taskBoardSchemaVersion
  deriving DecidableEq

structure TaskBoardGraph where
  graphId : String
  cards : List TaskBoardCard
  metadata : List (String × Value) := []
  schemaVersion : String := taskBoardSchemaVersion

structure TaskBoardCardResult where
  cardId : String
  status : String
  outputDigest : Option String := none
  preview : Value := .none
  artifactRefs : List (List (String × Value)) := []
  fileRefs : List (List (String × Value)) := []
  diagnostics : List (List (String × Value)) := []
  patchProposal : Option (List (String × Value)) := none
  metadata : List (String × Value) := []
  schemaVersion : String := taskBoardSchemaVersion
  deriving DecidableEq

structure TaskBoardRevision where
  boardId : String
  revisionId : String
  graph : TaskBoardGraph
  status : String := "running"
  cardResults : Dict String TaskBoardCardResult := []
  evidenceRefs : List (List (String × Value)) := []
  diagnostics : List (List (String × Value)) := []
  metadata : List (String × Value) := []
  schemaVersion : String := taskBoardSchemaVersion

structure TaskBoardSchedulePlan where
  revisionId : String
  runnableCardIds : List String
  blockedCardIds : List String := []
  completedCardIds : List String := []
  diagnostics : List (List (String × Value)) := []

section Reading

variable (reprOf : Value → String)

def cleanStr : Value → Option String
  | .none => none
  | v =>
    let text := strip (strOf reprOf v)
    if text = "" then none else some text

def cleanItems (result : List String) : List Value → List String
  | [] => result
  | v :: rest =>
    match cleanStr reprOf v with
    | some text =>
      if text ∈ result then cleanItems result rest else cleanItems (result ++ [text]) rest
    | none => cleanItems result rest

def strTuple : Value → List String
  | .none => []
  | .list xs | .tuple xs => cleanItems reprOf [] xs
  | v => (cleanStr reprOf v).toList

def mapping : Value → List (String × Value)
  | .dict kvs => kvs
  | _ => []

def mappingItem : Value → List (String × Value)
  | .dict kvs => kvs
  | v => [("value", v)]

def mappingTuple : Value → List (List (String × Value))
  | .none => []
  | .dict kvs => [kvs]
  | .list xs | .tuple xs => xs.map mappingItem
  | v => [[("value", v)]]

def failurePolicyAliases : List (String × String) :=
  [("must", "required"), ("mandatory", "required"), ("critical", "required"),
   ("nice_to_have", "optional"), ("best_effort", "optional"), ("non_blocking", "optional"),
   ("nonblocking", "optional"), ("soft", "degradable"), ("fallback", "degradable"),
   ("degrade", "degradable")]

def failurePolicyOf (value : Value) : String :=
  let text := dashed (lower (strip (strOf reprOf (orElse value (.str "required")))))
  let normalized := (Dict.get? failurePolicyAliases text).getD text
  if normalized ∈ ["required", "optional", "degradable"] then normalized else "required"

def strOr (value : Value) (default : String) : String := strOf reprOf (orElse value (.str default))

def cardFromValue (value : Value) : Except Fault TaskBoardCard :=
  match value with
  | .dict kvs =>
    match cleanStr reprOf (orElse (get kvs "id") (get kvs "card_id")) with
    | none => .error (.valueError "TaskBoardCard requires non-empty 'id'.")
    | some id =>
      match cleanStr reprOf (orElse (get kvs "objective") (get kvs "goal")) with
      | none => .error (.valueError "TaskBoardCard requires non-empty 'objective'.")
      | some objective => .ok
          { id := id
            objective := objective
            dependsOn := strTuple reprOf (get kvs "depends_on")
            inputRefs := strTuple reprOf (get kvs "input_refs")
            requiredOutputs := strTuple reprOf (get kvs "required_outputs")
            allowedExecutionShape := strOr reprOf (get kvs "allowed_execution_shape") "auto"
            policyScopeRefs := strTuple reprOf (get kvs "policy_scope_refs")
            evidenceContract := mapping (get kvs "evidence_contract")
            failurePolicy := failurePolicyOf reprOf
              (orElse (orElse (get kvs "failure_policy")
                (get (mapping (get kvs "evidence_contract")) "failure_policy"))
                (get (mapping (get kvs "metadata")) "failure_policy"))
            status := strOr reprOf (get kvs "status") "pending"
            metadata := mapping (get kvs "metadata")
            schemaVersion := strOr reprOf (get kvs "schema_version") taskBoardSchemaVersion }
  | v => .error (.typeError ("TaskBoardCard must be a mapping or TaskBoardCard, got: <class '" ++
      typeName v ++ "'>."))

def cardsFromValues : List Value → Except Fault (List TaskBoardCard)
  | [] => .ok []
  | v :: rest =>
    match cardFromValue reprOf v with
    | .error e => .error e
    | .ok card =>
      match cardsFromValues rest with
      | .error e => .error e
      | .ok cards => .ok (card :: cards)

def graphFromValue (fresh : String) (value : Value) : Except Fault TaskBoardGraph :=
  match value with
  | .dict kvs =>
    match get kvs "cards" with
    | .none => .error (.valueError "TaskBoardGraph requires 'cards'.")
    | .list raw | .tuple raw =>
      match cardsFromValues reprOf raw with
      | .error e => .error e
      | .ok cards => .ok
          { graphId := (cleanStr reprOf (get kvs "graph_id")).getD ("task_board_graph-" ++ fresh)
            cards := cards
            metadata := mapping (get kvs "metadata")
            schemaVersion := strOr reprOf (get kvs "schema_version") taskBoardSchemaVersion }
    | v => .error (.typeError ("TaskBoardGraph 'cards' must be a sequence, got: <class '" ++
        typeName v ++ "'>."))
  | v => .error (.typeError ("TaskBoardGraph must be a mapping or TaskBoardGraph, got: <class '" ++
      typeName v ++ "'>."))

def cardResultFromValue (value : Value) : Except Fault TaskBoardCardResult :=
  match value with
  | .dict kvs =>
    match cleanStr reprOf (get kvs "card_id") with
    | none => .error (.valueError "TaskBoardCardResult requires non-empty 'card_id'.")
    | some cardId => .ok
        { cardId := cardId
          status := (cleanStr reprOf (get kvs "status")).getD "completed"
          outputDigest := cleanStr reprOf (get kvs "output_digest")
          preview := get kvs "preview"
          artifactRefs := mappingTuple (get kvs "artifact_refs")
          fileRefs := mappingTuple (get kvs "file_refs")
          diagnostics := mappingTuple (get kvs "diagnostics")
          patchProposal := match get kvs "patch_proposal" with
            | .dict p => some p
            | _ => none
          metadata := mapping (get kvs "metadata")
          schemaVersion := strOr reprOf (get kvs "schema_version") taskBoardSchemaVersion }
  | v => .error (.typeError
      ("TaskBoardCardResult must be a mapping or TaskBoardCardResult, got: <class '" ++
        typeName v ++ "'>."))

def resultsFromEntries : List (String × Value) → Except Fault (Dict String TaskBoardCardResult)
  | [] => .ok []
  | (k, .dict kvs) :: rest =>
    match cardResultFromValue reprOf (.dict kvs) with
    | .error e => .error e
    | .ok result =>
      match resultsFromEntries rest with
      | .error e => .error e
      | .ok results => .ok ((k, result) :: results)
  | _ :: rest => resultsFromEntries rest

def revisionFromValue (fresh : String) (value : Value) : Except Fault TaskBoardRevision :=
  match value with
  | .dict kvs =>
    match cleanStr reprOf (get kvs "board_id") with
    | none => .error (.valueError "TaskBoardRevision requires non-empty 'board_id'.")
    | some boardId =>
      match graphFromValue reprOf fresh (orElse (get kvs "graph") (.dict [])) with
      | .error e => .error e
      | .ok graph =>
        match orElse (get kvs "card_results") (.dict []) with
        | .dict raw =>
          match resultsFromEntries reprOf raw with
          | .error e => .error e
          | .ok results => .ok
              { boardId := boardId
                revisionId := (cleanStr reprOf (get kvs "revision_id")).getD ("rev-" ++ fresh)
                graph := graph
                status := strOr reprOf (get kvs "status") "running"
                cardResults := results
                evidenceRefs := mappingTuple (get kvs "evidence_refs")
                diagnostics := mappingTuple (get kvs "diagnostics")
                metadata := mapping (get kvs "metadata")
                schemaVersion :=
                  strOr reprOf (get kvs "schema_version") taskBoardSchemaVersion }
        | _ => .error (.typeError "TaskBoardRevision 'card_results' must be a mapping.")
  | v => .error (.typeError
      ("TaskBoardRevision must be a mapping or TaskBoardRevision, got: <class '" ++
        typeName v ++ "'>."))

end Reading

def textList (xs : List String) : Value := .list (xs.map .str)

def textOrNone : Option String → Value
  | some s => .str s
  | none => .none

def TaskBoardCard.toDict (card : TaskBoardCard) : Value :=
  .dict [("schema_version", .str card.schemaVersion), ("id", .str card.id),
    ("objective", .str card.objective), ("depends_on", textList card.dependsOn),
    ("input_refs", textList card.inputRefs), ("required_outputs", textList card.requiredOutputs),
    ("allowed_execution_shape", .str card.allowedExecutionShape),
    ("policy_scope_refs", textList card.policyScopeRefs),
    ("evidence_contract", .dict card.evidenceContract),
    ("failure_policy", .str card.failurePolicy), ("status", .str card.status),
    ("metadata", .dict card.metadata)]

def TaskBoardGraph.toDict (graph : TaskBoardGraph) : Value :=
  .dict [("schema_version", .str graph.schemaVersion), ("graph_id", .str graph.graphId),
    ("cards", .list (graph.cards.map TaskBoardCard.toDict)), ("metadata", .dict graph.metadata)]

def dictList (xs : List (List (String × Value))) : Value := .list (xs.map .dict)

def TaskBoardCardResult.toDict (result : TaskBoardCardResult) : Value :=
  .dict [("schema_version", .str result.schemaVersion), ("card_id", .str result.cardId),
    ("status", .str result.status), ("output_digest", textOrNone result.outputDigest),
    ("preview", result.preview), ("artifact_refs", dictList result.artifactRefs),
    ("file_refs", dictList result.fileRefs), ("diagnostics", dictList result.diagnostics),
    ("patch_proposal", match result.patchProposal with
      | some p => .dict p
      | none => .none),
    ("metadata", .dict result.metadata)]

def TaskBoardRevision.toDict (revision : TaskBoardRevision) : Value :=
  .dict [("schema_version", .str revision.schemaVersion), ("board_id", .str revision.boardId),
    ("revision_id", .str revision.revisionId), ("status", .str revision.status),
    ("graph", revision.graph.toDict),
    ("card_results", .dict (revision.cardResults.map fun p => (p.1, p.2.toDict))),
    ("evidence_refs", dictList revision.evidenceRefs),
    ("diagnostics", dictList revision.diagnostics), ("metadata", .dict revision.metadata)]

mutual

/-- `json.loads(json.dumps(v))`; `none` where `dumps` raises. -/
def reloaded : Value → Option Value
  | .none => some .none
  | .bool b => some (.bool b)
  | .int n => some (.int n)
  | .str s => some (.str s)
  | .list xs | .tuple xs => (reloadedList xs).map .list
  | .dict kvs => (reloadedEntries kvs).map .dict
  | .empty | .object _ _ => none

def reloadedList : List Value → Option (List Value)
  | [] => some []
  | x :: xs => (reloaded x).bind fun x => (reloadedList xs).map fun xs => x :: xs

def reloadedEntries : List (String × Value) → Option (List (String × Value))
  | [] => some []
  | (k, v) :: rest =>
    (reloaded v).bind fun v => (reloadedEntries rest).map fun rest => (k, v) :: rest

end

/-- A revision whose mapping `from_value` reads back as it is and JSON keeps. -/
structure TaskBoardRevision.Normal (reprOf : Value → String) (r : TaskBoardRevision) : Prop where
  reads : ∀ fresh, revisionFromValue reprOf fresh r.toDict = .ok r
  reloads : reloaded r.toDict = some r.toDict

structure TaskBoardCardResult.Normal (reprOf : Value → String) (r : TaskBoardCardResult) : Prop where
  reads : cardResultFromValue reprOf r.toDict = .ok r
  reloads : reloaded r.toDict = some r.toDict

end Agently.TaskBoard
