import Agently.Lib.Machine
import Agently.TaskBoard.TaskBoardValidation

/-! # Ticks of a board

Source: `TaskBoard/TaskBoardRuntime.py`. A tick is an execution whose tasks share the runtime
data: the prepare chunk, one run of `run_card_and_collect` for each requested card, and the
chunk that applies the results. Between two awaits that wait for something, a task is one
step: `async_set_state` suspends nobody where no handler listens to the key. -/

namespace Agently.TaskBoard

open Agently.Lib Agently.Utils
open Agently.TaskDAGValidation (Fault strip get orElse strOf)

inductive HandlerReturn where
  | result (result : TaskBoardCardResult)
  | mapping (data : List (String × Value))
  | value (value : Value)

def setdefault (data : List (String × Value)) (key : String) (value : Value) :
    List (String × Value) :=
  match Dict.get? data key with
  | some _ => data
  | none => data ++ [(key, value)]

section Results

variable (reprOf : Value → String)

def coerceCardResult (cardId : String) : HandlerReturn → Except Fault TaskBoardCardResult
  | .result result =>
    if result.cardId ≠ cardId then
      raise ("TaskBoard handler returned result for '" ++ result.cardId ++ "', expected '" ++
        cardId ++ "'.")
    else .ok result
  | .mapping data =>
    cardResultFromValue reprOf
      (.dict (setdefault (setdefault data "card_id" (.str cardId)) "status" (.str "completed")))
  | .value value => .ok { cardId := cardId, status := "completed", preview := value }

/-- `TaskBoardPatch.from_value` of a mapping; `freshId` names a patch without an id. -/
def patchFromValue (freshId : String) (kvs : List (String × Value)) : Except Fault TaskBoardPatch :=
  match cleanStr reprOf (get kvs "base_revision") with
  | none => raise "TaskBoardPatch requires non-empty 'base_revision'."
  | some baseRevision =>
    match get kvs "operations" with
    | .list xs | .tuple xs => .ok
        { baseRevision := baseRevision
          operations := xs.map fun item => match item with
            | .dict operation => operation
            | v => [("op", .str (strOf reprOf v))]
          patchId := (cleanStr reprOf (get kvs "patch_id")).getD ("patch-" ++ freshId)
          source := strOr reprOf (get kvs "source") "task_board"
          diagnostics := mappingTuple (get kvs "diagnostics")
          evidenceRefs := mappingTuple (get kvs "evidence_refs") }
    | _ => .error (.typeError "TaskBoardPatch requires 'operations' as a sequence.")

structure DrawnId where
  text : String
  plain : text.toList.all Char.isAlphanum = true

def DrawnId.empty : DrawnId := ⟨"", rfl⟩

structure Fresh where
  patchId : DrawnId := .empty
  revisionId : DrawnId := .empty
  proposalId : DrawnId := .empty

def recordOperation (result : TaskBoardCardResult) : List (String × Value) :=
  [("op", .str "record_card_result"), ("result", result.toDict)]

def addResult (fresh : Fresh) (revision : TaskBoardRevision) (patch : TaskBoardPatch)
    (result : TaskBoardCardResult) : Except Fault TaskBoardPatch :=
  let patch := { patch with
    operations := patch.operations ++ [recordOperation result]
    diagnostics := patch.diagnostics ++ result.diagnostics
    evidenceRefs := patch.evidenceRefs ++ result.artifactRefs ++ result.fileRefs }
  match result.patchProposal with
  | none => .ok patch
  | some proposed =>
    match patchFromValue reprOf fresh.proposalId.text proposed with
    | .error e => .error e
    | .ok proposal =>
      if proposal.baseRevision ≠ revision.revisionId then
        raise ("TaskBoardCardResult patch_proposal for card '" ++ result.cardId ++
          "' has base_revision '" ++ proposal.baseRevision ++ "', expected '" ++
          revision.revisionId ++ "'.")
      else .ok { patch with
        operations := patch.operations ++ proposal.operations
        diagnostics := patch.diagnostics ++ proposal.diagnostics
        evidenceRefs := patch.evidenceRefs ++ proposal.evidenceRefs }

def addResults (fresh : Fresh) (revision : TaskBoardRevision) :
    TaskBoardPatch → List TaskBoardCardResult → Except Fault TaskBoardPatch
  | patch, [] => .ok patch
  | patch, result :: rest =>
    match addResult reprOf fresh revision patch result with
    | .error e => .error e
    | .ok patch => addResults fresh revision patch rest

def applyCardResults (fresh : Fresh) (revision : TaskBoardRevision)
    (results : List TaskBoardCardResult) : Except Fault TaskBoardRevision :=
  if results = [] then .ok revision
  else do
    let patch ← addResults reprOf fresh revision
      { baseRevision := revision.revisionId, operations := [], patchId := fresh.patchId.text
        source := "task_board.tick" } results
    applyTaskBoardPatch reprOf fresh.revisionId.text revision patch

def stalePatchDiagnostic (revision : TaskBoardRevision) (cardId error : String) :
    List (String × Value) :=
  [("code", .str "taskboard.frontier.stale_patch_proposal"),
   ("message", .str ("TaskBoard frontier scheduler blocked a stale card patch proposal " ++
      "instead of rebasing it.")),
   ("card_id", .str cardId), ("revision_id", .str revision.revisionId), ("error", .str error),
   ("status", .str "blocked")]

def applyFrontierCardResult (fresh : Fresh) (revision : TaskBoardRevision)
    (result : TaskBoardCardResult) : Except Fault TaskBoardRevision :=
  match applyCardResults reprOf fresh revision [result] with
  | .error (.valueError message) =>
    if result.patchProposal = none ∨ ¬ "base_revision".toList <:+: message.toList then
      .error (.valueError message)
    else
      applyCardResults reprOf fresh revision
        [{ result with
          status := "blocked"
          diagnostics := result.diagnostics ++
            [stalePatchDiagnostic revision result.cardId message]
          patchProposal := none
          metadata := Dict.set (Dict.set result.metadata "blocked_by_frontier_scheduler"
            (.bool true)) "stale_patch_proposal" (.bool true)
          schemaVersion := taskBoardSchemaVersion }]
  | r => r

end Results

inductive Scheduler where
  | frontier
  | batch
  deriving DecidableEq

def Scheduler.text : Scheduler → String
  | .frontier => "frontier"
  | .batch => "batch"

structure TaskBoard where
  revision : TaskBoardRevision
  scheduler : Scheduler

/-- The keys the tick sets; the `.._json` keys hold what the text reads back as. -/
structure TickData where
  topology : Option String := none
  revisionJson : Option Value := none
  scheduleJson : Option Value := none
  runningCardIds : List String := []
  dispatchedCardIds : List String := []
  expectedCardIdsJson : Option (List String) := none
  collectedJson : Option (List (String × Value)) := none
  frontierClosed : Bool := false
  expectedCardIds : Option (List String) := none
  collected : Option (List (String × Value)) := none
  revision : Option Value := none
  cardResults : Option (List (String × Value)) := none
  schedule : Option Value := none
  deriving DecidableEq

inductive TickTask where
  | preparing
  | requesting (cardIds : List String) (frontierComplete : Bool)
  | requested (cardId : String)
  | running (cardId : String) (card : TaskBoardCard) (dependencyResults : Dict String TaskBoardCardResult)
  | collecting (result : TaskBoardCardResult)
  | applyingFrontier
  | applying (values : List Value)
  | returned
  | raised (error : Fault)

/-- A signal of the tick, with the runtime data at the moment it was emitted. -/
inductive TickEvent where
  | cardRequested (cardId : String) (data : TickData)
  | cardsCompleted (data : TickData)

structure TickState where
  data : TickData
  tasks : List TickTask
  log : List TickEvent

/-- What a task is given when it goes on: the outcome of its card handler and drawn ids. -/
structure TickInput where
  answer : Except Fault HandlerReturn := .ok (.value .none)
  fresh : Fresh := {}

structure TickAction where
  task : Nat
  input : TickInput

section Ticks

variable (reprOf : Value → String) (board : TaskBoard)

def revisionFromState (d : TickData) : Except Fault TaskBoardRevision :=
  match d.revisionJson with
  | some v => revisionFromValue reprOf "" v
  | none =>
    match d.revision with
    | some v => revisionFromValue reprOf "" v
    | none => .ok board.revision

def sortedSet (ids : List String) : List String := ids.dedup.insertionSort fun a b => a ≤ b

def storeRevisionState (d : TickData) (revision : TaskBoardRevision) (schedule : TaskBoardSchedulePlan)
    (running dispatched : List String) : Except Fault TickData :=
  match reloaded revision.toDict with
  | none => .error (.typeError "Object is not JSON serializable")
  | some v => .ok { d with
      revisionJson := some v
      scheduleJson := some schedule.toDict
      runningCardIds := sortedSet running
      dispatchedCardIds := sortedSet dispatched
      expectedCardIdsJson := some (sortedSet running) }

/-- `prepare_frontier_dispatch`: the cards to request and whether the frontier is complete. -/
def prepareFrontierDispatch (d : TickData) (revision : TaskBoardRevision) :
    Except Fault (TickData × List String × Bool) := do
  let schedule ← scheduleTaskBoardRevision revision
  let runnable := schedule.runnableCardIds.filter fun id =>
    id ∉ d.runningCardIds ∧ id ∉ d.dispatchedCardIds
  let status := lower (strip revision.status)
  if status = "completed" ∨ (status ∈ ["failed", "blocked"] ∧ runnable = []) then
    let d ← storeRevisionState d revision schedule d.runningCardIds d.dispatchedCardIds
    return (d, [], d.runningCardIds.isEmpty)
  else
    let running := d.runningCardIds ++ runnable
    let d ← storeRevisionState d revision schedule running (d.dispatchedCardIds ++ runnable)
    return (d, runnable, running.isEmpty && runnable.isEmpty)

def setTask (s : TickState) (n : Nat) (task : TickTask) : TickState :=
  { s with tasks := s.tasks.set n task }

def failTask (s : TickState) (n : Nat) (error : Fault) : TickState := setTask s n (.raised error)

def finishDispatch (s : TickState) (n : Nat) :
    Except Fault (TickData × List String × Bool) → TickState
  | .error e => failTask s n e
  | .ok (d, cardIds, complete) => setTask { s with data := d } n (.requesting cardIds complete)

def resultsDict (results : Dict String TaskBoardCardResult) : List (String × Value) :=
  results.map fun p => (p.1, p.2.toDict)

def prepareTick (s : TickState) (n : Nat) : TickState :=
  match board.scheduler with
  | .frontier =>
    let d := { s.data with
      collectedJson := some [], frontierClosed := false, topology := some "frontier" }
    finishDispatch { s with data := d } n (prepareFrontierDispatch d board.revision)
  | .batch =>
    match scheduleTaskBoardRevision board.revision with
    | .error e => failTask s n e
    | .ok schedule =>
      let d := { s.data with schedule := some schedule.toDict, topology := some "batch" }
      if schedule.runnableCardIds = [] then
        setTask { s with data := { d with
          revision := some board.revision.toDict
          cardResults := some (resultsDict board.revision.cardResults) } } n .returned
      else
        setTask { s with data := { d with
          expectedCardIds := some schedule.runnableCardIds, collected := some [] } } n
          (.requesting schedule.runnableCardIds false)

def startRevision (d : TickData) : Except Fault TaskBoardRevision :=
  match board.scheduler with
  | .frontier => revisionFromState reprOf board d
  | .batch => .ok board.revision

def dependencyResults (revision : TaskBoardRevision) (card : TaskBoardCard) :
    Dict String TaskBoardCardResult :=
  card.dependsOn.filterMap fun d => (revision.cardResults.get? d).map fun r => (d, r)

/-- `run_card_and_collect` up to the call of the card handler. -/
def startCard (d : TickData) (cardId : String) : Except Fault TickTask := do
  let revision ← startRevision reprOf board d
  let _ ← scheduleTaskBoardRevision revision
  match revision.graph.cardById cardId with
  | none => raise ("KeyError: '" ++ cardId ++ "'")
  | some card => return .running cardId card (dependencyResults revision card)

/-- The section of `run_card_and_collect` under the lock, in a frontier tick. The id is
discarded from a copy of the running ids that `prepare_frontier_dispatch` does not see: it
reads the stored ones again. -/
def collectFrontier (s : TickState) (n : Nat) (fresh : Fresh) (result : TaskBoardCardResult) :
    TickState :=
  match revisionFromState reprOf board s.data with
  | .error e => failTask s n e
  | .ok current =>
    match applyFrontierCardResult reprOf fresh current result with
    | .error e => failTask s n e
    | .ok next =>
      match reloadedEntries (Dict.set (s.data.collectedJson.getD []) result.cardId result.toDict) with
      | none => failTask s n (.typeError "Object is not JSON serializable")
      | some collected =>
        let d := { s.data with collectedJson := some collected }
        finishDispatch { s with data := d } n (prepareFrontierDispatch d next)

def collectBatch (s : TickState) (n : Nat) (result : TaskBoardCardResult) : TickState :=
  let collected : List (String × Value) :=
    Dict.set (s.data.collected.getD []) result.cardId result.toDict
  let d : TickData := { s.data with collected := some collected }
  let expected : List String := d.expectedCardIds.getD []
  let s := setTask { s with data := d } n .returned
  if !expected.isEmpty && decide (expected.length ≤ collected.length) then
    { s with
      tasks := s.tasks ++ [.applying (expected.filterMap (Dict.get? collected))]
      log := .cardsCompleted d :: s.log }
  else s

def readResults : List Value → Except Fault (List TaskBoardCardResult)
  | [] => .ok []
  | v :: rest =>
    match cardResultFromValue reprOf v with
    | .error e => .error e
    | .ok result =>
      match readResults rest with
      | .error e => .error e
      | .ok results => .ok (result :: results)

def applyResults (d : TickData) (fresh : Fresh) (values : List Value) : Except Fault TickData := do
  let results ← readResults reprOf values
  let next ← applyCardResults reprOf fresh board.revision results
  return { d with revision := some next.toDict, cardResults := some (resultsDict next.cardResults) }

def applyFrontierResults (d : TickData) : Except Fault TickData := do
  let next ← revisionFromState reprOf board d
  let schedule ← scheduleTaskBoardRevision next
  return { d with
    frontierClosed := true, revision := some next.toDict, schedule := some schedule.toDict
    cardResults := some (resultsDict next.cardResults) }

def finishApply (s : TickState) (n : Nat) : Except Fault TickData → TickState
  | .error e => failTask s n e
  | .ok d => setTask { s with data := d } n .returned

def stepTask (s : TickState) (n : Nat) (c : TickInput) : TickTask → Option TickState
  | .preparing => some (prepareTick board s n)
  | .requesting (id :: rest) complete => some
      { s with
        tasks := s.tasks.set n (.requesting rest complete) ++ [.requested id]
        log := .cardRequested id s.data :: s.log }
  | .requesting [] false => some (setTask s n .returned)
  | .requesting [] true =>
    let d := { s.data with frontierClosed := true }
    some { data := d, tasks := s.tasks.set n .returned ++ [.applyingFrontier],
           log := .cardsCompleted d :: s.log }
  | .requested id =>
    match startCard reprOf board s.data id with
    | .error e => some (failTask s n e)
    | .ok task => some (setTask s n task)
  | .running id _ _ =>
    match c.answer with
    | .error e => some (failTask s n e)
    | .ok answer =>
      match coerceCardResult reprOf id answer with
      | .error e => some (failTask s n e)
      | .ok result => some (setTask s n (.collecting result))
  | .collecting result =>
    match board.scheduler with
    | .frontier => some (collectFrontier reprOf board s n c.fresh result)
    | .batch => some (collectBatch s n result)
  | .applyingFrontier => some (finishApply s n (applyFrontierResults reprOf board s.data))
  | .applying values => some (finishApply s n (applyResults reprOf board s.data c.fresh values))
  | .returned | .raised _ => none

def tickStep (s : TickState) (a : TickAction) : Option TickState :=
  s.tasks[a.task]?.bind (stepTask reprOf board s a.task a.input)

def tick : Machine TickState TickAction := ⟨tickStep reprOf board⟩

def TickState.initial : TickState := { data := {}, tasks := [.preparing], log := [] }

def TickTask.isOver : TickTask → Bool
  | .returned | .raised _ => true
  | _ => false

def TickState.finished (s : TickState) : Bool := s.tasks.all TickTask.isOver

def missingIds (expected : List String) (collected : List (String × Value)) : List String :=
  expected.filter fun id => (Dict.get? collected id).isNone

def requestAll (s : TickState) (cardIds : List String) : TickState :=
  { s with
    tasks := s.tasks ++ cardIds.map .requested
    log := (cardIds.map fun id => .cardRequested id s.data).reverse ++ s.log }

/-- A fresh execution of the tick that has loaded `d`, after `async_resume_pending`. -/
def resumePending (d : TickData) : TickState :=
  let s : TickState := { data := d, tasks := [], log := [] }
  if d.topology = some "frontier" then
    match missingIds (d.expectedCardIdsJson.getD []) (d.collectedJson.getD []) with
    | [] => { s with tasks := [.applyingFrontier], log := [.cardsCompleted d] }
    | missing => requestAll s missing
  else
    let expected := d.expectedCardIds.getD []
    let collected := d.collected.getD []
    match missingIds expected collected with
    | [] =>
      if expected = [] then s
      else { s with
        tasks := [.applying (expected.filterMap (Dict.get? collected))]
        log := [.cardsCompleted d] }
    | missing => requestAll s missing

/-- What `async_close` says about the execution. -/
structure CloseReport where
  status : Value := .str "completed"
  pendingTasksCancelled : Value := .none

def interruptedDiagnostic (revision : TaskBoardRevision) (report : CloseReport) (cardId : String) :
    List (String × Value) :=
  [("code", .str "taskboard.tick.card_interrupted"),
   ("message", .str "TaskBoard card did not produce a result before the tick closed."),
   ("card_id", .str cardId), ("board_id", .str revision.boardId),
   ("revision_id", .str revision.revisionId), ("snapshot_status", report.status),
   ("pending_tasks_cancelled", report.pendingTasksCancelled), ("status", .str "failed")]

def interruptedCardResult (revision : TaskBoardRevision) (report : CloseReport) (cardId : String) :
    TaskBoardCardResult :=
  { cardId := cardId, status := "failed"
    preview := .str "TaskBoard card execution interrupted before producing a result."
    diagnostics := [interruptedDiagnostic revision report cardId]
    metadata := [("status", .str "failed"), ("interrupted", .bool true),
      ("source", .str "task_board.tick.incomplete_snapshot")] }

def runnableOf : Value → List String
  | .dict kvs => match get kvs "runnable_card_ids" with
      | .list xs => xs.filterMap fun v => match v with
          | .str s => some s
          | _ => none
      | _ => []
  | _ => []

def closedSchedule (d : TickData) : Except Fault (List String) :=
  match d.schedule, d.scheduleJson with
  | some v, _ => .ok (runnableOf v)
  | none, some v => .ok (runnableOf v)
  | none, none =>
    (scheduleTaskBoardRevision board.revision).map TaskBoardSchedulePlan.runnableCardIds

def expectedIds (d : TickData) (schedule : List String) : List String :=
  match d.expectedCardIds with
  | some ids => ids
  | none => d.expectedCardIdsJson.getD schedule

def incompleteDiagnostic (report : CloseReport) (expected collected interrupted : List String) :
    List (String × Value) :=
  [("code", .str "taskboard.tick.incomplete_snapshot"),
   ("message", .str "TriggerFlow tick closed before a finalized TaskBoard revision was written."),
   ("snapshot_status", report.status), ("pending_tasks_cancelled", report.pendingTasksCancelled),
   ("expected_card_ids", textList expected), ("collected_card_ids", textList (sortedSet collected)),
   ("interrupted_card_ids", textList interrupted)]

/-- The revision of a tick that wrote none: collected results are kept, the other expected
cards are recorded as interrupted. -/
def incompleteRevision (d : TickData) (report : CloseReport) (fresh : Fresh) :
    Except Fault TaskBoardRevision := do
  let schedule ← closedSchedule board d
  let collected ← readResults reprOf ((d.collected.getD (d.collectedJson.getD [])).map Prod.snd)
  let collectedIds := collected.map TaskBoardCardResult.cardId
  let expected := (expectedIds d schedule).filter fun id => id ≠ ""
  let missing := (expected.filter fun id => id ∉ collectedIds).map
    (interruptedCardResult board.revision report)
  let results := collected ++ missing
  applyTaskBoardPatch reprOf fresh.revisionId.text board.revision
    { baseRevision := board.revision.revisionId
      patchId := fresh.patchId.text
      source := "task_board.tick.incomplete_snapshot"
      operations := results.map recordOperation ++ [[("op", .str "append_diagnostic"),
        ("diagnostic", .dict (incompleteDiagnostic report expected collectedIds
          (missing.map TaskBoardCardResult.cardId)))]]
      evidenceRefs := results.flatMap fun r => r.artifactRefs ++ r.fileRefs }

/-- The revision `_finalize_tick_snapshot` installs. -/
def finalizeTickSnapshot (d : TickData) (report : CloseReport) (fresh : Fresh) :
    Except Fault TaskBoardRevision :=
  match d.revision with
  | some v => revisionFromValue reprOf "" v
  | none =>
    match d.revisionJson with
    | some v => revisionFromValue reprOf "" v
    | none => incompleteRevision reprOf board d report fresh

end Ticks

end Agently.TaskBoard
