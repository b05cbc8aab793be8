import Agently.Blocks.BlockCompiler
import Agently.Blocks.ReplanSignals
import Agently.Lib.Machine

/-! # Running a graph of execution blocks

Source: `Blocks/AgentlyBlocks.py`, `TriggerFlow/process/BaseProcess.py`,
`TriggerFlow/Execution.py`, `TriggerFlow/ExecutionInterrupts.py`, `TriggerFlow/Chunk.py`. Handlers
are coroutines; a step goes from one suspension to the next. Nobody listens on the events of a
block other than `completed`. -/

namespace Agently.Blocks

open Agently.Lib Agently.Utils Agently.TaskDAGValidation

inductive BlockPhase where
  | started
  | waiting
  | output
  | evidence
  | replanRequested
  | cancelled
  | failed
  | completed
  deriving DecidableEq

/-- The events a gate waits for are `completed` events; it is known by the blocks of its edges. -/
abbrev Gate := List String

inductive BlockEvent where
  | flowStart
  | block (id : String) (phase : BlockPhase)
  | joined (gate : Gate)
  | returned (handler : String)
  deriving DecidableEq

def gateOf (blocks : List String) : Gate := blocks.insertionSort fun a b => a ≤ b

/-- What `when` makes of the completed events of `blocks`. -/
def triggerOf : List String → Option BlockEvent
  | [] => none
  | [p] => some (.block p .completed)
  | ps => some (.joined (gateOf ps))

inductive ResultState where
  | completed
  | cancelled
  | waiting
  deriving DecidableEq

structure BlockResult where
  executionBlockId : String
  sourcePlanBlockId : String
  kind : String
  output : Value
  state : ResultState
  deriving DecidableEq

structure PlanBlockResult where
  planBlockId : String
  executionBlockId : String
  output : Value
  success : Bool
  deriving DecidableEq

inductive LedgerItem where
  | evidence (item : Value)
  | planBlock (result : PlanBlockResult)
  | other (key : String) (item : Value)
  deriving DecidableEq

/-- What `_record_block_result` derives from a result and its index, and from the result alone. -/
structure Recorder where
  ledgerItems : BlockResult → Nat → List Value
  otherEvidence : BlockResult → List (String × Value)

inductive Announcement where
  | event (block : String) (phase : BlockPhase)
  | signal (s : ReplanSignal)
  | readCancelled (ids : List String)
  | cancel (id : String)
  deriving DecidableEq

inductive RunPhase where
  | beginning
  | starting
  | executing
  | pausing (byGate : Bool) (signal : Value)
  | storing (byGate : Bool) (signal : Value) (source : BlockEvent)
  | gated (result : Value)
  | checking (output : Value)
  | recording (r : BlockResult)
  | ledger (r : BlockResult) (items : List LedgerItem)
  | announcing (r : BlockResult) (rest : List Announcement)
  | completing (r : BlockResult)
  | delivering (r : BlockResult)
  | returning (r : BlockResult)
  | failing (message : String)
  | raising (message : String)
  | ended (r : BlockResult)
  | raised (message : String)
  deriving DecidableEq

/-- `paused` tells whether the handler has paused the execution. -/
structure BlockRun where
  block : String
  paused : Bool := false
  phase : RunPhase := .beginning
  deriving DecidableEq

inductive GatePhase where
  | arriving
  | firing
  | delivering
  | clearing
  | ended
  deriving DecidableEq

structure GateRun where
  gate : Gate
  source : String
  phase : GatePhase := .arriving

inductive FinalizePhase where
  | reading
  | writing (results : List BlockResult)
  | returning
  | ended

/-- An interrupt with `resume_to` 'self'; `source` is the last signal there was. -/
structure Interrupt where
  source : BlockEvent
  waiting : Bool := true

inductive CallPhase where
  | remembering
  | delivering
  | ended
  deriving DecidableEq

structure ResumeCall where
  event : BlockEvent
  phase : CallPhase := .remembering

structure BlocksExecution where
  blockRuns : List BlockRun := []
  gateRuns : List GateRun := []
  finalizeRuns : List FinalizePhase := []
  resumeCalls : List ResumeCall := []
  interrupts : List Interrupt := []
  arrived : Dict Gate (List String) := []
  lastEvent : BlockEvent := .flowStart
  waiting : Bool := false
  results : List BlockResult := []
  evidenceItems : List Value := []
  planBlockResults : List PlanBlockResult := []
  otherEvidence : List (String × Value) := []
  diagnostics : List String := []
  replanSignals : List ReplanSignal := []
  cancelled : List String := []
  result : Option (List BlockResult) := none

/-- What a handler does. The gate of an approval block pauses, or it decides at once. -/
inductive HandlerAnswer where
  | returns (output : Value)
  | raises (message : String)
  | pauses (byGate : Bool) (signal : Value)
  | decides (result : Value)

inductive BlocksAction where
  | block (run : Nat) (answer : HandlerAnswer)
  | gate (run : Nat)
  | finalize (run : Nat)
  | continueWith (interrupt : Nat)
  | resuming (call : Nat)

section Binding

variable (graph : ExecutionBlockGraph)

def startsOn (event : BlockEvent) : List String :=
  match event with
  | .flowStart => graph.startBlocks.dedup
  | event => graph.blockIds.dedup.filter fun b => triggerOf (graph.incoming b) = some event

def gates : List Gate :=
  ((graph.blockIds.map graph.incoming ++ [graph.terminalBlocks]).filter fun ps =>
    2 ≤ ps.length).map gateOf

def gatesOn (event : BlockEvent) : List GateRun :=
  match event with
  | .block p .completed => ((gates graph).dedup.filter fun g => p ∈ g).map fun g => ⟨g, p, .arriving⟩
  | _ => []

def finalizesOn (event : BlockEvent) : List FinalizePhase :=
  if triggerOf graph.terminalBlocks = some event then [.reading] else []

/-- `_chunk_name`; `isAlnum` is `str.isalnum` of a character. -/
def chunkName (isAlnum : Char → Bool) (block : String) : String :=
  "blocks:" ++ (graph.graphId ++ ":" ++ block).map fun c =>
    if isAlnum c ∨ c ∈ ['.', '_', '-'] then c else '_'

def chunkNames (isAlnum : Char → Bool) : List String :=
  (graph.blockIds.dedup ++ ["__finalize__"]).map (chunkName graph isAlnum)

def deliver (s : BlocksExecution) (event : BlockEvent) : BlocksExecution :=
  { s with
    blockRuns := s.blockRuns ++ (startsOn graph event).map fun b => { block := b }
    gateRuns := s.gateRuns ++ gatesOn graph event
    finalizeRuns := s.finalizeRuns ++ finalizesOn graph event }

/-- `BlocksRuntimeBinder.bind` and the start of an execution. Binding raises when two handlers
get one name. -/
def bindRuntime (isAlnum : Char → Bool) : Option BlocksExecution :=
  if (chunkNames graph isAlnum).Nodup then some (deliver graph {} .flowStart) else none

end Binding

section Blocks

variable (graph : ExecutionBlockGraph) (recorder : Recorder) (reprOf : Value → String)

/-- `blocks_by_id`: the last block of an id counts. -/
def blockOf (id : String) : Option ExecutionBlock :=
  graph.executionBlocks.reverse.find? fun b => b.id = id

def blockKind (id : String) : String := ((blockOf graph id).map ExecutionBlock.kind).getD ""

def resultOf (id : String) (output : Value) (state : ResultState) : BlockResult :=
  { executionBlockId := id
    sourcePlanBlockId := ((blockOf graph id).map ExecutionBlock.sourcePlanBlockId).getD ""
    kind := blockKind graph id
    output := output
    state := state }

def cancelledOutput : Value :=
  .dict [("cancelled", .bool true), ("reason", .str "Cancelled by structured ReplanSignal.")]

/-- What `_execute_approval_wait_block` makes of the gate's decision. -/
def approvalWaitOutput (id : String) (result : Value) : Value :=
  let decision := match result with
    | .dict kvs => kvs
    | v => [("value", v)]
  let approved := decide
    (get decision "status" = .str "approved" ∨ get decision "approved" = .bool true)
  let reason := strOf reprOf
    (orElse (get decision "reason") (.str "Policy approval was not approved."))
  .dict ([("decision", .dict decision), ("approved", .bool approved)] ++
    if approved then [] else [("replan_signal", .dict [("status", .str "blocked"),
      ("reason", .str reason), ("affected_execution_block_ids", .list [.str id])])])

def ledgerItems (r : BlockResult) (index : Nat) : List LedgerItem :=
  (recorder.ledgerItems r index).map .evidence ++
    (if r.sourcePlanBlockId = "" then [] else
      [.planBlock ⟨r.sourcePlanBlockId, r.executionBlockId, r.output,
        decide (r.state = .completed)⟩]) ++
    (recorder.otherEvidence r).map fun p => .other p.1 p.2

def appendItem (s : BlocksExecution) : LedgerItem → BlocksExecution
  | .evidence item => { s with evidenceItems := s.evidenceItems ++ [item] }
  | .planBlock result => { s with planBlockResults := s.planBlockResults ++ [result] }
  | .other key item => { s with otherEvidence := s.otherEvidence ++ [(key, item)] }

def announcements (r : BlockResult) : List Announcement :=
  match r.state with
  | .waiting => [.event r.executionBlockId .waiting]
  | .cancelled => [.event r.executionBlockId .cancelled]
  | .completed =>
    let signals := replanSignalsFromOutput reprOf r.output
    [.event r.executionBlockId .output, .event r.executionBlockId .evidence] ++
      signals.flatMap (fun s => [.signal s, .event r.executionBlockId .replanRequested]) ++
      [.readCancelled (cancelledIdsForReplanSignals graph.blockIds graph.children
        r.executionBlockId signals)]

def announce (s : BlocksExecution) : Announcement → BlocksExecution
  | .event b phase => { s with lastEvent := .block b phase }
  | .signal x => { s with replanSignals := s.replanSignals ++ [x] }
  | .readCancelled _ => s
  | .cancel id => { s with cancelled := s.cancelled ++ [id] }

def following (s : BlocksExecution) : Announcement → List Announcement
  | .readCancelled ids =>
    -- `existing_cancelled` takes in each id at its first place
    (ids.filter fun c => c ∉ s.cancelled).reverse.dedup.reverse.flatMap fun c =>
      [.cancel c, .event c .cancelled]
  | _ => []

def setBlockRun (s : BlocksExecution) (n : Nat) (run : BlockRun) : BlocksExecution :=
  { s with blockRuns := s.blockRuns.set n run }

/-- The handler's answer; only the gate of an approval block pauses or decides as a gate. -/
def answered (graph : ExecutionBlockGraph) (block : String) : HandlerAnswer → Option RunPhase
  | .returns output => some (.checking output)
  | .raises message => some (.failing message)
  | .pauses byGate signal =>
    if byGate = true ∧ blockKind graph block ≠ "approval_wait" then none
    else some (.pausing byGate signal)
  | .decides result =>
    if blockKind graph block = "approval_wait" then some (.gated result) else none

def returned (s : BlocksExecution) (handler : String) : BlocksExecution :=
  if s.waiting then s else { s with lastEvent := .returned handler }

/-- One step of `run_block`, and of the chunk around it. -/
def stepBlock (s : BlocksExecution) (n : Nat) (run : BlockRun) (answer : HandlerAnswer) :
    Option BlocksExecution :=
  let goOn (s : BlocksExecution) (phase : RunPhase) : Option BlocksExecution :=
    some (setBlockRun s n { run with phase := phase })
  match run.phase with
  | .beginning =>
    if run.block ∈ s.cancelled then
      goOn s (.recording (resultOf graph run.block cancelledOutput .cancelled))
    else goOn s .starting
  | .starting => goOn { s with lastEvent := .block run.block .started } .executing
  | .executing => (answered graph run.block answer).bind (goOn s)
  | .pausing byGate signal => goOn s (.storing byGate signal s.lastEvent)
  | .storing byGate signal source =>
    some (setBlockRun
      { s with interrupts := s.interrupts ++ [⟨source, true⟩], waiting := true } n
      { run with paused := true, phase := if byGate then .gated signal else .checking signal })
  | .gated result =>
    goOn s (.checking (if s.waiting then result else approvalWaitOutput reprOf run.block result))
  | .checking output =>
    goOn s (.recording
      (resultOf graph run.block output (if s.waiting then .waiting else .completed)))
  | .recording r =>
    goOn { s with results := s.results ++ [r] }
      (.ledger r (ledgerItems recorder r s.results.length))
  | .ledger r (item :: rest) => goOn (appendItem s item) (.ledger r rest)
  | .ledger r [] => goOn s (.announcing r (announcements graph reprOf r))
  | .announcing r (x :: rest) => goOn (announce s x) (.announcing r (following s x ++ rest))
  | .announcing r [] => goOn s (if r.state = .waiting then .returning r else .completing r)
  | .completing r => goOn { s with lastEvent := .block run.block .completed } (.delivering r)
  | .delivering r =>
    some (deliver graph (setBlockRun s n { run with phase := .returning r })
      (.block run.block .completed))
  | .returning r =>
    -- a pause signal is returned as it is, and its chunk emits nothing
    goOn (if run.paused ∧ r.state = .waiting then s else returned s run.block) (.ended r)
  | .failing message => goOn { s with diagnostics := s.diagnostics ++ [message] } (.raising message)
  | .raising message => goOn { s with lastEvent := .block run.block .failed } (.raised message)
  | .ended _ | .raised _ => none

def setGateRun (s : BlocksExecution) (n : Nat) (run : GateRun) : BlocksExecution :=
  { s with gateRuns := s.gateRuns.set n run }

/-- `wait_trigger`: the signal is put into the gate, and a gate that misses none emits. -/
def stepGate (s : BlocksExecution) (n : Nat) (run : GateRun) : Option BlocksExecution :=
  match run.phase with
  | .arriving =>
    let filled := run.source :: (s.arrived.get? run.gate).getD []
    some (setGateRun { s with arrived := s.arrived.set run.gate filled } n
      { run with phase := if ∀ p ∈ run.gate, p ∈ filled then .firing else .ended })
  | .firing => some (setGateRun { s with lastEvent := .joined run.gate } n
      { run with phase := .delivering })
  | .delivering => some (deliver graph (setGateRun s n { run with phase := .clearing })
      (.joined run.gate))
  | .clearing => some (setGateRun { s with arrived := s.arrived.del run.gate } n
      { run with phase := .ended })
  | .ended => none

def stepFinalize (s : BlocksExecution) (n : Nat) : FinalizePhase → Option BlocksExecution
  | .reading => some { s with finalizeRuns := s.finalizeRuns.set n (.writing s.results) }
  | .writing results => some { s with
      result := some results, finalizeRuns := s.finalizeRuns.set n .returning }
  | .returning => some
      { returned s "__finalize__" with finalizeRuns := s.finalizeRuns.set n .ended }
  | .ended => none

/-- `continue_with`: the execution runs again, and the interrupt's signal is dispatched. -/
def continueWith (s : BlocksExecution) (k : Nat) : Option BlocksExecution :=
  (s.interrupts[k]?).bind fun i =>
    if i.waiting then
      some { s with
        interrupts := s.interrupts.set k { i with waiting := false }
        waiting := false
        resumeCalls := s.resumeCalls ++ [⟨i.source, .remembering⟩] }
    else none

def stepResume (s : BlocksExecution) (n : Nat) (call : ResumeCall) : Option BlocksExecution :=
  match call.phase with
  | .remembering => some { s with
      lastEvent := call.event
      resumeCalls := s.resumeCalls.set n { call with phase := .delivering } }
  | .delivering => some (deliver graph
      { s with resumeCalls := s.resumeCalls.set n { call with phase := .ended } } call.event)
  | .ended => none

def blocksStep (s : BlocksExecution) : BlocksAction → Option BlocksExecution
  | .block n answer =>
    (s.blockRuns[n]?).bind fun run => stepBlock graph recorder reprOf s n run answer
  | .gate n => (s.gateRuns[n]?).bind (stepGate graph s n)
  | .finalize n => (s.finalizeRuns[n]?).bind (stepFinalize s n)
  | .continueWith k => continueWith s k
  | .resuming n => (s.resumeCalls[n]?).bind (stepResume graph s n)

def blocksMachine : Machine BlocksExecution BlocksAction := ⟨blocksStep graph recorder reprOf⟩

end Blocks

end Agently.Blocks
