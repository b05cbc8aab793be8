import Agently.Lib.Reachable
import Agently.TaskDAG.TaskDAGData

/-! # Replan signals

Source: `Blocks/AgentlyBlocks.py`, `types/data/execution_plan.py`. An output may ask for other
blocks to be cancelled; `reprOf` is `str()` of what is no string. -/

namespace Agently.Blocks

open Agently.Lib Agently.Utils Agently.TaskDAGValidation

structure ReplanSignal where
  status : String
  affectedExecutionBlockIds : List String
  deriving DecidableEq

def replanStatuses : List String :=
  ["continue", "repair", "replan_segment", "replan_goal", "blocked", "clarify"]

section Reading

variable (reprOf : Value → String)

/-- `_str_tuple`; `none` where it raises. -/
def strTuple (v : Value) : Option (List String) :=
  match v with
  | .none => some []
  | .str s => some ([strip s].filter fun t => t ≠ "")
  | .dict _ => none
  | v =>
    match items v with
    | .error _ => none
    | .ok xs => some ((xs.map fun x => strip (strOf reprOf x)).filter fun t => t ≠ "")

def isMapping : Value → Bool
  | .none | .dict _ => true
  | _ => false

def replanSignalFromValue (kvs : List (String × Value)) : Option ReplanSignal :=
  let status := get kvs "status"
  let affected := (Dict.get? kvs "affected_execution_block_ids").getD (get kvs "affected_block_ids")
  let others := ["affected_plan_block_ids", "reusable_output_refs", "invalidated_output_refs",
    "missing_capabilities", "evidence_refs"]
  if status = .none ∨ strip (strOf reprOf status) ∉ replanStatuses then none
  else if others.all (fun k => (strTuple reprOf (get kvs k)).isSome) ∧
      isMapping (get kvs "budget_impact") then
    (strTuple reprOf affected).map fun ids => ⟨strip (strOf reprOf status), ids⟩
  else none

def replanSignalOf : Value → Option ReplanSignal
  | .dict kvs => some ((replanSignalFromValue reprOf kvs).getD ⟨"blocked", []⟩)
  | _ => none

def replanSignalsFromOutput : Value → List ReplanSignal
  | .dict kvs =>
    match (Dict.get? kvs "replan_signals").getD (get kvs "replan_signal") with
    | .none => []
    | .list xs | .tuple xs => xs.filterMap (replanSignalOf reprOf)
    | v => [v].filterMap (replanSignalOf reprOf)
  | _ => []

end Reading

section Cancelling

variable (blockIds : List String) (children : String → List String)

def downstreamBlockIds (block : String) : List String :=
  (Reachable.rounds children blockIds.length
    { queue := (children block).dedup, seen := (children block).dedup }).seen

/-- What a signal affects when `current` gives it. -/
def affectedBy (current : String) (signal : ReplanSignal) : List String :=
  if signal.status = "continue" then []
  else if signal.affectedExecutionBlockIds ≠ [] then
    (signal.affectedExecutionBlockIds.filter fun b => b ∈ blockIds ∧ b ≠ current).flatMap fun b =>
      b :: downstreamBlockIds blockIds children b
  else if signal.status = "repair" then []
  else downstreamBlockIds blockIds children current

def cancelledIdsForReplanSignals (current : String) (signals : List ReplanSignal) : List String :=
  blockIds.filter fun b =>
    b ∈ signals.flatMap (affectedBy blockIds children current) ∧ b ≠ current

end Cancelling

end Agently.Blocks
