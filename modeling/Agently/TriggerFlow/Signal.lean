import Agently.Utils.Value

/-! # Signals

Source: `TriggerFlow/Signal.py`, `types/trigger_flow/runtime_keys.py` and
`TriggerFlow/Execution.py`. Event names are a parameter `ε`: the code only compares them. -/

namespace Agently.TriggerFlow

open Agently.Lib Agently.Utils

inductive TriggerType where
  | event
  | runtimeData
  | flowData
  deriving DecidableEq

structure Signal (ε : Type) where
  id : String
  triggerEvent : ε
  triggerType : TriggerType := .event
  value : Value := .none
  layerMarks : List String := []
  source : String := "runtime"
  signalMeta : Dict String Value := []
  deriving DecidableEq

def aggregationScopeMetaKey : String := "_triggerflow_aggregation_scope"
def parentSignalIdMetaKey : String := "_triggerflow_parent_signal_id"
def selfResumeCountMetaKey : String := "_triggerflow_self_resume_count"
def selfResumeMaxMetaKey : String := "_triggerflow_self_resume_max"

variable {ε : Type}

/-- `_serialize_signal`: the state dict of the signal, serialised; `_restore_signal`
reads the same fields back. -/
def serializeSignal (s : Signal ε) : Signal ε :=
  { s with
    value := s.value.serializable
    signalMeta := Value.serializableEntries s.signalMeta }

def Signal.isResume (s : Signal ε) : Bool :=
  match s.signalMeta.get? "resume" with
  | some (.dict _) => true
  | _ => false

def mergeEntries (d update : Dict String Value) : Dict String Value :=
  update.foldl (fun acc p => acc.set p.1 p.2) d

theorem mergeEntries_eq_merge (d update : Dict String Value) :
    mergeEntries d update = d.merge update := rfl

theorem get?_mergeEntries_of_not_mem {d update : Dict String Value} {k : String}
    (h : k ∉ update.keys) : (mergeEntries d update).get? k = d.get? k := by
  rw [mergeEntries_eq_merge]
  exact Dict.get?_merge_of_not_mem h

end Agently.TriggerFlow
