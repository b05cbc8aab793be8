import Agently.TriggerFlow.Signal

/-! # What a handler sees of its signal

Source: `types/trigger_flow/trigger_flow.py` and `TriggerFlow/process/BaseProcess.py`. -/

namespace Agently.TriggerFlow

open Agently.Lib Agently.Utils

variable {ε : Type}

def chunkSignalMeta (s : Signal ε) : Dict String Value :=
  [(parentSignalIdMetaKey, .str s.id),
   (aggregationScopeMetaKey,
     match s.signalMeta.get? aggregationScopeMetaKey with
     | some .none | none => .str s.id
     | some scope => scope)]

def emitFrom (s : Signal ε) (freshId : String) (event : ε) (value : Value)
    (layerMarks : List String) : Signal ε :=
  { id := freshId
    triggerEvent := event
    value := value
    layerMarks := layerMarks
    source := "chunk"
    signalMeta := chunkSignalMeta s }

def layerKey (layerMarks : List String) (signalMeta : Dict String Value) : String :=
  if layerMarks ≠ [] then String.intercalate "." layerMarks
  else match signalMeta.get? aggregationScopeMetaKey with
    | some (.str scope) => "signal:" ++ scope
    | _ => "__root__"

def Signal.layerKey (s : Signal ε) : String := TriggerFlow.layerKey s.layerMarks s.signalMeta

theorem isResume_emitFrom (s : Signal ε) (freshId : String) (event : ε) (value : Value)
    (layerMarks : List String) : (emitFrom s freshId event value layerMarks).isResume = false := by
  simp [Signal.isResume, emitFrom, chunkSignalMeta, Dict.get?, parentSignalIdMetaKey,
    aggregationScopeMetaKey]

end Agently.TriggerFlow
