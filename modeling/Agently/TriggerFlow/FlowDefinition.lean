import Agently.Utils.Conversions
import Agently.Utils.Value

/-! # Flow definitions and their configs

Source: `TriggerFlow/Definition.py`. Copies are the values they copy. -/

namespace Agently.TriggerFlow.FlowConfig

open Agently.Lib Agently.Utils

inductive ConfigError where
  | raised (e : PyError)
  | keyError (key : String)
  | indexError
  | attributeError
  | recursionError

def ConfigError.typeError : ConfigError := .raised (.builtin .typeError)

def raising {α : Type} (kind : ErrorKind) (message : String) : Except ConfigError α :=
  .error (.raised (.raised kind message))

/-- `str(v)` and `str(type(v))` of values that are no string, and the name of a definition that
has none. -/
structure Texts where
  str : Value → String
  type : Value → String
  unnamed : String

def Texts.strOf (b : Texts) : Value → String
  | .str s => s
  | v => b.str v

def getOr (kvs : List (String × Value)) (key : String) (default : Value) : Value :=
  (Dict.get? kvs key).getD default

mutual

def hashable : Value → Bool
  | .list _ | .dict _ => false
  | .tuple xs => hashableAll xs
  | _ => true

def hashableAll : List Value → Bool
  | [] => true
  | x :: xs => hashable x && hashableAll xs

end

structure SignalRef where
  id : String
  triggerType : String
  triggerEvent : String
  role : Option String
  deriving DecidableEq

def makeSignalRef (triggerType triggerEvent : String) (role : Option String) : SignalRef :=
  ⟨triggerType ++ ":" ++ triggerEvent, triggerType, triggerEvent, role⟩

def copySignal (b : Texts) (signal : List (String × Value)) : Except ConfigError SignalRef :=
  match Dict.get? signal "id", Dict.get? signal "trigger_type", Dict.get? signal "trigger_event" with
  | none, _, _ => .error (.keyError "id")
  | _, none, _ => .error (.keyError "trigger_type")
  | _, _, none => .error (.keyError "trigger_event")
  | some id, some triggerType, some triggerEvent =>
    .ok ⟨b.strOf id, b.strOf triggerType, b.strOf triggerEvent,
      match getOr signal "role" .none with
      | .none => none
      | role => some (b.strOf role)⟩

def signalKey (signal : List (String × Value)) : List Value :=
  ["id", "trigger_type", "trigger_event", "role"].map fun key => getOr signal key .none

def dedupeFrom (b : Texts) (seen : List (List Value)) :
    List Value → Except ConfigError (List SignalRef)
  | [] => .ok []
  | .dict signal :: rest =>
    if hashableAll (signalKey signal) = false then .error .typeError
    else if seen.any (Value.pyEqList (signalKey signal)) then dedupeFrom b seen rest
    else match copySignal b signal with
      | .error e => .error e
      | .ok copied =>
        (dedupeFrom b (signalKey signal :: seen) rest).map fun result => copied :: result
  | _ :: _ => .error .attributeError

def dedupeSignals (b : Texts) : Value → Except ConfigError (List SignalRef)
  | .list signals => dedupeFrom b [] signals
  | _ => .ok []

def dedupeCopied (signals : List SignalRef) : List SignalRef :=
  (signals.reverse.dedup).reverse

structure Operator where
  id : String
  kind : String
  name : Value
  listenSignals : List SignalRef
  emitSignals : List SignalRef
  options : Value
  handlerRef : Value
  conditionRef : Value
  groupId : Value
  groupKind : Value
  parentGroupId : Value
  parentGroupKind : Value

def Operator.same (a o : Operator) : Bool :=
  a.id == o.id && a.kind == o.kind && a.name.pyEq o.name &&
    a.listenSignals == o.listenSignals && a.emitSignals == o.emitSignals &&
    a.options.pyEq o.options && a.handlerRef.pyEq o.handlerRef &&
    a.conditionRef.pyEq o.conditionRef && a.groupId.pyEq o.groupId &&
    a.groupKind.pyEq o.groupKind && a.parentGroupId.pyEq o.parentGroupId &&
    a.parentGroupKind.pyEq o.parentGroupKind

structure Definition where
  name : String
  operators : List Operator
  metadata : List (String × Value)
  contract : List (String × Value)

def Definition.indexed (d : Definition) (id : String) : Option Operator :=
  d.operators.reverse.find? fun o => o.id = id

def Definition.addOperator (d : Definition) (o : Operator) : Except ConfigError Definition :=
  let operator := { o with
    listenSignals := dedupeCopied o.listenSignals
    emitSignals := dedupeCopied o.emitSignals
    options := match o.options with
      | .none => .dict []
      | options => options }
  match d.indexed o.id with
  | some existing =>
    if existing.same operator then .ok d
    else raising .valueError ("TriggerFlow operator '" ++ o.id ++
      "' already exists with a different definition.")
  | none => .ok { d with operators := d.operators ++ [operator] }

def Definition.addOperators (d : Definition) : List Operator → Except ConfigError Definition
  | [] => .ok d
  | o :: rest =>
    match d.addOperator o with
    | .error e => .error e
    | .ok d => d.addOperators rest

def flowConfigVersion : String := "trigger_flow/v1"

/-- One operator of `from_dict`. -/
def normalizeOperator (b : Texts) : Value → Except ConfigError Operator
  | .dict operator =>
    let id := getOr operator "id" .none
    let kind := getOr operator "kind" .none
    let listenSignals := getOr operator "listen_signals" (.list [])
    let emitSignals := getOr operator "emit_signals" (.list [])
    if !id.truthy || !kind.truthy then
      raising .valueError ("Cannot load TriggerFlow config operator without valid 'id' and " ++
        "'kind': " ++ b.str (.dict operator))
    else match listenSignals, emitSignals with
      | .list _, .list _ =>
        match dedupeSignals b listenSignals with
        | .error e => .error e
        | .ok listenSignals =>
          match dedupeSignals b emitSignals with
          | .error e => .error e
          | .ok emitSignals => .ok
              { id := b.strOf id
                kind := b.strOf kind
                name := getOr operator "name" .none
                listenSignals := listenSignals
                emitSignals := emitSignals
                options := getOr operator "options" (.dict [])
                handlerRef := getOr operator "handler_ref" .none
                conditionRef := getOr operator "condition_ref" .none
                groupId := getOr operator "group_id" .none
                groupKind := getOr operator "group_kind" .none
                parentGroupId := getOr operator "parent_group_id" .none
                parentGroupKind := getOr operator "parent_group_kind" .none }
      | _, _ => raising .typeError ("Cannot load TriggerFlow config operator '" ++ b.strOf id ++
          "', expect signal fields to be lists.")
  | _ => raising .typeError
      "Cannot load TriggerFlow config, expect every operator to be a dictionary."

def normalizeOperators (b : Texts) : List Value → Except ConfigError (List Operator)
  | [] => .ok []
  | v :: rest =>
    match normalizeOperator b v with
    | .error e => .error e
    | .ok operator => (normalizeOperators b rest).map fun operators => operator :: operators

def fromDict (b : Texts) : Value → Except ConfigError Definition
  | .dict config =>
    let version := getOr config "version" .none
    if !version.pyEq (.str flowConfigVersion) then
      raising .valueError ("Cannot load TriggerFlow config version '" ++ b.strOf version ++
        "'. Expected '" ++ flowConfigVersion ++ "'.")
    else match getOr config "operators" (.list []) with
      | .list operators =>
        match getOr config "meta" (.dict []) with
        | .dict metadata =>
          match getOr config "contract" (.dict []) with
          | .dict contract =>
            (normalizeOperators b operators).map fun operators =>
              { name := b.strOf (getOr config "name" (.str b.unnamed))
                operators := operators
                metadata := metadata
                contract := contract }
          | _ => raising .typeError
              "Cannot load TriggerFlow config, expect key 'contract' as a dictionary."
        | _ => raising .typeError
            "Cannot load TriggerFlow config, expect key 'meta' as a dictionary."
      | _ => raising .typeError
          "Cannot load TriggerFlow config, expect key 'operators' as a list."
  | config => raising .typeError
      ("Cannot load TriggerFlow config, expect dictionary but got: " ++ b.type config)

end Agently.TriggerFlow.FlowConfig
