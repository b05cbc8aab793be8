import Agently.Lib.Outcome
import Agently.TriggerFlow.FlowDefinition
import Agently.TriggerFlow.SubFlowBindings

/-! # Loading a flow config

Source: `TriggerFlow/BluePrint.py`, `TriggerFlow/BluePrintSubFlow.py`, `TriggerFlow/Chunk.py`. A
callable is a number, and so is an object made while loading: closures and chunks compare by
identity. Nested loads take from a stack of limited depth. -/

namespace Agently.TriggerFlow.FlowConfig

open Agently.Lib Agently.Lib.Outcome Agently.Utils

structure Handler where
  object : Nat
  operator : Operator
  callables : List Nat

structure Chunk where
  object : Nat
  id : String
  name : Value
  handler : Nat
  trigger : String
  callableRef : Value
  emitSignals : List String

abbrev Handlers := Dict String (Dict String (Dict String Handler))

structure Registries where
  chunk : Dict String Nat
  condition : Dict String Nat

structure Blueprint where
  name : String
  handlers : Handlers
  chunks : Dict Value Chunk
  definition : Definition
  registries : Registries
  nextObject : Nat

abbrev Load := EStateM ConfigError Blueprint

def orRaise {α : Type} : Except ConfigError α → Load α
  | .ok a => pure a
  | .error e => throw e

def newObject : Load Nat := do
  let bp ← EStateM.get
  modify fun bp => { bp with nextObject := bp.nextObject + 1 }
  pure bp.nextObject

def noHandlers : Handlers := [("event", []), ("flow_data", []), ("runtime_data", [])]

def resetRuntime : Load Unit := modify fun bp => { bp with handlers := noHandlers, chunks := [] }

def isCallableRefExportable : Value → Except ConfigError Bool
  | .dict ref =>
    let kind := getOr ref "kind" .none
    if hashable kind = false then .error .typeError
    else .ok ((kind = .str "registered" || kind = .str "inspected") &&
      (getOr ref "name" .none).truthy)
  | _ => .ok false

def renderCallableRef (b : Texts) : Value → String
  | .dict ref =>
    let name := getOr ref "name" .none
    let callableName := getOr ref "callable_name" .none
    let label :=
      if name.truthy then b.strOf name
      else if callableName.truthy then b.strOf callableName
      else "unknown"
    let file := getOr ref "file" .none
    let line := getOr ref "line" .none
    if getOr ref "kind" .none = .str "anonymous" && file.truthy && line.truthy then
      label ++ "@" ++ b.strOf file ++ ":" ++ b.strOf line
    else label
  | _ => "unknown"

def resolveCallable (b : Texts) (registryType : String) (registry : Dict String Nat)
    (ref : Value) : Except ConfigError Nat :=
  match isCallableRefExportable ref with
  | .error e => .error e
  | .ok false => raising .valueError ("Cannot load TriggerFlow config because " ++ registryType ++
      " reference '" ++ renderCallableRef b ref ++ "' is not serializable.")
  | .ok true =>
    let name := match ref with
      | .dict kvs => b.strOf (getOr kvs "name" .none)
      | _ => ""
    match Dict.get? registry name with
    | some handler => .ok handler
    | none => raising .valueError ("Cannot load TriggerFlow config because " ++ registryType ++
        " handler '" ++ name ++ "' is not registered.")

def Operator.option (o : Operator) (key : String) (default : Value) : Except ConfigError Value :=
  match o.options with
  | .dict options => .ok (getOr options key default)
  | _ => .error .attributeError

def Operator.firstEmit (o : Operator) : Except ConfigError SignalRef :=
  match o.emitSignals with
  | [] => .error .indexError
  | signal :: _ => .ok signal

/-- The elements of what a `for` or `list()` goes through; characters are strings. -/
def iterated : Value → Except ConfigError (List Value)
  | .list xs | .tuple xs => .ok xs
  | .dict kvs => .ok (kvs.map fun p => .str p.1)
  | .str s => .ok (s.toList.map fun c => .str (String.ofList [c]))
  | _ => .error .typeError

def pairOf (v : Value) : Except ConfigError (Value × Value) :=
  match iterated v with
  | .error e => .error e
  | .ok [key, value] => if hashable key then .ok (key, value) else .error .typeError
  | .ok _ => .error (.raised (.builtin .valueError))

mutual

def dictKey : Value → Value
  | .bool true => .int 1
  | .bool false => .int 0
  | .tuple xs => .tuple (dictKeys xs)
  | v => v

def dictKeys : List Value → List Value
  | [] => []
  | x :: xs => dictKey x :: dictKeys xs

end

def dictOf : Value → Except ConfigError (Dict Value Value)
  | .dict kvs => .ok (kvs.map fun p => (.str p.1, p.2))
  | v =>
    match iterated v with
    | .error e => .error e
    | .ok entries => (entries.mapM pairOf).map fun pairs =>
      pairs.foldl (fun d p => Dict.set d (dictKey p.1) p.2) []

section Reads

variable (b : Texts) (nested : Registries → Value → Option ConfigError) (registries : Registries)

def signalGateReads (o : Operator) : Except ConfigError (List Nat) := do
  let _ ← o.firstEmit
  let _ ← o.option "mode" (.str "and")
  pure []

def batchFanoutReads (o : Operator) : Except ConfigError (List Nat) := do
  let _ ← o.option "concurrency" .none
  pure []

/-- `_compile_batch_collect_operator`; its result keys become keys of the results. -/
def batchCollectReads (o : Operator) : Except ConfigError (List Nat) := do
  let _ ← o.firstEmit
  let resultKeys ← dictOf (← o.option "result_keys" (.dict []))
  if hashableAll resultKeys.vals then pure [] else throw .typeError

def forEachSplitReads (o : Operator) : Except ConfigError (List Nat) := do
  let _ ← o.firstEmit
  let _ ← o.option "concurrency" .none
  pure []

/-- `_compile_for_each_collect_operator`, and the other operators that read their first signal
only. -/
def firstEmitReads (o : Operator) : Except ConfigError (List Nat) := do
  let _ ← o.firstEmit
  pure []

/-- The condition of a case of `_compile_match_route_operator`. -/
def caseReads : Value → Except ConfigError (List Nat)
  | .dict case =>
    match getOr case "condition_ref" .none with
    | .none => .ok []
    | ref => (resolveCallable b "condition" registries.condition ref).map fun c => [c]
  | _ => .error .attributeError

def matchRouteReads (o : Operator) : Except ConfigError (List Nat) := do
  let _ ← o.firstEmit
  let _ ← o.option "mode" (.str "hit_first")
  let cases ← iterated (← o.option "cases" (.list []))
  let conditions ← cases.mapM (caseReads b registries)
  pure conditions.flatten

def collectBranchReads (o : Operator) : Except ConfigError (List Nat) := do
  let _ ← o.firstEmit
  let _ ← o.option "collect_id" (.str o.id)
  let _ ← iterated (← o.option "branch_ids" (.list []))
  pure []

def interventionPointReads (o : Operator) : Except ConfigError (List Nat) := do
  let _ ← o.firstEmit
  let _ ← o.option "target" .none
  pure []

def bindingsOf (mode : SubFlowBindings.Mode) (spec : Value) : Except ConfigError Unit :=
  match SubFlowBindings.compileBindings b.type mode spec with
  | .error e => .error (.raised e)
  | .ok _ => .ok ()

def buildFromOperator (o : Operator) : Except ConfigError Unit :=
  match o.options with
  | .dict options =>
    match getOr options "sub_flow_config" .none with
    | .dict config =>
      match nested registries (.dict config) with
      | some e => .error e
      | none => .ok ()
    | _ => raising .typeError ("TriggerFlow sub flow operator '" ++ o.id ++
        "' missing valid 'sub_flow_config'.")
  | _ => .error .attributeError

/-- `compile_operator` of a sub flow. -/
def subFlowReads (o : Operator) : Except ConfigError (List Nat) := do
  bindingsOf b .capture (← o.option "capture" .none)
  bindingsOf b .writeBack (← o.option "write_back" .none)
  let _ ← o.option "concurrency" .none
  buildFromOperator nested registries o
  pure []

def Chunk.nameOf (o : Operator) : Value :=
  match o.name with
  | .none => .str o.id
  | name => name

/-- `_compile_chunk_operator` before the chunk is stored under its name. -/
def chunkReads (o : Operator) : Except ConfigError (List Nat) := do
  let handler ← resolveCallable b "chunk" registries.chunk o.handlerRef
  if hashable (Chunk.nameOf o) then pure [handler] else throw .typeError

/-- What `_compile_operator` reads and raises before it touches a table. -/
def operatorReads (o : Operator) : Except ConfigError (List Nat) :=
  match o.kind with
  | "chunk" => chunkReads b registries o
  | "signal_gate" => signalGateReads o
  | "batch_fanout" => batchFanoutReads o
  | "batch_collect" => batchCollectReads o
  | "for_each_split" => forEachSplitReads o
  | "for_each_collect" => firstEmitReads o
  | "match_route" => matchRouteReads b registries o
  | "match_case" => firstEmitReads o
  | "match_collect" => firstEmitReads o
  | "collect_branch" => collectBranchReads o
  | "intervention_point" => interventionPointReads o
  | "sub_flow" => subFlowReads b nested registries o
  | "result_sink" => .ok []
  | kind => raising .valueError ("Unsupported TriggerFlow operator kind '" ++ kind ++
      "' in config compiler.")

end Reads

def storeHandler (stored : Dict String Handler) (id : String) (handler : Handler) :
    Dict String Handler :=
  if id ∈ Dict.keys stored then stored
  else if (Dict.vals stored).any fun h => h.object = handler.object then stored
  else Dict.set stored id handler

def addHandler (triggerType target : String) (handler : Handler) (id : String) : Load Unit := do
  let bp ← EStateM.get
  match Dict.get? bp.handlers triggerType with
  | none => throw (.keyError triggerType)
  | some targets =>
    let stored := storeHandler ((Dict.get? targets target).getD []) id handler
    modify fun bp =>
      { bp with handlers := Dict.set bp.handlers triggerType (Dict.set targets target stored) }

def listen (handler : Handler) (id : String) : List SignalRef → Load Unit
  | [] => pure ()
  | signal :: rest => do
      addHandler signal.triggerType signal.triggerEvent handler id
      listen handler id rest

def continuationSignal (o : Operator) : SignalRef :=
  (o.emitSignals.find? fun signal => signal.role ≠ some "declared_emit").getD
    (makeSignalRef "event" ("Chunk-" ++ o.id) (some "continuation"))

def chunkOf (o : Operator) (object handler : Nat) : Chunk :=
  { object := object
    id := o.id
    name := Chunk.nameOf o
    handler := handler
    trigger := (continuationSignal o).triggerEvent
    callableRef := o.handlerRef
    emitSignals := (o.emitSignals.filter fun signal => signal.role = some "declared_emit").map
      SignalRef.triggerEvent }

def storeChunk (o : Operator) (object : Nat) (callables : List Nat) : Load Unit :=
  modify fun bp => { bp with
    chunks := Dict.set bp.chunks (dictKey (Chunk.nameOf o)) (chunkOf o object (callables.headD 0)) }

def compileOperator (b : Texts) (nested : Registries → Value → Option ConfigError) (o : Operator) :
    Load Unit := do
  let bp ← EStateM.get
  let callables ← orRaise (operatorReads b nested bp.registries o)
  let object ← newObject
  if o.kind = "chunk" then storeChunk o object callables
  listen ⟨object, o, callables⟩ o.id o.listenSignals

def compileOperators (b : Texts) (nested : Registries → Value → Option ConfigError) :
    List Operator → Load Unit
  | [] => pure ()
  | o :: rest => do
      compileOperator b nested o
      compileOperators b nested rest

def loadedDefinition (b : Texts) (current : Definition) (config : Value) (replace : Bool) :
    Except ConfigError Definition :=
  match fromDict b config with
  | .error e => .error e
  | .ok loaded =>
    if replace || (current.operators.isEmpty && current.metadata.isEmpty) then .ok loaded
    else
      let merged := { current with
        metadata := Dict.merge current.metadata loaded.metadata
        contract := if loaded.contract.isEmpty then current.contract else loaded.contract }
      merged.addOperators loaded.operators

def compileDefinition (b : Texts) (nested : Registries → Value → Option ConfigError) :
    Load Unit := do
  resetRuntime
  let bp ← EStateM.get
  compileOperators b nested bp.definition.operators

def loadWith (b : Texts) (nested : Registries → Value → Option ConfigError) (config : Value)
    (replace : Bool) : Load Unit := do
  let bp ← EStateM.get
  let definition ← orRaise (loadedDefinition b bp.definition config replace)
  modify fun bp => { bp with definition := definition, name := definition.name }
  compileDefinition b nested

def Blueprint.fresh (registries : Registries) : Blueprint :=
  { name := ""
    handlers := noHandlers
    chunks := []
    definition := ⟨"", [], [], []⟩
    registries := registries
    nextObject := 0 }

def raisedBy (load : Load Unit) (registries : Registries) : Option ConfigError :=
  match load (.fresh registries) with
  | .ok _ _ => none
  | .error e _ => some e

/-- `load_flow_config` where the stack has room for `depth` nested loads. -/
def loadFlowConfig (b : Texts) : Nat → Value → Bool → Load Unit
  | 0 => loadWith b fun _ _ => some .recursionError
  | depth + 1 => loadWith b fun registries config =>
    raisedBy (loadFlowConfig b depth config true) registries

end Agently.TriggerFlow.FlowConfig
