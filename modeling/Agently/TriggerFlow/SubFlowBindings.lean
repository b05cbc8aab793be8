import Mathlib
import Agently.Lib.NestedDict
import Agently.Utils.StateData
import Agently.Utils.Value

/-! # The bindings of a sub flow

Source: `TriggerFlow/SubFlowBindings.py`, `TriggerFlow/BluePrintSubFlow.py`, `utils/StateData.py`.
A binding names a path of the parent and one of the child's result. Copies are the values they
copy; a leaf is whatever is no dictionary, and `typeText` is `str(type(v))`. -/

namespace Agently.TriggerFlow.SubFlowBindings

open Agently.Lib Agently.Utils

inductive Mode where
  | capture
  | writeBack
  deriving DecidableEq

def Mode.text : Mode → String
  | .capture => "capture"
  | .writeBack => "write_back"

inductive Scope where
  | input
  | value
  | runtimeData
  | flowData
  | resources
  | result
  deriving DecidableEq

def Scope.text : Scope → String
  | .input => "input"
  | .value => "value"
  | .runtimeData => "runtime_data"
  | .flowData => "flow_data"
  | .resources => "resources"
  | .result => "result"

def targetScopes : Mode → List Scope
  | .capture => [.input, .runtimeData, .flowData, .resources]
  | .writeBack => [.value, .runtimeData, .flowData]

def sourceScopes : Mode → List Scope
  | .capture => [.value, .runtimeData, .flowData, .resources]
  | .writeBack => [.result]

def targetScopesText : Mode → String
  | .capture => "['flow_data', 'input', 'resources', 'runtime_data']"
  | .writeBack => "['flow_data', 'runtime_data', 'value']"

def sourceScopesText : Mode → String
  | .capture => "['flow_data', 'resources', 'runtime_data', 'value']"
  | .writeBack => "['result']"

structure CompiledSubFlowBinding where
  targetScope : Scope
  targetPath : List String
  sourceScope : Scope
  sourcePath : List String

inductive ScopeBinding where
  | source (path : String)
  | mapping (paths : Dict String String)

def isSegmentStart (c : Char) : Bool :=
  ('A' ≤ c && c ≤ 'Z') || ('a' ≤ c && c ≤ 'z') || c == '_'

def isSegment (s : String) : Bool :=
  match s.toList with
  | [] => false
  | c :: rest => isSegmentStart c && rest.all fun d => isSegmentStart d || ('0' ≤ d && d ≤ '9')

def raisedIn {α : Type} (kind : ErrorKind) (message : String) : Except PyError α :=
  .error (.raised kind ("TriggerFlow sub flow " ++ message))

def joinDots : List String → String
  | [] => ""
  | [s] => s
  | s :: rest => s ++ "." ++ joinDots rest

def parseRelativePath (optionName : String) (path : String) : Except PyError (List String) :=
  if path = "" then raisedIn .valueError (optionName ++ " target path can not be empty.")
  else match (StateData.pathOf path).find? fun s => !isSegment s with
    | some segment => raisedIn .valueError (optionName ++ " target path '" ++ path ++
        "' contains invalid segment '" ++ segment ++ "'.")
    | none => .ok (StateData.pathOf path)

def parseSourcePath (mode : Mode) (targetScope : Scope) (path : String) :
    Except PyError (Scope × List String) :=
  if path = "" then raisedIn .valueError (mode.text ++ " source path for target scope '" ++
    targetScope.text ++ "' can not be empty.")
  else
    let root := (StateData.pathOf path).headD ""
    let segments := (StateData.pathOf path).tail
    match (sourceScopes mode).find? fun s => s.text = root with
    | none => raisedIn .valueError (mode.text ++ " source scope '" ++ root ++
        "' is not supported. Allowed scopes: " ++ sourceScopesText mode)
    | some scope =>
      match segments.find? fun s => !isSegment s with
      | some segment => raisedIn .valueError (mode.text ++ " source path '" ++ path ++
          "' contains invalid segment '" ++ segment ++ "'.")
      | none => .ok (scope, segments)

section Normalizing

variable (typeText : Value → String)

def normalizePaths (mode : Mode) (scope : Scope) (found : Dict String String) :
    List (String × Value) → Except PyError (Dict String String)
  | [] => .ok found
  | (target, .str source) :: rest => normalizePaths mode scope (found.set target source) rest
  | (_, source) :: _ => raisedIn .typeError (mode.text ++ " source path for scope '" ++ scope.text ++
      "' must be a string, got: " ++ typeText source ++ ".")

def normalizeScopeBinding (mode : Mode) (scope : Scope) : Value → Except PyError ScopeBinding
  | .str source =>
    if scope = .input ∨ scope = .value then .ok (.source source)
    else raisedIn .typeError (mode.text ++ " scope '" ++ scope.text ++
      "' only accepts key-path mappings.")
  | .dict paths => (normalizePaths typeText mode scope [] paths).map .mapping
  | binding => raisedIn .typeError (mode.text ++ " scope '" ++ scope.text ++
      "' expects a string or mapping, got: " ++ typeText binding ++ ".")

def normalizeScopes (mode : Mode) (found : Dict Scope ScopeBinding) :
    List (String × Value) → Except PyError (Dict Scope ScopeBinding)
  | [] => .ok found
  | (name, binding) :: rest =>
    match (targetScopes mode).find? fun s => s.text = name with
    | none => raisedIn .valueError (mode.text ++ " target scope '" ++ name ++
        "' is not supported. Allowed scopes: " ++ targetScopesText mode)
    | some scope =>
      match normalizeScopeBinding typeText mode scope binding with
      | .error e => .error e
      | .ok b => normalizeScopes mode (found.set scope b) rest

def normalizeSpec (mode : Mode) : Value → Except PyError (Option (Dict Scope ScopeBinding))
  | .none => .ok none
  | .dict spec => (normalizeScopes typeText mode [] spec).map some
  | spec => raisedIn .typeError (mode.text ++ " spec must be a mapping, got: " ++ typeText spec ++ ".")

end Normalizing

def properPrefixes (path : List String) : List (List String) :=
  (List.range path.length).tail.map fun depth => path.take depth

def checkConflicts (mode : Mode) (scope : Scope) (seen : List (List String)) :
    List (List String) → Except PyError Unit
  | [] => .ok ()
  | path :: rest =>
    if seen.contains path then raisedIn .valueError (mode.text ++ " target path '" ++ scope.text ++ "." ++
      joinDots path ++ "' is duplicated.")
    else match (properPrefixes path).find? fun p => seen.contains p with
      | some p => raisedIn .valueError (mode.text ++ " target paths conflict under scope '" ++
          scope.text ++ "': '" ++ scope.text ++ "." ++ joinDots p ++ "' and '" ++ scope.text ++
          "." ++ joinDots path ++ "'.")
      | none => checkConflicts mode scope (path :: seen) rest

def validateTargetConflicts (mode : Mode) (scope : Scope) (paths : List (List String)) :
    Except PyError Unit :=
  checkConflicts mode scope [] (paths.insertionSort fun p q => p.length ≤ q.length)

def compilePaths (mode : Mode) (scope : Scope) :
    Dict String String → Except PyError (List CompiledSubFlowBinding)
  | [] => .ok []
  | (target, source) :: rest =>
    match parseRelativePath (mode.text ++ "." ++ scope.text) target with
    | .error e => .error e
    | .ok targetPath =>
      match parseSourcePath mode scope source with
      | .error e => .error e
      | .ok (sourceScope, sourcePath) =>
        (compilePaths mode scope rest).map fun bs =>
          ⟨scope, targetPath, sourceScope, sourcePath⟩ :: bs

def compileScope (mode : Mode) (scope : Scope) :
    ScopeBinding → Except PyError (List CompiledSubFlowBinding)
  | .source path =>
    (parseSourcePath mode scope path).map fun source => [⟨scope, [], source.1, source.2⟩]
  | .mapping paths =>
    match compilePaths mode scope paths with
    | .error e => .error e
    | .ok bs =>
      (validateTargetConflicts mode scope (bs.map CompiledSubFlowBinding.targetPath)).map
        fun _ => bs

def compileScopes (mode : Mode) :
    Dict Scope ScopeBinding → Except PyError (List CompiledSubFlowBinding)
  | [] => .ok []
  | (scope, binding) :: rest =>
    match compileScope mode scope binding with
    | .error e => .error e
    | .ok bs => (compileScopes mode rest).map fun others => bs ++ others

def compileBindings (typeText : Value → String) (mode : Mode) (spec : Value) :
    Except PyError (Option (Dict Scope ScopeBinding) × List CompiledSubFlowBinding) :=
  match normalizeSpec typeText mode spec with
  | .error e => .error e
  | .ok none =>
    let target := if mode = .capture then Scope.input else .value
    let path := if mode = .capture then "value" else "result"
    (parseSourcePath mode target path).map fun source =>
      (none, [⟨target, [], source.1, source.2⟩])
  | .ok (some scopes) => (compileScopes mode scopes).map fun bs => (some scopes, bs)

variable {ν : Type}

abbrev Tree (ν : Type) := Node String ν

abbrev Entries (ν : Type) := List (String × Node String ν)

/-- `StateData.set`; `none` where it raises. -/
def setData (data : Entries ν) (key : String) (value : Tree ν) : Option (Entries ν) :=
  if StateData.isPath key then
    match Node.set (StateData.pathOf key) value (.dict data) with
    | some (.dict kvs) => some kvs
    | _ => none
  else some (Dict.set data key value)

/-- `_SubFlowWriteBackSource.read_path`; `none` where it raises. -/
def readResult (result : Tree ν) (path : List String) : Option (Tree ν) :=
  match result with
  | .dict kvs =>
    match Dict.get? kvs "$final_result" with
    | some final => (Node.get path final).or (Node.get path result)
    | none => Node.get path result
  | .leaf v => Node.get path (.leaf v)

structure ParentData (ν : Type) where
  value : Tree ν
  runtimeData : Entries ν
  flowData : Entries ν

structure WriteBackTarget (ν : Type) where
  hasValueBinding : Bool := false
  currentValue : Tree ν
  valueData : Entries ν
  runtimeData : Entries ν := []
  flowData : Entries ν := []

def entriesOf : Tree ν → Entries ν
  | .dict kvs => kvs
  | .leaf _ => []

def WriteBackTarget.of (initial : Tree ν) : WriteBackTarget ν :=
  { currentValue := initial, valueData := entriesOf initial }

def WriteBackTarget.openValue (t : WriteBackTarget ν) : Entries ν :=
  match t.currentValue with
  | .dict _ => t.valueData
  | .leaf _ => []

def writePath (t : WriteBackTarget ν) (scope : Scope) (path : List String) (value : Tree ν) :
    Option (WriteBackTarget ν) :=
  match scope with
  | .value =>
    if path = [] then some { t with hasValueBinding := true, currentValue := value }
    else (setData t.openValue (joinDots path) value).map fun data =>
      { t with hasValueBinding := true, currentValue := .dict data, valueData := data }
  | .runtimeData => (setData t.runtimeData (joinDots path) value).map fun data =>
    { t with runtimeData := data }
  | .flowData => (setData t.flowData (joinDots path) value).map fun data =>
    { t with flowData := data }
  | _ => none

def applyBindings (result : Tree ν) (t : WriteBackTarget ν) :
    List CompiledSubFlowBinding → Option (WriteBackTarget ν)
  | [] => some t
  | b :: rest =>
    (readResult result b.sourcePath).bind fun value =>
      (writePath t b.targetScope b.targetPath value).bind fun t => applyBindings result t rest

def setPatch (data : Entries ν) : Entries ν → Option (Entries ν)
  | [] => some data
  | (key, value) :: rest => (setData data key value).bind fun data => setPatch data rest

/-- `_SubFlowWriteBackTarget.apply`: each patch is set key by key. -/
def WriteBackTarget.apply (t : WriteBackTarget ν) (parent : ParentData ν) : Option (ParentData ν) :=
  (setPatch parent.runtimeData t.runtimeData).bind fun runtimeData =>
    (setPatch parent.flowData t.flowData).map fun flowData =>
      { value := if t.hasValueBinding then t.currentValue else parent.value
        runtimeData := runtimeData
        flowData := flowData }

/-- What completing a frame makes of the parent's data; `normalized` is the spec, if there is one. -/
def completeFrame {α : Type} (normalized : Option α) (bindings : List CompiledSubFlowBinding)
    (result : Tree ν) (parent : ParentData ν) : Option (ParentData ν) :=
  match normalized with
  | none => some { parent with value := (Dict.get? (entriesOf result) "$final_result").getD result }
  | some _ => (applyBindings result (.of parent.value) bindings).bind fun t => t.apply parent

end Agently.TriggerFlow.SubFlowBindings
