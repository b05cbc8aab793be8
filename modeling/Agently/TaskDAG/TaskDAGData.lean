import Mathlib
import Agently.Utils.Value

/-! # Task graphs as data

Source: `types/data/task_dag.py` and `TaskDAG/TaskDAGHelpers.py`. A candidate is a value;
`nodeOf` and `graphOf` tell the objects that are nodes and graphs already, `reprOf` is `str()` of
what is no string. -/

namespace Agently.TaskDAGValidation

open Agently.Lib Agently.Utils

inductive Fault where
  | typeError (message : String)
  | valueError (message : String)
  deriving DecidableEq

structure TaskDAGNode where
  id : String
  kind : String := "task"
  title : Option String := none
  purpose : Option String := none
  dependsOn : List String := []
  inputs : Value := .dict []
  binding : Value := .none
  produces : List Value := []
  sideEffectPolicy : List (String × Value) := []
  fallback : Value := .none
  approval : Value := .none
  deriving DecidableEq

def taskDagSchemaVersion : String := "task_dag/v1"

structure TaskDAG where
  graphId : String
  tasks : List TaskDAGNode
  taskSchemaVersion : String := taskDagSchemaVersion
  semanticOutputs : Value := .dict []
  policies : List (String × Value) := []
  diagnostics : List (List (String × Value)) := []
  deriving DecidableEq

def isSpace (c : Char) : Bool :=
  let n := c.toNat
  (9 ≤ n && n ≤ 13) || (28 ≤ n && n ≤ 32) || n == 133 || n == 160 || n == 5760 ||
    (8192 ≤ n && n ≤ 8202) || n == 8232 || n == 8233 || n == 8239 || n == 8287 || n == 12288

def strip (s : String) : String :=
  String.ofList ((s.toList.dropWhile isSpace).reverse.dropWhile isSpace).reverse

theorem strip_strip (s : String) : strip (strip s) = strip s := by
  have hlist : ∀ l : List Char, strip (String.ofList l) =
      String.ofList ((l.dropWhile isSpace).rdropWhile isSpace) := by
    intro l
    unfold strip List.rdropWhile
    rw [String.toList_ofList]
  have hs : strip s = String.ofList ((s.toList.dropWhile isSpace).rdropWhile isSpace) := rfl
  rw [hs, hlist]
  congr 1
  have hdrop : ((s.toList.dropWhile isSpace).rdropWhile isSpace).dropWhile isSpace =
      (s.toList.dropWhile isSpace).rdropWhile isSpace := by
    rw [List.dropWhile_eq_self_iff]
    intro hl
    have hpre := List.rdropWhile_prefix isSpace (s.toList.dropWhile isSpace)
    rw [List.IsPrefix.getElem hpre hl]
    have hlen := Nat.lt_of_lt_of_le hl hpre.length_le
    exact List.dropWhile_eq_self_iff.mp (List.dropWhile_idempotent isSpace s.toList) hlen
  rw [hdrop]
  exact List.rdropWhile_idempotent isSpace _

theorem alphanum_range {c : Char} (h : c.isAlphanum = true) :
    48 ≤ c.toNat ∧ c.toNat ≤ 57 ∨ 65 ≤ c.toNat ∧ c.toNat ≤ 90 ∨ 97 ≤ c.toNat ∧ c.toNat ≤ 122 := by
  simp only [Char.isAlphanum, Char.isAlpha, Char.isUpper, Char.isLower, Char.isDigit,
    Bool.or_eq_true, Bool.and_eq_true, decide_eq_true_eq, ge_iff_le, UInt32.le_iff_toNat_le] at h
  have hn : c.val.toNat = c.toNat := rfl
  simp at h
  omega

theorem isSpace_of_alphanum {c : Char} (h : c.isAlphanum = true) : isSpace c = false := by
  have hr := alphanum_range h
  simp only [isSpace, Bool.or_eq_false_iff, Bool.and_eq_false_iff, decide_eq_false_iff_not,
    beq_eq_false_iff_ne]
  omega

def typeName : Value → String
  | .none => "NoneType"
  | .bool _ => "bool"
  | .int _ => "int"
  | .str _ => "str"
  | .list _ => "list"
  | .tuple _ => "tuple"
  | .dict _ => "dict"
  | .empty => "AVOID_COPY"
  | .object _ _ => "object"

/-- The items a `for` loop takes from a value. -/
def items (v : Value) : Except Fault (List Value) :=
  match v with
  | .list xs | .tuple xs => .ok xs
  | .str s => .ok (s.toList.map fun c => .str c.toString)
  | .dict kvs => .ok (kvs.map fun p => .str p.1)
  | v => .error (.typeError ("'" ++ typeName v ++ "' object is not iterable"))

def get (kvs : List (String × Value)) (k : String) : Value := (Dict.get? kvs k).getD .none

def orElse (a b : Value) : Value := if a.truthy then a else b

def pairOf (v : Value) : Option (String × Value) :=
  match items v with
  | .ok [.str k, x] => some (k, x)
  | _ => none

def setPairs : List Value → List (String × Value) → Except Fault (List (String × Value))
  | [], kvs => .ok kvs
  | v :: rest, kvs =>
    match pairOf v with
    | some (k, x) => setPairs rest (Dict.set kvs k x)
    | none => .error (.typeError "cannot convert dictionary update sequence element to a sequence")

def dictOf (v : Value) : Except Fault (List (String × Value)) :=
  match v with
  | .dict kvs => .ok kvs
  | v =>
    match items v with
    | .error e => .error e
    | .ok xs => setPairs xs []

section Reading

variable (reprOf : Value → String) (nodeOf : Value → Option TaskDAGNode)
  (graphOf : Value → Option TaskDAG)

def strOf : Value → String
  | .str s => s
  | v => reprOf v

def strOrNone : Value → Option String
  | .none => none
  | v => some (strOf reprOf v)

def dependencies (v : Value) : Except Fault (List String) :=
  match v with
  | .none => .ok []
  | .str s => .ok [strip s]
  | v =>
    match items v with
    | .error e => .error e
    | .ok xs => .ok (xs.map fun x => strip (strOf reprOf x))

def produced (v : Value) : Except Fault (List Value) :=
  match v with
  | .none => .ok []
  | .str s => .ok [.str s]
  | .dict kvs => .ok [.dict kvs]
  | v => items v

def sideEffects (v : Value) : List (String × Value) :=
  match orElse v (.dict []) with
  | .dict kvs => kvs
  | _ => [("value", v)]

def textOr (text other : String) : String := if text = "" then other else text

def nodeFromValue (value : Value) : Except Fault TaskDAGNode :=
  match nodeOf value with
  | some node => .ok node
  | none =>
    match value with
    | .dict kvs =>
      if get kvs "id" = .none then
        .error (.valueError "Dynamic task requires non-empty 'id'.")
      else
        match dependencies reprOf ((Dict.get? kvs "depends_on").getD (.tuple [])) with
        | .error e => .error e
        | .ok dependsOn =>
          match produced ((Dict.get? kvs "produces").getD (.tuple [])) with
          | .error e => .error e
          | .ok produces => .ok
              { id := strip (strOf reprOf (get kvs "id"))
                kind := textOr
                  (strip (strOf reprOf ((Dict.get? kvs "kind").getD (.str "task")))) "task"
                title := strOrNone reprOf (get kvs "title")
                purpose := strOrNone reprOf (get kvs "purpose")
                dependsOn := dependsOn
                inputs := (Dict.get? kvs "inputs").getD (.dict [])
                binding := get kvs "binding"
                produces := produces
                sideEffectPolicy := sideEffects (get kvs "side_effect_policy")
                fallback := get kvs "fallback"
                approval := get kvs "approval" }
    | v => .error (.typeError
        ("Dynamic task must be a mapping or TaskDAGNode, got: <class '" ++ typeName v ++ "'>."))

def nodesFromValues : List Value → Except Fault (List TaskDAGNode)
  | [] => .ok []
  | v :: rest =>
    match nodeFromValue reprOf nodeOf v with
    | .error e => .error e
    | .ok node =>
      match nodesFromValues rest with
      | .error e => .error e
      | .ok nodes => .ok (node :: nodes)

def diagnosticOf : Value → List (String × Value)
  | .dict kvs => kvs
  | v => [("message", .str (strOf reprOf v))]

def diagnosticsOf (v : Value) : Except Fault (List (List (String × Value))) :=
  match v with
  | .dict kvs => .ok [kvs]
  | v =>
    match items (orElse v (.tuple [])) with
    | .error e => .error e
    | .ok xs => .ok (xs.map (diagnosticOf reprOf))

def rawTasks (v : Value) : Except Fault (List Value) :=
  match v with
  | .none => .error (.valueError "Task DAG requires 'tasks'.")
  | .list xs | .tuple xs => .ok xs
  | v => .error (.typeError
      ("Task DAG 'tasks' must be a list/tuple, got: <class '" ++ typeName v ++ "'>."))

/-- `TaskDAG.from_value`; `freshId` is the generated graph id. -/
def graphFromValue (freshId : String) (value : Value) : Except Fault TaskDAG :=
  match graphOf value with
  | some graph => .ok graph
  | none =>
    match value with
    | .dict kvs =>
      match rawTasks (get kvs "tasks") with
      | .error e => .error e
      | .ok raw =>
        let graphId := strip (strOf reprOf (orElse (get kvs "graph_id") (.str freshId)))
        if graphId = "" then .error (.valueError "Task DAG requires non-empty 'graph_id'.")
        else
          match nodesFromValues reprOf nodeOf raw with
          | .error e => .error e
          | .ok tasks =>
            match dictOf (orElse (get kvs "policies") (.dict [])) with
            | .error e => .error e
            | .ok policies =>
              match diagnosticsOf reprOf ((Dict.get? kvs "diagnostics").getD (.tuple [])) with
              | .error e => .error e
              | .ok diagnostics => .ok
                  { graphId := graphId
                    taskSchemaVersion := strOf reprOf
                      (orElse (get kvs "task_schema_version") (.str taskDagSchemaVersion))
                    tasks := tasks
                    semanticOutputs := (Dict.get? kvs "semantic_outputs").getD (.dict [])
                    policies := policies
                    diagnostics := diagnostics }
    | v => .error (.typeError
        ("Task DAG must be a mapping or TaskDAG, got: <class '" ++ typeName v ++ "'>."))

def specTask (kvs : List (String × Value)) : Option String :=
  strOrNone reprOf (orElse (get kvs "task_id") (get kvs "from_task"))

def outputEntry (refs : Dict String String) (p : String × Value) : Dict String String :=
  match p.2 with
  | .str s => Dict.set refs p.1 s
  | .dict kvs =>
    match specTask reprOf kvs with
    | some task => Dict.set refs p.1 task
    | none => refs
  | _ => refs

def outputItem (refs : Dict String String) (item : Value) : Dict String String :=
  match item with
  | .dict kvs =>
    match strOrNone reprOf (orElse (get kvs "role") (get kvs "name")), specTask reprOf kvs with
    | some role, some task => Dict.set refs role task
    | _, _ => refs
  | _ => refs

def semanticOutputTaskRefs : Value → Dict String String
  | .dict kvs => kvs.foldl (outputEntry reprOf) []
  | .list xs | .tuple xs => xs.foldl (outputItem reprOf) []
  | _ => []

end Reading

def isApprovalTask (task : TaskDAGNode) : Bool := decide (task.kind = "approval")

mutual

def unhashable : Value → Option String
  | .list _ => some "list"
  | .dict _ => some "dict"
  | .tuple xs => unhashableIn xs
  | _ => none

def unhashableIn : List Value → Option String
  | [] => none
  | x :: xs => (unhashable x).orElse fun _ => unhashableIn xs

end

def modeAsks (mode : Value) : Except Fault Bool :=
  match unhashable mode with
  | some name => .error (.typeError ("unhashable type: '" ++ name ++ "'"))
  | none => .ok (decide (mode = .str "required" ∨ mode = .str "pause"))

def approvalRequired (task : TaskDAGNode) : Except Fault Bool :=
  if isApprovalTask task then .ok true
  else
    match task.approval with
    | .bool b => .ok b
    | .dict kvs => if (get kvs "required").truthy then .ok true else modeAsks (get kvs "mode")
    | _ => .ok false

end Agently.TaskDAGValidation
