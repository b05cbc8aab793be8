import Agently.TaskDAG.TaskDAGData
import Agently.Utils.Json

/-! # Data of a model request

Source: `model/ModelRequestResultDataFlow.py`, for the data types `parsed` and `all` and with
`raise_ensure_failure`. A result is named by the number of its request. -/

namespace Agently.Model

open Agently.Utils (Json)
open Agently.TaskDAGValidation (strip)

inductive OutputFormat where
  | json
  | flat_markdown
  | hybrid
  | xml_field
  | yaml_literal
  | other (name : String)

/-- The output format of a prompt object, and whether `auto` was resolved to it. -/
structure PromptFormat where
  output_format : OutputFormat
  output_format_resolved_from_auto : Bool

def PromptFormat.json : PromptFormat := ⟨.json, false⟩

/-- What is raised; `exception` tells an `Exception` from any other `BaseException`. -/
structure Fault where
  text : String
  exception : Bool

def valueError (text : String) : Fault := ⟨text, true⟩

inductive DataType where
  | parsed
  | all
  deriving DecidableEq

inductive Policy where
  | presence
  | not_null
  deriving DecidableEq

/-- A call: what the prompt declares, the handlers' own names, and the arguments. -/
structure Call where
  type : DataType
  format : PromptFormat
  auto_ensure_policies : List (String × Policy)
  ensure_all_keys : Bool
  pydantic : Bool
  validate_handlers : List (Option String)
  ensure_keys : Option (List String)
  max_retries : Nat

structure Response where
  text_result : String
  parsed_result : Option Json
  result_object : Option Json
  output_validation_feedback : List String

inductive Data where
  | parsed (value : Option Json)
  | all (full : Response)

def Data.isNone : Data → Bool
  | .parsed none => true
  | _ => false

/-- What a handler returns. A dictionary's `raise_value` is what it asks to raise. -/
inductive ValidateResult where
  | bool (ok : Bool)
  | dict (ok : Bool) (reason : Option String) (no_retry stop : Bool) (raise_value : Option Fault)
      (validator_name : Option String)
  | unsupported (typeName : String)

/-- The model and the handlers: the response to the n-th request under a prompt of the format,
what the i-th handler makes of it, and where a key leads in a value. -/
structure World where
  reply : Nat → PromptFormat → Except Fault Response
  validate : Nat → Nat → Except Fault ValidateResult
  locate : Json → String → Option Json

inductive OutcomeKind where
  | passed
  | failed
  | error
  deriving DecidableEq

structure Outcome where
  ok : Bool
  kind : OutcomeKind
  reason : Option String
  validator_name : Option String
  retryable : Bool
  no_retry : Bool
  stop : Bool
  raise_value : Option Fault

def handler_name (name : Option String) (index : Nat) : String :=
  match name with
  | some name => if name = "" then "validate_handler_" ++ toString (index + 1) else name
  | none => "validate_handler_" ++ toString (index + 1)

def normalize_validate_result (raw : ValidateResult) (validator_name : String) : Outcome :=
  match raw with
  | .bool ok =>
    ⟨ok, if ok then .passed else .failed,
      if ok then none else some ("Validation failed in " ++ validator_name ++ "."),
      some validator_name, !ok, false, false, none⟩
  | .dict ok reason no_retry stop raise_value name =>
    ⟨ok, if ok then .passed else .failed,
      reason.or (if ok then none else some ("Validation failed in " ++ validator_name ++ ".")),
      some (name.getD validator_name),
      if ok then false else !(no_retry || stop || raise_value.isSome), no_retry, stop,
      if ok then none else raise_value⟩
  | .unsupported typeName =>
    ⟨false, .error,
      some ("Unsupported validation result from " ++ validator_name ++ ": " ++ typeName),
      some validator_name, true, false, false, none⟩

def normalize_validate_error (error : Fault) (validator_name : String) : Outcome :=
  ⟨false, .error,
    some (if error.text ≠ "" then error.text
      else "Validation handler " ++ validator_name ++ " raised an exception."),
    some validator_name, true, false, false, none⟩

def passed : Outcome := ⟨true, .passed, none, none, false, false, false, none⟩

def handlerOutcome (W : World) (request index : Nat) (name : Option String) : Outcome :=
  match W.validate request index with
  | .ok raw => normalize_validate_result raw (handler_name name index)
  | .error error => normalize_validate_error error (handler_name name index)

def runHandlers (W : World) (request : Nat) : Nat → List (Option String) → Outcome
  | _, [] => passed
  | index, name :: rest =>
    let outcome := handlerOutcome W request index name
    if outcome.ok then runHandlers W request (index + 1) rest else outcome

def orElse (text fallback : String) : String := if text = "" then fallback else text

def build_validation_failure_exception (outcome : Outcome) : Fault :=
  match outcome.raise_value with
  | some error => error
  | none =>
    match outcome.validator_name with
    | some name =>
      if name = "" then valueError (orElse (outcome.reason.getD "") "Output validation failed.")
      else
        valueError ("Output validation failed in " ++ name ++ ": " ++
          orElse (outcome.reason.getD "") "unknown reason")
    | none => valueError (orElse (outcome.reason.getD "") "Output validation failed.")

mutual

def ensure_value_is_present : Json → Bool
  | .null => false
  | .str s => strip s ≠ ""
  | .arr [] => false
  | .arr (x :: xs) => ensure_value_is_present x && allPresent xs
  | _ => true

def allPresent : List Json → Bool
  | [] => true
  | x :: xs => ensure_value_is_present x && allPresent xs

end

def isContainer : Json → Bool
  | .arr _ => true
  | .obj _ => true
  | _ => false

def merge_ensure_keys : List String → List String → List String
  | [], seen => seen
  | key :: rest, seen =>
    if key ∈ seen then merge_ensure_keys rest seen else merge_ensure_keys rest (seen ++ [key])

namespace Call

variable (C : Call) (W : World)

def auto_ensure_keys : List String := C.auto_ensure_policies.map Prod.fst

def activeKeys : Option (List String) → List String
  | none => C.auto_ensure_keys
  | some [] => []
  | some (key :: keys) => merge_ensure_keys (C.auto_ensure_keys ++ key :: keys) []

def is_strict_output_enabled (format : PromptFormat) : Bool :=
  C.ensure_all_keys &&
    match format.output_format with
    | .other _ => false
    | _ => true

def get_output_validation_feedback (response : Response) : List String :=
  if C.pydantic then
    ((response.output_validation_feedback.take 8).filter fun item => strip item ≠ "").map
      fun item => String.ofList (item.toList.take 300)
  else []

def ensured (response : Response) (key : String) : Bool :=
  match response.parsed_result with
  | none => false
  | some value =>
    isContainer value &&
      match W.locate value key with
      | none => false
      | some located =>
        match C.auto_ensure_policies.lookup key with
        | some .not_null => ensure_value_is_present located
        | _ => true

def strictlyParsed (response : Response) : Bool :=
  response.parsed_result.isSome && response.result_object.isSome

def constraintError (strict : Bool) (active : List String) (response : Response) :
    Option String :=
  if C.get_output_validation_feedback response ≠ [] then
    some ("Pydantic output validation failed: " ++
      String.intercalate "; " (C.get_output_validation_feedback response))
  else if strict && !strictlyParsed response then
    some "Strict output validation failed: parsed result or strict result object is missing."
  else
    (active.find? fun key => !C.ensured W response key).map ("Missing ensure key: " ++ ·)

def constraintFault (strict : Bool) (active : List String) (response : Response) : Fault :=
  if C.get_output_validation_feedback response ≠ [] then
    valueError ("Pydantic output validation failed after " ++ toString C.max_retries ++
      (if C.max_retries = 1 then " retry: " else " retries: ") ++
      String.intercalate "; " (C.get_output_validation_feedback response))
  else
    let constraints := (if strict then ["strict output"] else []) ++
      (if active ≠ [] then ["ensure keys " ++ toString active] else [])
    valueError ("Can not satisfy " ++
      (if constraints ≠ [] then String.intercalate " and " constraints
        else "output constraints") ++
      " within " ++ toString C.max_retries ++ " retries.")

def dataOf (response : Response) : Data :=
  match C.type with
  | .parsed => .parsed response.parsed_result
  | .all => .all response

end Call

/-- A result: its request, the format its prompt had then and has now, and its validation. -/
structure ModelRequestResult where
  request : Nat
  issued : PromptFormat
  format : PromptFormat
  validate_outcome : Option Outcome

def issue (request : Nat) (format : PromptFormat) : ModelRequestResult :=
  ⟨request, format, format, none⟩

/-- How a call ended: its answer, the requests made so far, the result and its accepted retry,
and the validations, each with the number of requests made by then. -/
structure Run where
  answer : Except Fault Data
  asked : Nat
  result : ModelRequestResult
  accepted : Option ModelRequestResult
  validated : List (Nat × Outcome)

def Run.carrier (r : Run) : ModelRequestResult := r.accepted.getD r.result

def Run.adopt (r : Run) (result : ModelRequestResult) (accepted : Option ModelRequestResult)
    (validated : List (Nat × Outcome)) : Run :=
  match r.answer with
  | .ok data => ⟨.ok data, r.asked, result, some r.carrier, validated ++ r.validated⟩
  | .error e => ⟨.error e, r.asked, result, accepted, validated ++ r.validated⟩

variable (C : Call) (W : World)

def degradable (format : PromptFormat) : Bool :=
  format.output_format_resolved_from_auto &&
    match format.output_format with
    | .flat_markdown | .hybrid | .xml_field | .yaml_literal => true
    | _ => false

def run_validate_handlers_once (result : ModelRequestResult) : Option Outcome :=
  match result.validate_outcome with
  | some outcome => some outcome
  | none =>
    if C.validate_handlers = [] then none
    else some (runHandlers W result.request 0 C.validate_handlers)

/-- After the degradation: the constraints, then the handlers. `retry` is the retry that is left,
given the prompt's format and the requests made so far. -/
def settle (retry : Option (PromptFormat → Nat → Run)) (strict : Bool) (active : List String)
    (result : ModelRequestResult) (response : Response) (asked : Nat)
    (accepted : Option ModelRequestResult) (validated : List (Nat × Outcome)) : Run :=
  if active = [] ∧ strict = false ∧ C.pydantic = false ∧ C.validate_handlers = [] ∧
      result.validate_outcome = none then
    ⟨.ok (C.dataOf response), asked, result, accepted, validated⟩
  else if (C.constraintError W strict active response).isSome then
    match retry with
    | some again => (again result.format asked).adopt result accepted validated
    | none =>
      ⟨.error (C.constraintFault strict active response), asked, result, accepted, validated⟩
  else
    match run_validate_handlers_once C W result with
    | none => ⟨.ok (C.dataOf response), asked, result, accepted, validated⟩
    | some outcome =>
      let events := if result.validate_outcome = none then validated ++ [(asked, outcome)]
        else validated
      let result := { result with validate_outcome := some outcome }
      if outcome.ok then ⟨.ok (C.dataOf response), asked, result, accepted, events⟩
      else
        match retry, outcome.retryable with
        | some again, true => (again result.format asked).adopt result accepted events
        | _, _ =>
          ⟨.error (build_validation_failure_exception outcome), asked, result, accepted,
            events⟩

/-- After `try_auto_degradation`, whose nested call has ended as `nested`. -/
def afterDegradation (retry : PromptFormat → Nat → Run) (strict : Bool) (active : List String)
    (result : ModelRequestResult) (response : Response) (nested : Run) : Run :=
  match nested.answer with
  | .ok data =>
    if data.isNone then
      settle C W (some retry) strict active result response nested.asked (some nested.carrier)
        nested.validated
    else nested.adopt result none []
  | .error e =>
    -- every `Exception` of the nested attempts is taken for nothing to degrade
    if e.exception then
      settle C W (some retry) strict active result response nested.asked none nested.validated
    else ⟨.error e, nested.asked, result, none, nested.validated⟩

/-- `async_get_data` on a result without an accepted retry; `left` retries are left. -/
def async_get_data : Nat → Option (List String) → ModelRequestResult → Nat → Run
  | 0, ensure_keys, result, asked =>
    match W.reply result.request result.issued with
    | .error e => ⟨.error e, asked, result, none, []⟩
    | .ok response =>
      settle C W none (C.is_strict_output_enabled result.format) (C.activeKeys ensure_keys)
        result response asked none []
  | left + 1, ensure_keys, result, asked =>
    match W.reply result.request result.issued with
    | .error e => ⟨.error e, asked, result, none, []⟩
    | .ok response =>
      let strict := C.is_strict_output_enabled result.format
      let active := C.activeKeys ensure_keys
      let retry := fun format asked =>
        async_get_data left (some active) (issue asked format) (asked + 1)
      if degradable result.format ∧ response.parsed_result.isNone then
        afterDegradation C W retry strict active { result with format := .json } response
          (retry .json asked)
      else settle C W (some retry) strict active result response asked none []

def firstCall : Run :=
  async_get_data C W C.max_retries C.ensure_keys (issue 0 C.format) 1

def laterCall (r : Run) : Run :=
  async_get_data C W C.max_retries C.ensure_keys r.carrier r.asked

end Agently.Model
