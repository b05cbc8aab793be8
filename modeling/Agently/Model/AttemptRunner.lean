import Mathlib.Data.List.Basic
import Agently.Utils.IntText

/-! # The attempts of a model request

Source: `model/AttemptRunner.py` and `types/data/attempt.py`. Every handler is a parameter: what
it answers may depend on the number of the attempt, and what an observation handler raises on
everything that happened before. The handlers only read the state they are given. -/

namespace Agently.Model.AttemptRunner

open Agently.TaskDAGValidation (isSpace)
open Agently.Utils.IntText (strip)

abbrev Text := List Char

inductive ErrorKind where
  | generatorExit
  | systemExit
  | cancelled
  | keyboardInterrupt
  | other
deriving DecidableEq

structure Errors (E D : Type) where
  kind : E → ErrorKind
  str : E → Text
  className : E → Text
  diagnostic : E → Option D
  truthy : E → Bool
  runtimeError : Text → E
  typeError : Text → E

inductive Payload (E V : Type) where
  | error (e : E)
  | value (v : V)

/-- A pair `(event, payload)` that an attempt yields. -/
structure Item (E V : Type) where
  event : String
  payload : Payload E V

structure AttemptState where
  attempt_index : Int := 1
  output_started : Bool := false
  max_attempts : Option Int := none

inductive DecisionAction where
  | retry
  | raise
  | yield_error
  | stop
deriving DecidableEq

structure AttemptDecision (E O : Type) where
  action : DecisionAction
  reason : Option Text := none
  error : Option E := none
  observations : List O := []
  allow_after_output_started : Bool := false

inductive Handled (E O : Type) where
  | decision (d : AttemptDecision E O)
  | foreign
  | raised (e : E)

inductive StatusName where
  | completed
  | failed
  | cancelled
deriving DecidableEq

structure Status (D : Type) where
  status : StatusName
  attempt_index : Int
  retry : Bool
  reason : Option Text := none
  error_type : Option Text := none
  next_attempt_index : Option Int := none
  error_diagnostic : Option D := none

inductive Observation (E V D O : Type) where
  | status (s : Status D)
  | output_started (attempt_index : Int)
  | error_yielded (attempt_index : Int) (error : Payload E V)
  | retry_blocked (attempt_index : Int) (reason : Option Text)
  | retry (attempt_index : Int) (reason : Option Text)
  | reported (o : O)

inductive Event (E V D O : Type) where
  | attempt (k : Nat)
  | observed (o : Observation E V D O)
  | decided (d : AttemptDecision E O)
  | item (i : Item E V)
  | status (s : Status D)
  | error (e : E)

structure Attempt (E V : Type) where
  items : List (Item E V)
  raises : Option E

structure AttemptHandlers (E V D O : Type) where
  execute : Nat → AttemptState → Attempt E V
  handle_error : Nat → E → AttemptState → Handled E O
  on_observation : List (Event E V D O) → Observation E V D O → Option E
  is_output_started : Option (Item E V → AttemptState → Except E Bool) := none

inductive Ending (E : Type) where
  | returned
  | raised (e : E)

structure Run (E V D O : Type) where
  state : AttemptState
  trace : List (Event E V D O)

section Runner

variable {E V D O : Type} (errors : Errors E D) (valueText : V → Text)
  (handlers : AttemptHandlers E V D O)

def requestDataLabel : Text := "\nRequest Data:".toList

/-- `reason.split(label, 1)[0]`, and everything when the label does not occur. -/
def beforeLabel (label : Text) : Text → Text
  | [] => []
  | c :: rest => if label.isPrefixOf (c :: rest) then [] else c :: beforeLabel label rest

def _error_reason (e : E) : Text :=
  let reason := strip (errors.str e)
  let shown := beforeLabel requestDataLabel reason
  let reason := if shown.length < reason.length then shown.rdropWhile isSpace else reason
  (if reason.isEmpty then errors.className e else reason).take 4096

def _failure_status (state : AttemptState) (e : E) (retry : Bool)
    (next_attempt_index : Option Int) : Status D :=
  { status := .failed
    attempt_index := state.attempt_index
    retry := retry
    reason := some (_error_reason errors e)
    error_type := some (errors.className e)
    next_attempt_index := next_attempt_index
    error_diagnostic := errors.diagnostic e }

def _cancelled_status (state : AttemptState) (e : E) : Status D :=
  { status := .cancelled
    attempt_index := state.attempt_index
    retry := false
    reason := some (_error_reason errors e)
    error_type := some (errors.className e) }

def _completed_status (state : AttemptState) : Status D :=
  { status := .completed, attempt_index := state.attempt_index, retry := false }

def Run.emit (r : Run E V D O) (e : Event E V D O) : Run E V D O :=
  { r with trace := r.trace ++ [e] }

def _observe (o : Observation E V D O) (r : Run E V D O) : Option E × Run E V D O :=
  (handlers.on_observation r.trace o, r.emit (.observed o))

def _observe_all : List O → Run E V D O → Option E × Run E V D O
  | [], r => (none, r)
  | o :: rest, r =>
    match _observe handlers (.reported o) r with
    | (some e, r) => (some e, r)
    | (none, r) => _observe_all rest r

def _default_output_started (item : Item E V) : Bool :=
  item.event ≠ "error" && item.event ≠ "status"

def isOutputStarted (item : Item E V) (state : AttemptState) : Except E Bool :=
  match handlers.is_output_started with
  | some f => f item state
  | none => .ok (_default_output_started item)

def markOutput (item : Item E V) (r : Run E V D O) : Option E × Run E V D O :=
  if r.state.output_started then (none, r)
  else
    match isOutputStarted handlers item r.state with
    | .error e => (some e, r)
    | .ok false => (none, r)
    | .ok true =>
      _observe handlers (.output_started r.state.attempt_index)
        { r with state := { r.state with output_started := true } }

def errorOf : Payload E V → E
  | .error e => e
  | .value v => errors.runtimeError (valueText v)

/-- The items of an attempt up to its end, and the status of a completed one. -/
def stream (raises : Option E) : List (Item E V) → Run E V D O → Ending E × Run E V D O
  | [], r =>
    match raises with
    | some e => (.raised e, r)
    | none =>
      match _observe handlers (.status (_completed_status r.state)) r with
      | (some e, r) => (.raised e, r)
      | (none, r) => (.returned, r.emit (.status (_completed_status r.state)))
  | item :: rest, r =>
    if item.event = "error" then
      let status := _failure_status errors r.state (errorOf errors valueText item.payload)
        false none
      match _observe handlers (.status status) r with
      | (some e, r) => (.raised e, r)
      | (none, r) =>
        match _observe handlers (.error_yielded r.state.attempt_index item.payload)
            (r.emit (.status status)) with
        | (some e, r) => (.raised e, r)
        | (none, r) => (.returned, r.emit (.item item))
    else
      match markOutput handlers item r with
      | (some e, r) => (.raised e, r)
      | (none, r) => stream raises rest (r.emit (.item item))

def decisionError (d : AttemptDecision E O) (e : E) : E :=
  match d.error with
  | some error => if errors.truthy error then error else e
  | none => e

def exhausted (state : AttemptState) : Bool :=
  match state.max_attempts with
  | some most => decide (most ≤ state.attempt_index)
  | none => false

def outputBlocks (d : AttemptDecision E O) (state : AttemptState) : Bool :=
  state.output_started && !d.allow_after_output_started

/-- The failure is announced, and `after` says what follows. -/
def announce (status : Status D) (r : Run E V D O)
    (after : Run E V D O → Option (Ending E) × Run E V D O) : Option (Ending E) × Run E V D O :=
  match _observe handlers (.status status) r with
  | (some e, r) => (some (.raised e), r)
  | (none, r) => after (r.emit (.status status))

/-- What the decision leads to; `none` when another attempt follows. -/
def conclude (d : AttemptDecision E O) (error : E) (r : Run E V D O) :
    Option (Ending E) × Run E V D O :=
  match d.action with
  | .retry =>
    let retry_allowed := !outputBlocks d r.state && !exhausted r.state
    let status := _failure_status errors r.state error retry_allowed
      (if retry_allowed then some (r.state.attempt_index + 1) else none)
    announce handlers status r fun r =>
      if outputBlocks d r.state then
        match _observe handlers (.retry_blocked r.state.attempt_index d.reason) r with
        | (some e, r) => (some (.raised e), r)
        | (none, r) => (some (.raised error), r)
      else if exhausted r.state then (some (.raised error), r)
      else
        let next := { r with
          state := { r.state with
            attempt_index := r.state.attempt_index + 1, output_started := false } }
        match _observe handlers (.retry next.state.attempt_index d.reason) next with
        | (some e, r) => (some (.raised e), r)
        | (none, r) => (none, r)
  | .yield_error =>
    let yielded_error := decisionError errors d error
    announce handlers (_failure_status errors r.state yielded_error false none) r fun r =>
      match _observe handlers
          (.error_yielded r.state.attempt_index (.error yielded_error)) r with
      | (some e, r) => (some (.raised e), r)
      | (none, r) => (some .returned, r.emit (.error yielded_error))
  | .stop =>
    announce handlers (_failure_status errors r.state error false none) r fun r =>
      (some .returned, r)
  | .raise =>
    let raised := decisionError errors d error
    announce handlers (_failure_status errors r.state raised false none) r fun r =>
      (some (.raised raised), r)

def notDecision : Text := "Attempt error handler must return AttemptDecision.".toList

def recover (k : Nat) (error : E) (r : Run E V D O) : Option (Ending E) × Run E V D O :=
  match errors.kind error with
  | .generatorExit => (some (.raised error), r)
  | .systemExit => (some (.raised error), r)
  | .cancelled =>
    (some (.raised error), r.emit (.status (_cancelled_status errors r.state error)))
  | .keyboardInterrupt =>
    (some (.raised error), r.emit (.status (_cancelled_status errors r.state error)))
  | .other =>
    match handlers.handle_error k error r.state with
    | .raised e => (some (.raised e), r)
    | .foreign => (some (.raised (errors.typeError notDecision)), r)
    | .decision d =>
      match _observe_all handlers d.observations (r.emit (.decided d)) with
      | (some e, r) => (some (.raised e), r)
      | (none, r) => conclude errors handlers d error r

/-- The first `fuel` attempts from the `k`-th on; no ending when they are not the last. -/
def run_stream : Nat → Nat → Run E V D O → Option (Ending E) × Run E V D O
  | 0, _, r => (none, r)
  | fuel + 1, k, r =>
    let attempt := handlers.execute k r.state
    match stream errors valueText handlers attempt.raises attempt.items
        (r.emit (.attempt k)) with
    | (.returned, r) => (some .returned, r)
    | (.raised error, r) =>
      match recover errors handlers k error r with
      | (some ending, r) => (some ending, r)
      | (none, r) => run_stream fuel (k + 1) r

end Runner

end Agently.Model.AttemptRunner
