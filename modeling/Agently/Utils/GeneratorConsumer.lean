import Mathlib.Data.List.Basic
import Agently.Lib.Machine

/-! # One source, many consumers

Source: `utils/GeneratorConsumer.py` (`_consume`, `_broadcast`, `get_async_generator`,
`get_result`, `close`). An action is what happens between two points at which a coroutine really
gives way: `put` on an unbounded queue never does. -/

namespace Agently.Utils.GeneratorConsumer

open Agently.Lib

/-- What the code asks of a value: `isinstance(value, Exception)` and its truth value. -/
structure Values (V : Type) where
  isException : V → Bool
  truthy : V → Bool

inductive Message (V : Type) where
  | value (v : V)
  | sentinel

inductive Phase (V : Type) where
  | reading
  | ended
  | raised (e : V)
  | cancelled
  /-- `RuntimeError("GeneratorConsumer has been closed.")` -/
  | refused
deriving DecidableEq

/-- One iteration over `get_async_generator()` with the queue it listens on. -/
structure Consumer (V : Type) where
  received : List V
  queue : List (Message V)
  phase : Phase V

inductive Waiter (V : Type) where
  | waiting
  | returned (items : List V)
  | raised (e : V)

/-- `_consume_task`: not created, created but not begun, inside the source, inside
`_close_source_generator`, done. -/
inductive ConsumeTask where
  | absent
  | scheduled
  | running
  | closing
  | finished
deriving DecidableEq

inductive Closer where
  | free
  | awaitingTask
  | closingSource
deriving DecidableEq

/-- The attributes of the object, what its coroutines are doing, and, for the statements
only, what the source has yielded and how it failed. -/
structure State (V : Type) where
  history : List V
  exception : Option V
  done : Bool
  closed : Bool
  generatorClosed : Bool
  task : ConsumeTask
  cancelRequested : Bool
  closer : Closer
  waitingClosers : Nat
  consumers : List (Consumer V)
  waiters : List (Waiter V)
  yielded : List V
  failure : Option V

def init (V : Type) : State V where
  history := []
  exception := none
  done := false
  closed := false
  generatorClosed := false
  task := .absent
  cancelRequested := false
  closer := .free
  waitingClosers := 0
  consumers := []
  waiters := []
  yielded := []
  failure := none

inductive Action (V : Type) where
  /-- the first step of an iteration over `get_async_generator()` -/
  | subscribe
  | receive (c : Nat)
  | cancel (c : Nat)
  | getResult
  | resume (w : Nat)
  | startTask
  /-- the task is cancelled before its first step: `_consume` never begins -/
  | dropTask
  | produce (v : V)
  | fail (e : V)
  /-- the source is exhausted, or lets `CancelledError` through -/
  | finish
  /-- `_close_source_generator` returns inside `_consume` -/
  | settle
  | callClose
  | enterClose
  | taskDone
  | leaveClose

section Operations

variable {V : Type} (P : Values V)

def Consumer.listens (c : Consumer V) : Bool :=
  match c.phase with
  | .reading => true
  | _ => false

def Consumer.put (m : Message V) (c : Consumer V) : Consumer V :=
  if c.listens then { c with queue := c.queue ++ [m] } else c

def _broadcast (m : Message V) (s : State V) : State V :=
  { s with
    history :=
      match m with
      | .value v => if P.isException v then s.history else s.history ++ [v]
      | .sentinel => s.history
    consumers := s.consumers.map (Consumer.put m) }

def _ensure_started (s : State V) : State V :=
  if s.task = .absent then { s with task := .scheduled } else s

def storedException (s : State V) : Option V :=
  match s.exception with
  | some e => if P.truthy e then some e else none
  | none => none

def replay (s : State V) : List (Message V) :=
  s.history.map .value ++
    match storedException P s with
    | some e => [.value e]
    | none => if s.done then [.sentinel] else []

def get_async_generator (s : State V) : State V :=
  if s.closed then { s with consumers := s.consumers ++ [⟨[], [], .refused⟩] }
  else
    let started := _ensure_started s
    { started with consumers := started.consumers ++ [⟨[], replay P started, .reading⟩] }

/-- One turn of the `while True` loop of a consumer whose queue is not empty. -/
def Consumer.take (c : Consumer V) : Option (Consumer V) :=
  match c.phase, c.queue with
  | .reading, .sentinel :: rest => some ⟨c.received, rest, .ended⟩
  | .reading, .value v :: rest =>
    if P.isException v then some ⟨c.received, rest, .raised v⟩
    else some ⟨c.received ++ [v], rest, .reading⟩
  | _, _ => none

def conclude (s : State V) : State V :=
  let concluded := { s with done := true }
  if concluded.generatorClosed then concluded
  else { _broadcast P .sentinel concluded with generatorClosed := true }

def step (s : State V) : Action V → Option (State V)
  | .subscribe => some (get_async_generator P s)
  | .receive c =>
    (s.consumers[c]?).bind fun consumer =>
      (consumer.take P).map fun next => { s with consumers := s.consumers.set c next }
  | .cancel c =>
    (s.consumers[c]?).bind fun consumer =>
      if consumer.listens then
        some { s with consumers := s.consumers.set c { consumer with phase := .cancelled } }
      else none
  | .getResult =>
    some { _ensure_started s with waiters := s.waiters ++ [.waiting] }
  | .resume w =>
    match s.done, s.waiters[w]? with
    | true, some .waiting =>
      some { s with
        waiters := s.waiters.set w
          (match storedException P s with
          | some e => .raised e
          | none => .returned s.history) }
    | _, _ => none
  | .startTask =>
    if s.task = .scheduled ∧ s.cancelRequested = false then
      some { s with task := .running }
    else none
  | .dropTask =>
    if s.task = .scheduled ∧ s.cancelRequested = true then
      some { s with task := .finished }
    else none
  | .produce v =>
    if s.task = .running then
      some { _broadcast P (.value v) s with yielded := s.yielded ++ [v] }
    else none
  | .fail e =>
    if s.task = .running then
      if P.isException e then
        some { _broadcast P (.value e) { s with exception := some e } with
          task := .closing, failure := some e }
      else some { s with task := .closing, failure := some e }
    else none
  | .finish => if s.task = .running then some { s with task := .closing } else none
  | .settle =>
    if s.task = .closing then some { conclude P s with task := .finished } else none
  | .callClose => some { s with closed := true, waitingClosers := s.waitingClosers + 1 }
  | .enterClose =>
    if s.closer = .free ∧ 0 < s.waitingClosers then
      if s.task = .absent then some { s with closer := .closingSource }
      else some { s with
        closer := .awaitingTask
        cancelRequested := s.cancelRequested || decide (s.task ≠ .finished) }
    else none
  | .taskDone =>
    if s.closer = .awaitingTask ∧ s.task = .finished then
      some { s with closer := .closingSource }
    else none
  | .leaveClose =>
    if s.closer = .closingSource then
      some { conclude P s with closer := .free, waitingClosers := s.waitingClosers - 1 }
    else none

def machine : Machine (State V) (Action V) := ⟨step P⟩

end Operations

end Agently.Utils.GeneratorConsumer
