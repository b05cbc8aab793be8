import Mathlib.Algebra.Order.Field.Rat
import Mathlib.Algebra.Order.Floor.Ring
import Mathlib.Data.Rat.Floor
import Agently.Lib.Dict
import Agently.Lib.Machine
import Agently.TaskDAG.TaskDAGData

/-! # The request scheduler

Source: `utils/RequestScheduler.py`, on one event loop and for one provider. A step runs one
request up to its next suspension. `asyncio.Lock` and `asyncio.Semaphore` are queues in which a
waiter is marked when its future is done; a sleeper wakes no earlier than it asked for. -/

namespace Agently.RequestScheduler

open Agently.Lib
open Agently.TaskDAGValidation (strip)

structure ProviderScheduleConfig where
  max_concurrency : Option Nat
  rate_per_second : Option ℚ

structure Settings where
  max_concurrency : Option ℚ := none
  rate_per_second : Option ℚ := none
  providers : Dict String (Dict String (Option ℚ)) := []

def _positive_int_or_none : Option ℚ → Option Nat
  | none => none
  | some value => if 0 < ⌊value⌋ then some ⌊value⌋.toNat else none

def _positive_float_or_none : Option ℚ → Option ℚ
  | none => none
  | some value => if 0 < value then some value else none

def Settings.limits (settings : Settings) (provider : String) : Option ℚ × Option ℚ :=
  match settings.providers.get? provider with
  | some override =>
    ((override.get? "max_concurrency").getD settings.max_concurrency,
      (override.get? "rate_per_second").getD settings.rate_per_second)
  | none => (settings.max_concurrency, settings.rate_per_second)

abbrev Waiters := List (Nat × Bool)

def Waiters.wakeNext : Waiters → Waiters
  | [] => []
  | (i, true) :: rest => (i, true) :: Waiters.wakeNext rest
  | (i, false) :: rest => (i, true) :: rest

def Waiters.wakeFirst : Waiters → Waiters
  | [] => []
  | (i, _) :: rest => (i, true) :: rest

structure Lock where
  locked : Bool := false
  waiters : Waiters := []

def Lock.isFree (l : Lock) : Bool := !l.locked && l.waiters.isEmpty

def Lock.release (l : Lock) : Lock := ⟨false, l.waiters.wakeFirst⟩

structure Semaphore where
  value : Nat
  waiters : Waiters := []

def Semaphore.isFree (m : Semaphore) : Bool := decide (0 < m.value) && m.waiters.isEmpty

def Semaphore.waits (m : Semaphore) : Bool := m.waiters.any fun w => !w.2

def Semaphore.wakeNext (m : Semaphore) : Semaphore :=
  if m.waits then ⟨m.value - 1, m.waiters.wakeNext⟩ else m

def Semaphore.release (m : Semaphore) : Semaphore := Semaphore.wakeNext ⟨m.value + 1, m.waiters⟩

def Semaphore.wakeWhile : Nat → Semaphore → Semaphore
  | 0, m => m
  | n + 1, m => if m.waits then Semaphore.wakeWhile n m.wakeNext else m

structure _TokenBucket where
  min_interval : ℚ
  next_allowed_at : ℚ := 0
  lock : Lock := {}

def _TokenBucket.new (rate_per_second : ℚ) : _TokenBucket :=
  { min_interval := if 0 < rate_per_second then 1 / rate_per_second else 0 }

/-- The token at time `now`, and the lock given back. -/
def _TokenBucket.take (b : _TokenBucket) (now : ℚ) : _TokenBucket :=
  { b with
    next_allowed_at := max now b.next_allowed_at + b.min_interval
    lock := b.lock.release }

inductive Phase where
  | idle
  | configured
  | failed
  | queued (bucket : Nat) (config : ProviderScheduleConfig)
  | sleeping (bucket : Nat) (wake_at : ℚ) (config : ProviderScheduleConfig)
  | waiting (semaphore : Nat)
  | holding (semaphore : Option Nat)
  | left

/-- The scheduler and its requests. A cached primitive is known by its number, so that one
dropped from the cache lives on in the requests that use it. -/
structure State where
  now : ℚ := 0
  configs : Dict String ProviderScheduleConfig := []
  semaphores : Dict String Nat := []
  buckets : Dict String Nat := []
  semaphoreOf : Nat → Semaphore := fun _ => ⟨0, []⟩
  bucketOf : Nat → _TokenBucket := fun _ => { min_interval := 0 }
  made : Nat := 0
  phase : Nat → Phase := fun _ => .idle
  entries : List ℚ := []

namespace State

variable (s : State)

def setPhase (i : Nat) (p : Phase) : State := { s with phase := Function.update s.phase i p }

def setSemaphore (id : Nat) (m : Semaphore) : State :=
  { s with semaphoreOf := Function.update s.semaphoreOf id m }

def setBucket (id : Nat) (b : _TokenBucket) : State :=
  { s with bucketOf := Function.update s.bucketOf id b }

def hold (i : Nat) (semaphore : Option Nat) : State :=
  { s.setPhase i (.holding semaphore) with entries := s.now :: s.entries }

def cacheSemaphore (provider : String) (m : Semaphore) : State :=
  { s with
    semaphores := s.semaphores.set provider s.made
    semaphoreOf := Function.update s.semaphoreOf s.made m
    made := s.made + 1 }

def cacheBucket (provider : String) (b : _TokenBucket) : State :=
  { s with
    buckets := s.buckets.set provider s.made
    bucketOf := Function.update s.bucketOf s.made b
    made := s.made + 1 }

end State

section

variable (provider : String)

def configure (max_concurrency rate_per_second : Option ℚ) (s : State) : Except String State :=
  let name := strip provider
  if name = "" then .error "RequestScheduler.configure requires a non-empty provider name."
  else
    .ok { s with
      configs := s.configs.set name
        ⟨_positive_int_or_none max_concurrency, _positive_float_or_none rate_per_second⟩
      semaphores := s.semaphores.del name
      buckets := s.buckets.del name }

def configure_from_settings (settings : Settings) (s : State) : Except String State :=
  let (max_concurrency, rate_per_second) := settings.limits provider
  if max_concurrency = none ∧ rate_per_second = none then .ok s
  else configure provider max_concurrency rate_per_second s

def acquireSemaphore (i id : Nat) (s : State) : State :=
  let m := s.semaphoreOf id
  if m.isFree then (s.setSemaphore id ⟨m.value - 1, m.waiters⟩).hold i (some id)
  else (s.setSemaphore id ⟨m.value, m.waiters ++ [(i, false)]⟩).setPhase i (.waiting id)

def enterSemaphore (config : ProviderScheduleConfig) (i : Nat) (s : State) : State :=
  match config.max_concurrency with
  | none => s.hold i none
  | some n =>
    match s.semaphores.get? provider with
    | some id => acquireSemaphore i id s
    | none => acquireSemaphore i s.made (s.cacheSemaphore provider ⟨n, []⟩)

def underLock (config : ProviderScheduleConfig) (i id : Nat) (s : State) : State :=
  let b := s.bucketOf id
  let wait := b.next_allowed_at - s.now
  if 0 < wait then
    (s.setBucket id { b with lock := { b.lock with locked := true } }).setPhase i
      (.sleeping id (s.now + wait) config)
  else enterSemaphore provider config i (s.setBucket id (b.take s.now))

def acquireBucket (config : ProviderScheduleConfig) (i id : Nat) (s : State) : State :=
  let b := s.bucketOf id
  if b.min_interval ≤ 0 then enterSemaphore provider config i s
  else if b.lock.isFree then underLock provider config i id s
  else
    (s.setBucket id { b with lock := { b.lock with waiters := b.lock.waiters ++ [(i, false)] } }).setPhase
      i (.queued id config)

/-- `slot(provider)`, up to its first suspension. -/
def enter (i : Nat) (s : State) : State :=
  match s.configs.get? provider with
  | none => s.hold i none
  | some config =>
    if config.max_concurrency = none ∧ config.rate_per_second = none then s.hold i none
    else
      match config.rate_per_second with
      | none => enterSemaphore provider config i s
      | some rate =>
        match s.buckets.get? provider with
        | some id => acquireBucket provider config i id s
        | none =>
          acquireBucket provider config i s.made
            (s.cacheBucket provider (_TokenBucket.new rate))

/-- What may happen next: time goes by, or one request runs on. A holder leaves in one way,
whether its body returns or raises. -/
inductive Action where
  | advance (delay : ℚ)
  | configure (i : Nat)
  | enter (i : Nat)
  | lockGranted (i : Nat)
  | wake (i : Nat)
  | permitGranted (i : Nat)
  | leave (i : Nat)

variable (settings : Nat → Settings)

def step (s : State) : Action → Option State
  | .advance delay => if 0 ≤ delay then some { s with now := s.now + delay } else none
  | .configure i =>
    match s.phase i with
    | .idle =>
      match configure_from_settings provider (settings i) s with
      | .error _ => some (s.setPhase i .failed)
      | .ok s => some (s.setPhase i .configured)
    | _ => none
  | .enter i =>
    match s.phase i with
    | .configured => some (enter provider i s)
    | _ => none
  | .lockGranted i =>
    match s.phase i with
    | .queued id config =>
      let b := s.bucketOf id
      if (i, true) ∈ b.lock.waiters then
        some (underLock provider config i id (s.setBucket id
          { b with lock := { b.lock with waiters := b.lock.waiters.erase (i, true) } }))
      else none
    | _ => none
  | .wake i =>
    match s.phase i with
    | .sleeping id wake_at config =>
      if wake_at ≤ s.now then
        some (enterSemaphore provider config i (s.setBucket id ((s.bucketOf id).take s.now)))
      else none
    | _ => none
  | .permitGranted i =>
    match s.phase i with
    | .waiting id =>
      let m := s.semaphoreOf id
      if (i, true) ∈ m.waiters then
        some ((s.setSemaphore id
          (Semaphore.wakeWhile m.value ⟨m.value, m.waiters.erase (i, true)⟩)).hold i (some id))
      else none
    | _ => none
  | .leave i =>
    match s.phase i with
    | .holding none => some (s.setPhase i .left)
    | .holding (some id) =>
      some ((s.setSemaphore id (s.semaphoreOf id).release).setPhase i .left)
    | _ => none

def scheduler : Machine State Action := ⟨step provider settings⟩

end

end Agently.RequestScheduler
