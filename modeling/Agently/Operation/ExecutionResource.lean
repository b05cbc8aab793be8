import Mathlib.Logic.Function.Basic
import Agently.Lib.Dict
import Agently.Lib.Machine

/-! # Execution resource handles

Source: `operation/ExecutionResource/ExecutionResource.py`. A task is one `async_ensure` call,
from where it looks for a handle of its reuse key, and the release by which its caller gives the
handle back. A step runs a task up to its next await; a handle is an object that callers keep
after it has left `_handles`. -/

namespace Agently.ExecutionResource

open Agently.Lib

inductive Status where
  | ready
  | unhealthy
  | releasing
  | released
  | failed
  deriving DecidableEq

structure Handle where
  status : Status
  ref_count : Nat
  reuse_key : String

/-- Where a task awaits. `key` is the reuse key of its ensure call; a release of its own
account has none. -/
inductive Phase where
  | idle
  | checking (key : String) (handle : Nat)
  | unhealthy (key : String) (handle : Nat)
  | releasing (key : Option String) (handle : Nat)
  | releaseCalled (key : Option String) (handle : Nat)
  | releaseFailed (handle : Nat)
  | released (key : Option String) (handle : Nat)
  | ensuring (key : String)
  | creating (key : String)
  | createFailed
  | announcing (handle : Nat)
  | holding (handle : Nat)
  | ended

/-- What the outside sees: calls that return a handle, callers that give one back, health
checks that fail and calls of the provider's `async_release`. -/
inductive Event where
  | returned (task handle : Nat) (status : Status)
  | letGo (task handle : Nat)
  | checkFailed (handle : Nat)
  | releaseCalled (task handle : Nat)
  | releaseFailed (task handle : Nat)
  deriving DecidableEq

structure Manager where
  handles : List Nat := []
  handles_by_reuse_key : Dict String Nat := []
  handleOf : Nat → Handle := fun _ => ⟨.released, 0, ""⟩
  made : Nat := 0
  phase : Nat → Phase := fun _ => .idle
  log : List Event := []

namespace Manager

variable (m : Manager)

def setPhase (task : Nat) (p : Phase) : Manager :=
  { m with phase := Function.update m.phase task p }

def setHandle (id : Nat) (h : Handle) : Manager :=
  { m with handleOf := Function.update m.handleOf id h }

def setStatus (id : Nat) (status : Status) : Manager :=
  m.setHandle id { m.handleOf id with status := status }

def emit (event : Event) : Manager := { m with log := event :: m.log }

def return_ (task id : Nat) : Manager :=
  (m.setPhase task (.holding id)).emit (.returned task id (m.handleOf id).status)

end Manager

def afterRelease (task : Nat) (key : Option String) (m : Manager) : Manager :=
  match key with
  | some key => m.setPhase task (.ensuring key)
  | none => m.setPhase task .ended

def beginRelease (task : Nat) (key : Option String) (id : Nat) (force : Bool) (m : Manager) :
    Manager :=
  if id ∉ m.handles then afterRelease task key m
  else
    let handle := m.handleOf id
    if 1 < handle.ref_count ∧ force = false then
      afterRelease task key (m.setHandle id { handle with ref_count := handle.ref_count - 1 })
    else (m.setStatus id .releasing).setPhase task (.releasing key id)

def lookUp (task : Nat) (key : String) (m : Manager) : Manager :=
  match m.handles_by_reuse_key.get? key with
  | some id =>
    if id ∈ m.handles then
      if (m.handleOf id).status = .ready then m.setPhase task (.checking key id)
      else beginRelease task (some key) id true m
    else m.setPhase task (.ensuring key)
  | none => m.setPhase task (.ensuring key)

/-- The provider has released the handle: it leaves both maps. A handle that has left already
raises a `KeyError`. -/
def finishRelease (task : Nat) (key : Option String) (id : Nat) (m : Manager) : Manager :=
  let m := m.setStatus id .released
  let reuse_key := (m.handleOf id).reuse_key
  let m :=
    if reuse_key ≠ "" ∧ m.handles_by_reuse_key.get? reuse_key = some id then
      { m with handles_by_reuse_key := m.handles_by_reuse_key.del reuse_key }
    else m
  if id ∈ m.handles then
    { m with handles := m.handles.filter (· ≠ id) }.setPhase task (.released key id)
  else m.setPhase task .ended

def register (task : Nat) (key : String) (m : Manager) : Manager :=
  { m with
    handles := m.handles ++ [m.made]
    handles_by_reuse_key := m.handles_by_reuse_key.set key m.made
    handleOf := Function.update m.handleOf m.made ⟨.ready, 1, key⟩
    made := m.made + 1 }.setPhase task (.announcing m.made)

inductive Action where
  | ensure (task : Nat) (key : String)
  | healthChecked (task : Nat) (ready : Bool)
  | emitted (task : Nat)
  | created (task : Nat) (ok : Bool)
  | providerReleased (task : Nat) (ok : Bool)
  | release (task : Nat)

def step (m : Manager) : Action → Option Manager
  | .ensure task key =>
    match m.phase task with
    | .idle => some (lookUp task key m)
    | _ => none
  | .healthChecked task ready =>
    match m.phase task with
    | .checking key id =>
      if ready then
        let handle := m.handleOf id
        some ((m.setHandle id { handle with ref_count := handle.ref_count + 1 }).return_ task id)
      else
        some (((m.setStatus id .unhealthy).emit (.checkFailed id)).setPhase task
          (.unhealthy key id))
    | _ => none
  | .emitted task =>
    match m.phase task with
    | .unhealthy key id => some (beginRelease task (some key) id true m)
    | .releasing key id =>
      some ((m.emit (.releaseCalled task id)).setPhase task (.releaseCalled key id))
    | .releaseFailed _ => some (m.setPhase task .ended)
    | .released key _ => some (afterRelease task key m)
    | .ensuring key => some (m.setPhase task (.creating key))
    | .createFailed => some (m.setPhase task .ended)
    | .announcing id => some (m.return_ task id)
    | _ => none
  | .created task ok =>
    match m.phase task with
    | .creating key =>
      if ok then some (register task key m) else some (m.setPhase task .createFailed)
    | _ => none
  | .providerReleased task ok =>
    match m.phase task with
    | .releaseCalled key id =>
      if ok then some (finishRelease task key id m)
      else
        some (((m.setStatus id .failed).emit (.releaseFailed task id)).setPhase task
          (.releaseFailed id))
    | _ => none
  | .release task =>
    match m.phase task with
    | .holding id => some (beginRelease task none id false (m.emit (.letGo task id)))
    | _ => none

def manager : Machine Manager Action := ⟨step⟩

end Agently.ExecutionResource
