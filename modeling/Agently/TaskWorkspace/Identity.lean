import Mathlib.Logic.Function.Basic
import Agently.Lib.Machine
import Agently.Storage.Identity.Encoding

/-! # Content identities of a task workspace

Source: `TaskWorkspace/Identity.py` (`observe_path`, `_allocate`, `_read_state`). The lock file
lets one observation after the other see the files; a process may stop after any of an
observation's writes, and the lock goes with it. -/

namespace Agently.TaskWorkspace.Identity

open Agently.Lib
open Agently.TaskDAGValidation (strip)

def base62 (value : Nat) : String := Storage.Identity.encode_base62 value

structure Version where
  content_version_id : String
  sha256 : String
  size : Nat

structure LocatorIndex where
  task_workspace_id : String
  normalized_path : String
  locator_id : String
  current_content_version_id : Option String
  versions : List Version

structure IdentityState where
  task_workspace_id : String
  high_water : Nat
  revision : Nat

/-- `state.json`, and the files under `locators` by their names. -/
structure Files where
  state : Option IdentityState
  locators : String → Option LocatorIndex

inductive JsonWrite where
  | index (hex : String) (index : LocatorIndex)
  | state (state : IdentityState)

def JsonWrite.apply (f : Files) : JsonWrite → Files
  | .index hex ix => { f with locators := Function.update f.locators hex (some ix) }
  | .state st => { f with state := some st }

def applyAll (f : Files) (ws : List JsonWrite) : Files := ws.foldl JsonWrite.apply f

inductive CatalogError where
  | valueError (message : String)
  | taskWorkspaceError (message : String)

structure TaskWorkspaceContentObservation where
  locator_id : String
  content_version_id : String
  digest : String
  size : Nat
  created : Bool

def contained (path : String) : Bool :=
  path ≠ "" && path.toList.head? ≠ some '/' && !(path.toList.splitOn '/').contains ['.', '.']

/-- `.lower()` of a digest; a letter beyond ASCII is refused with or without it. -/
def lower (s : String) : String := String.ofList (s.toList.map Char.toLower)

def is_sha256 (digest : String) : Bool :=
  digest.toList.length = 64 && digest.toList.all fun c => "0123456789abcdef".toList.contains c

def identity (prefix_ : String) (number : Nat) : String := prefix_ ++ "_" ++ base62 number

def allocate (tw : String) (state : IdentityState) (prefix_ : String) : String × IdentityState :=
  (identity prefix_ (state.high_water + 1),
    { task_workspace_id := tw
      high_water := state.high_water + 1
      revision := state.revision + 1 })

def read_state (tw : String) (f : Files) : Except CatalogError IdentityState :=
  match f.state with
  | none => .ok { task_workspace_id := tw, high_water := 0, revision := 0 }
  | some state =>
    if state.task_workspace_id ≠ tw then
      .error (.taskWorkspaceError "TaskWorkspace identity state owner does not match.")
    else .ok state

/-- The path's index, a new one when there is none, and the state after it. -/
def read_index (tw : String) (f : Files) (state : IdentityState) (hex path : String) :
    Except CatalogError (LocatorIndex × IdentityState) :=
  match f.locators hex with
  | some index =>
    if index.task_workspace_id ≠ tw ∨ index.normalized_path ≠ path then
      .error (.taskWorkspaceError "TaskWorkspace locator index owner or path does not match.")
    else .ok (index, state)
  | none =>
    .ok ({ task_workspace_id := tw
           normalized_path := path
           locator_id := (allocate tw state "loc").1
           current_content_version_id := none
           versions := [] }, (allocate tw state "loc").2)

def observe_version (tw hex : String) (index : LocatorIndex) (state : IdentityState)
    (digest : String) (size : Nat) :
    List JsonWrite × Except CatalogError TaskWorkspaceContentObservation :=
  match index.versions.find? fun version => version.sha256 = digest with
  | some version =>
    if version.size ≠ size then
      ([], .error (.taskWorkspaceError
        "TaskWorkspace content digest matches an existing version with a different size."))
    else if version.content_version_id = "" then
      ([], .error (.taskWorkspaceError "TaskWorkspace content version identity is empty."))
    else
      (if index.current_content_version_id = some version.content_version_id then []
        else [.index hex
          { index with current_content_version_id := some version.content_version_id }],
        .ok ⟨index.locator_id, version.content_version_id, digest, size, false⟩)
  | none =>
    let allocated := allocate tw state "cv"
    ([.index hex
        { index with
          current_content_version_id := some allocated.1
          versions := index.versions ++ [⟨allocated.1, digest, size⟩] },
      .state allocated.2],
      .ok ⟨index.locator_id, allocated.1, digest, size, true⟩)

variable (sha256 : String → String) (tw : String)

def observe_path (f : Files) (normalized_path digest : String) (size : Int) :
    List JsonWrite × Except CatalogError TaskWorkspaceContentObservation :=
  let path := strip normalized_path
  let digest := lower (strip digest)
  if contained path = false then
    ([], .error (.valueError "TaskWorkspace content identity requires a contained relative path."))
  else if is_sha256 digest = false then
    ([], .error (.valueError "TaskWorkspace content identity requires a SHA-256 digest."))
  else if size < 0 then
    ([], .error (.valueError
      "TaskWorkspace content identity size must be a non-negative integer."))
  else
    match read_state tw f with
    | .error e => ([], .error e)
    | .ok state =>
      match read_index tw f state (sha256 path) path with
      | .error e => ([], .error e)
      | .ok (index, state) => observe_version tw (sha256 path) index state digest size.toNat

/-- An observation by some process; `stop` is the number of writes after which it stops. -/
structure Observation where
  normalized_path : String
  digest : String
  size : Int
  stop : Option Nat

/-- The files, and what the observations that came to an end have given for which path. -/
structure Catalog where
  files : Files
  answers : List (String × TaskWorkspaceContentObservation)

def initial : Catalog := { files := { state := none, locators := fun _ => none }, answers := [] }

def Observation.outcome (a : Observation) (f : Files) :
    List JsonWrite × Except CatalogError TaskWorkspaceContentObservation :=
  observe_path sha256 tw f a.normalized_path a.digest a.size

def observe (s : Catalog) (a : Observation) : Catalog :=
  let outcome := a.outcome sha256 tw s.files
  match a.stop with
  | some n => { s with files := applyAll s.files (outcome.1.take n) }
  | none =>
    { files := applyAll s.files outcome.1
      answers :=
        match outcome.2 with
        | .ok answer => (strip a.normalized_path, answer) :: s.answers
        | .error _ => s.answers }

def machine : Machine Catalog Observation where
  step s a := some (observe sha256 tw s a)

end Agently.TaskWorkspace.Identity
