import Mathlib
import Agently.Lib.Machine
import Agently.Storage.LocalRecordStore

/-! # Leases on runs

Source: `storage/LocalRecordStore.py` (`claim_lease`, `heartbeat_lease`, `release_lease`). A
caller reads the clock and then waits for the store's lock; what it does under the lock is one
step. The order in which the lock is handed out is left open. -/

namespace Agently.Storage.Leases

open Agently.Lib Agently.Storage.LocalRecordStore

/-- A row of the table `leases`, whose primary key is `run_id`, as `_row_to_lease` reads it. -/
structure ExecutionLease (Time : Type) where
  run_id : String
  owner_id : String
  lease_token : String
  lease_ttl : Time
  lease_until : Time
  claimed_at : String
  heartbeat_at : String
  released_at : Option String
  state_version : Option Int

/-- `leases` is `none` before the table is created. -/
structure Store (Time : Type) extends Database where
  leases : Option (List (ExecutionLease Time)) := none

inductive Request (Time : Type) where
  | claim_lease (run_id owner_id : String) (ttl : Time) (expected_state_version : Option Int)
  | heartbeat_lease (run_id owner_id lease_token : String)
  | release_lease (run_id owner_id lease_token : String)

/-- A call that has read the clock; a release does not look at the reading. -/
structure Call (Time : Type) where
  now_epoch : Time
  now_text : String
  request : Request Time

inductive Answer (Time : Type) where
  | claimed (lease : ExecutionLease Time)
  | renewed (lease : ExecutionLease Time)
  | released (lease : ExecutionLease Time)
  | failed (error : StoreError)

variable {Time : Type} [LinearOrder Time] [Zero Time] [Add Time]

def Store.rows (s : Store Time) : List (ExecutionLease Time) :=
  s.leases.getD []

def select (rows : List (ExecutionLease Time)) (run_id : String) : Option (ExecutionLease Time) :=
  rows.find? fun row => row.run_id = run_id

def upsert (rows : List (ExecutionLease Time)) (lease : ExecutionLease Time) :
    List (ExecutionLease Time) :=
  lease :: rows.filter fun row => row.run_id ≠ lease.run_id

def connect_for_write (s : Store Time) : Except StoreError (Store Time) :=
  match check_write s.toDatabase with
  | .error e => .error e
  | .ok _ => .ok { s with db_exists := true }

def conflicts (existing : ExecutionLease Time) (owner_id : String) (now_epoch : Time) : Prop :=
  existing.released_at = none ∧ now_epoch < existing.lease_until ∧ existing.owner_id ≠ owner_id

instance (existing : ExecutionLease Time) (owner_id : String) (now_epoch : Time) :
    Decidable (conflicts existing owner_id now_epoch) :=
  inferInstanceAs (Decidable (_ ∧ _ ∧ _))

/-- The part of `claim_lease` under the lock, once the database is open; `token` is the
`uuid4().hex` it would draw. -/
def claim_lease (s : Store Time) (run_id owner_id token : String) (ttl : Time)
    (expected_state_version : Option Int) (now_epoch : Time) (now_text : String) :
    Store Time × Answer Time :=
  let lease : ExecutionLease Time :=
    { run_id := run_id
      owner_id := owner_id
      lease_token := token
      lease_ttl := ttl
      lease_until := now_epoch + ttl
      claimed_at := now_text
      heartbeat_at := now_text
      released_at := none
      state_version := expected_state_version }
  match select s.rows run_id with
  | some existing =>
    if conflicts existing owner_id now_epoch then
      -- the table has been created before the row is looked up
      ({ s with leases := some s.rows },
        .failed (.runtimeError ("RecordStore lease conflict for run '" ++ run_id ++ "'.")))
    else
      ({ s with leases := some (upsert s.rows lease) }, .claimed lease)
  | none => ({ s with leases := some (upsert s.rows lease) }, .claimed lease)

/-- The row is the caller's own lease: `release_lease` asks for no more. -/
def owned (row : ExecutionLease Time) (owner_id lease_token : String) : Prop :=
  row.owner_id = owner_id ∧ row.lease_token = lease_token

instance (row : ExecutionLease Time) (owner_id lease_token : String) :
    Decidable (owned row owner_id lease_token) :=
  inferInstanceAs (Decidable (_ ∧ _))

def unavailable (run_id : String) : StoreError :=
  .runtimeError ("RecordStore lease is unavailable for run '" ++ run_id ++ "'.")

def heartbeat_lease (s : Store Time) (run_id owner_id lease_token : String)
    (now_epoch : Time) (now_text : String) : Store Time × Answer Time :=
  match s.leases with
  | none => (s, .failed (unavailable run_id))
  | some rows =>
    match select rows run_id with
    | none => (s, .failed (.runtimeError
        ("RecordStore lease conflict or expired lease for run '" ++ run_id ++ "'.")))
    | some row =>
      if row.released_at = none ∧ owned row owner_id lease_token ∧
          now_epoch < row.lease_until then
        let lease :=
          { row with lease_until := now_epoch + row.lease_ttl, heartbeat_at := now_text }
        ({ s with leases := some (upsert rows lease) }, .renewed lease)
      else
        (s, .failed (.runtimeError
          ("RecordStore lease conflict or expired lease for run '" ++ run_id ++ "'.")))

/-- `released_text` is the time read under the lock. -/
def release_lease (s : Store Time) (run_id owner_id lease_token : String)
    (released_text : String) : Store Time × Answer Time :=
  match s.leases with
  | none => (s, .failed (unavailable run_id))
  | some rows =>
    match select rows run_id with
    | none => (s, .failed (.runtimeError
        ("RecordStore lease conflict for run '" ++ run_id ++ "'.")))
    | some row =>
      if owned row owner_id lease_token then
        let lease := { row with released_at := some released_text }
        ({ s with leases := some (upsert rows lease) }, .released lease)
      else
        (s, .failed (.runtimeError
          ("RecordStore lease conflict for run '" ++ run_id ++ "'.")))

def under_lock (s : Store Time) (call : Call Time) (token released_text : String) :
    Store Time × Answer Time :=
  match connect_for_write s with
  | .error e => (s, .failed e)
  | .ok s =>
    match call.request with
    | .claim_lease run owner ttl version =>
      claim_lease s run owner token ttl version call.now_epoch call.now_text
    | .heartbeat_lease run owner lease_token =>
      heartbeat_lease s run owner lease_token call.now_epoch call.now_text
    | .release_lease run owner lease_token =>
      release_lease s run owner lease_token released_text

/-- `answers` are the calls that have come back, the newest first. -/
structure State (Time : Type) where
  clock : Time
  store : Store Time
  waiting : List (Call Time)
  answers : List (Answer Time)

inductive Action (Time : Type) where
  | tick (now : Time)
  | call (request : Request Time) (now_text : String)
  /-- the lock is given to one of the waiting calls -/
  | serve (index : Nat) (token released_text : String)
  /-- a waiting call is cancelled -/
  | cancel (index : Nat)

def Request.rejected : Request Time → Prop
  | .claim_lease _ _ ttl _ => ttl ≤ 0
  | .heartbeat_lease _ _ _ => False
  | .release_lease _ _ _ => False

instance : (request : Request Time) → Decidable request.rejected
  | .claim_lease _ _ ttl _ => inferInstanceAs (Decidable (ttl ≤ 0))
  | .heartbeat_lease _ _ _ => inferInstanceAs (Decidable False)
  | .release_lease _ _ _ => inferInstanceAs (Decidable False)

def step (s : State Time) : Action Time → Option (State Time)
  | .tick now => if s.clock ≤ now then some { s with clock := now } else none
  | .call request now_text =>
    if request.rejected then
      some { s with
        answers :=
          .failed (.valueError "RecordStore lease ttl must be positive.") :: s.answers }
    else
      some { s with waiting := s.waiting ++ [Call.mk s.clock now_text request] }
  | .serve index token released_text =>
    match s.waiting[index]? with
    | none => none
    | some call =>
      let done := under_lock s.store call token released_text
      some { s with
        store := done.1
        waiting := s.waiting.eraseIdx index
        answers := done.2 :: s.answers }
  | .cancel index => some { s with waiting := s.waiting.eraseIdx index }

def leaseRun : Machine (State Time) (Action Time) := ⟨step⟩

def start (store : Store Time) (now : Time) : State Time :=
  { clock := now, store := store, waiting := [], answers := [] }

end Agently.Storage.Leases
