import Mathlib

/-! # The database of a record store

Source: `storage/LocalRecordStore.py` (`_connect`). What SQLite and Python raise by themselves
carries no text here. -/

namespace Agently.Storage.LocalRecordStore

inductive StoreError where
  | valueError (message : String)
  | policy (message : String)
  | runtimeError (message : String)
  | keyError (message : String)
  | overflowError
  | bindingError
  | integrityError

structure Database where
  read_only : Bool := false
  create : Bool := true
  db_exists : Bool := false

/-- The checks of `_connect(write=True)`; when they pass, opening the file creates it. -/
def check_write (d : Database) : Except StoreError Unit :=
  if d.read_only then
    .error (.policy "RecordStore persistence backend is read-only.")
  else if !d.db_exists && !d.create then
    .error (.policy "RecordStore persistence is not initialized and create=False.")
  else
    .ok ()

def bind_int (n : Int) : Except StoreError Int :=
  if -(2 ^ 63) ≤ n ∧ n < 2 ^ 63 then .ok n else .error .overflowError

end Agently.Storage.LocalRecordStore
