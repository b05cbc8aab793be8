import Agently.Lib.Dict

/-! # Runtime values and their serialisation

Source: `utils/StateData.py` (`_get_serializable_data`), `types/data/__init__.py` (`AVOID_COPY`,
`EMPTY`) and `_to_serializable_value` of `TriggerFlow/Execution.py`. Floats and dates reach the
serialiser as the atoms `int` and `str` do and have no constructor of their own. -/

namespace Agently.Utils

open Agently.Lib

/-- The Python values the engine moves around. `object` carries `str(obj)` and
`vars(obj)`; `empty` is the identity-compared sentinel `EMPTY`. -/
inductive Value where
  | none
  | bool (b : Bool)
  | int (n : Int)
  | str (s : String)
  | list (xs : List Value)
  | tuple (xs : List Value)
  | dict (kvs : List (String × Value))
  | empty
  | object (text : String) (attrs : List (String × Value))
  deriving Inhabited

namespace Value

mutual

def beq : Value → Value → Bool
  | .none, .none => true
  | .bool a, .bool b => a == b
  | .int a, .int b => a == b
  | .str a, .str b => a == b
  | .list xs, .list ys => beqList xs ys
  | .tuple xs, .tuple ys => beqList xs ys
  | .dict xs, .dict ys => beqEntries xs ys
  | .empty, .empty => true
  | .object s xs, .object t ys => s == t && beqEntries xs ys
  | _, _ => false

def beqList : List Value → List Value → Bool
  | [], [] => true
  | x :: xs, y :: ys => beq x y && beqList xs ys
  | _, _ => false

def beqEntries : List (String × Value) → List (String × Value) → Bool
  | [], [] => true
  | (k, x) :: xs, (l, y) :: ys => k == l && beq x y && beqEntries xs ys
  | _, _ => false

end

mutual

theorem beq_iff : (a b : Value) → (beq a b = true ↔ a = b)
  | .list xs, b => by cases b <;> simp [beq, beqList_iff xs]
  | .tuple xs, b => by cases b <;> simp [beq, beqList_iff xs]
  | .dict xs, b => by cases b <;> simp [beq, beqEntries_iff xs]
  | .object s xs, b => by cases b <;> simp [beq, beqEntries_iff xs]
  | .none, b => by cases b <;> simp [beq]
  | .bool _, b => by cases b <;> simp [beq]
  | .int _, b => by cases b <;> simp [beq]
  | .str _, b => by cases b <;> simp [beq]
  | .empty, b => by cases b <;> simp [beq]

theorem beqList_iff : (xs ys : List Value) → (beqList xs ys = true ↔ xs = ys)
  | [], ys => by cases ys <;> simp [beqList]
  | x :: xs, ys => by cases ys <;> simp [beqList, beq_iff x, beqList_iff xs]

theorem beqEntries_iff : (xs ys : List (String × Value)) → (beqEntries xs ys = true ↔ xs = ys)
  | [], ys => by cases ys <;> simp [beqEntries]
  | (k, x) :: xs, ys => by
      cases ys with
      | nil => simp [beqEntries]
      | cons y ys =>
        obtain ⟨l, y⟩ := y
        simp [beqEntries, beq_iff x, beqEntries_iff xs]

end

instance : DecidableEq Value := fun a b => decidable_of_iff _ (beq_iff a b)

mutual

/-- Python's `==` on values: `True == 1`, and dicts compare without their order. -/
def pyEq : Value → Value → Bool
  | .list xs, .list ys => pyEqList xs ys
  | .tuple xs, .tuple ys => pyEqList xs ys
  | .dict xs, .dict ys => xs.length == ys.length && pyEqEntries xs ys
  | .bool a, .int n => n == (if a then 1 else 0)
  | .int n, .bool a => n == (if a then 1 else 0)
  | a, b => beq a b

def pyEqList : List Value → List Value → Bool
  | [], [] => true
  | x :: xs, y :: ys => pyEq x y && pyEqList xs ys
  | _, _ => false

def pyEqEntries : List (String × Value) → List (String × Value) → Bool
  | [], _ => true
  | (k, x) :: rest, ys =>
    match Dict.get? ys k with
    | .some y => pyEq x y && pyEqEntries rest ys
    | .none => false

end

def truthy : Value → Bool
  | .none => false
  | .bool b => b
  | .int n => decide (n ≠ 0)
  | .str s => decide (s ≠ "")
  | .list xs | .tuple xs => !xs.isEmpty
  | .dict kvs => !kvs.isEmpty
  | .empty | .object _ _ => true

/-- `str(EMPTY)`: the class defines no `__str__`, so the text names the object. -/
def emptyText : String := "<agently.types.data.AVOID_COPY object>"

mutual

def serializable : Value → Value
  | .none => .none
  | .bool b => .bool b
  | .int n => .int n
  | .str s => .str s
  | .list xs => .list (serializableList xs)
  | .tuple xs => .list (serializableList xs)
  | .dict kvs => .dict (serializableEntries kvs)
  | .empty => .str emptyText
  | .object text [] => .str text
  | .object _ (kv :: kvs) => .dict (serializableEntries (kv :: kvs))

def serializableList : List Value → List Value
  | [] => []
  | x :: xs => serializable x :: serializableList xs

def serializableEntries : List (String × Value) → List (String × Value)
  | [] => []
  | (k, v) :: rest => (k, serializable v) :: serializableEntries rest

end

def Stable (v : Value) : Prop := serializable v = v

instance (v : Value) : Decidable (Stable v) := inferInstanceAs (Decidable (serializable v = v))

mutual

theorem stable_serializable : (v : Value) → Stable (serializable v)
  | .none => rfl
  | .bool _ => rfl
  | .int _ => rfl
  | .str _ => rfl
  | .empty => rfl
  | .list xs => by simp [Stable, serializable, serializableList_idem xs]
  | .tuple xs => by simp [Stable, serializable, serializableList_idem xs]
  | .dict kvs => by simp [Stable, serializable, serializableEntries_idem kvs]
  | .object _ [] => rfl
  | .object _ (kv :: kvs) => by simp [Stable, serializable, serializableEntries_idem (kv :: kvs)]

theorem serializableList_idem : (xs : List Value) →
    serializableList (serializableList xs) = serializableList xs
  | [] => rfl
  | x :: xs => by
      have hx := stable_serializable x
      simp only [serializableList, serializableList_idem xs]
      rw [hx]

theorem serializableEntries_idem : (kvs : List (String × Value)) →
    serializableEntries (serializableEntries kvs) = serializableEntries kvs
  | [] => rfl
  | (k, v) :: rest => by
      have hv := stable_serializable v
      simp only [serializableEntries, serializableEntries_idem rest]
      rw [hv]

end

end Value

end Agently.Utils
