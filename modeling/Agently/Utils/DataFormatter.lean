import Agently.Utils.Value

/-! # Plain data

Source: `utils/DataFormatter.py` (`DataFormatter.sanitize`), on values that are no types. -/

namespace Agently.Utils

namespace Value

mutual

def sanitize : Value → Value
  | .none => .none
  | .bool b => .bool b
  | .int n => .int n
  | .str s => .str s
  | .list xs => .list (sanitizeList xs)
  | .tuple xs => .tuple (sanitizeList xs)
  | .dict kvs => .dict (sanitizeEntries kvs)
  | .empty => .str emptyText
  | .object text _ => .str text

def sanitizeList : List Value → List Value
  | [] => []
  | x :: xs => sanitize x :: sanitizeList xs

def sanitizeEntries : List (String × Value) → List (String × Value)
  | [] => []
  | (k, v) :: rest => (k, sanitize v) :: sanitizeEntries rest

end

mutual

theorem sanitize_sanitize : (v : Value) → sanitize (sanitize v) = sanitize v
  | .none => rfl
  | .bool _ => rfl
  | .int _ => rfl
  | .str _ => rfl
  | .list xs => by simp [sanitize, sanitizeList_idem xs]
  | .tuple xs => by simp [sanitize, sanitizeList_idem xs]
  | .dict kvs => by simp [sanitize, sanitizeEntries_idem kvs]
  | .empty => rfl
  | .object _ _ => rfl

theorem sanitizeList_idem : (xs : List Value) → sanitizeList (sanitizeList xs) = sanitizeList xs
  | [] => rfl
  | x :: xs => by
      rw [sanitizeList, sanitizeList, sanitize_sanitize x, sanitizeList_idem xs]

theorem sanitizeEntries_idem : (kvs : List (String × Value)) →
    sanitizeEntries (sanitizeEntries kvs) = sanitizeEntries kvs
  | [] => rfl
  | (k, v) :: rest => by
      rw [sanitizeEntries, sanitizeEntries, sanitize_sanitize v, sanitizeEntries_idem rest]

end

theorem sanitizeEntries_eq_map (kvs : List (String × Value)) :
    sanitizeEntries kvs = kvs.map fun p => (p.1, sanitize p.2) := by
  induction kvs with
  | nil => rfl
  | cons p rest ih =>
    obtain ⟨k, v⟩ := p
    rw [sanitizeEntries, ih, List.map_cons]

end Value

end Agently.Utils
