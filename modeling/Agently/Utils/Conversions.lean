import Agently.Utils.Json
import Mathlib.Algebra.Order.Ring.Rat

/-! # Python's conversions of JSON values

`int()`, `float()`, `str()` and `bool()` of what `json.loads` returns. The texts of the
errors these raise are Python's own and are left out. -/

namespace Agently.Utils

inductive PyFloat where
  | finite (q : ℚ)
  | inf
  | negInf
  | nan

def PyFloat.atMost (q : ℚ) : PyFloat → Bool
  | .finite x => decide (x ≤ q)
  | .negInf => true
  | _ => false

structure Builtins where
  floatValue : FloatText → ℚ
  intOfText : String → Option Int
  floatOfText : String → Option PyFloat
  nearestFloat : Int → ℚ
  reprOf : Json → {s : String // s ≠ ""}

inductive ErrorKind where
  | typeError
  | valueError
  | overflowError
  | runtimeError
  | validationError
  deriving DecidableEq

inductive PyError where
  | raised (kind : ErrorKind) (message : String)
  | builtin (kind : ErrorKind)
  deriving DecidableEq

def PyError.kind : PyError → ErrorKind
  | .raised k _ => k
  | .builtin k => k

namespace Json

def typeName : Json → String
  | .null => "<class 'NoneType'>"
  | .bool _ => "<class 'bool'>"
  | .int _ => "<class 'int'>"
  | .float _ => "<class 'float'>"
  | .str _ => "<class 'str'>"
  | .arr _ => "<class 'list'>"
  | .obj _ => "<class 'dict'>"

def hashable : Json → Bool
  | .arr _ => false
  | .obj _ => false
  | _ => true

def isNone : Json → Bool
  | .null => true
  | _ => false

def entries? : Json → Option (List (String × Json))
  | .obj kvs => some kvs
  | _ => none

def isBool : Json → Bool
  | .bool _ => true
  | _ => false

def memberOf (names : List String) : Json → Except PyError Bool
  | .str s => .ok (decide (s ∈ names))
  | v => if v.hashable then .ok false else .error (.builtin .typeError)

end Json

namespace Builtins

variable (b : Builtins)

def truthy : Json → Bool
  | .null => false
  | .bool x => x
  | .int n => decide (n ≠ 0)
  | .float f => decide (b.floatValue f ≠ 0)
  | .str s => decide (s ≠ "")
  | .arr xs => !xs.isEmpty
  | .obj kvs => !kvs.isEmpty

def pyStr : Json → String
  | .str s => s
  | v => (b.reprOf v).val

def orElse (v w : Json) : Json := if b.truthy v then v else w

/-- What a loop over `v or []` goes through. -/
def iterate (v : Json) : Except PyError (List Json) :=
  if b.truthy v then
    match v with
    | .arr xs => .ok xs
    | .str s => .ok (s.toList.map fun c => .str (String.singleton c))
    | .obj kvs => .ok (kvs.map fun p => .str p.1)
    | _ => .error (.builtin .typeError)
  else .ok []

def floatLimit : Nat := 2 ^ 1024 - 2 ^ 970

def pyInt : Json → Except PyError Int
  | .bool x => .ok (if x then 1 else 0)
  | .int n => .ok n
  | .float f => .ok ((b.floatValue f).num.tdiv (b.floatValue f).den)
  | .str s =>
    match b.intOfText s with
    | some n => .ok n
    | none => .error (.builtin .valueError)
  | _ => .error (.builtin .typeError)

def pyFloat : Json → Except PyError PyFloat
  | .bool x => .ok (.finite (if x then 1 else 0))
  | .int n =>
    if floatLimit ≤ n.natAbs then .error (.builtin .overflowError)
    else .ok (.finite (b.nearestFloat n))
  | .float f => .ok (.finite (b.floatValue f))
  | .str s =>
    match b.floatOfText s with
    | some x => .ok x
    | none => .error (.builtin .valueError)
  | _ => .error (.builtin .typeError)

theorem pyInt_kind {v : Json} {e : PyError} (h : b.pyInt v = .error e) :
    e.kind = .typeError ∨ e.kind = .valueError := by
  cases v with
  | str s =>
    cases ht : b.intOfText s with
    | none =>
      simp only [pyInt, ht, Except.error.injEq] at h
      subst h
      exact Or.inr rfl
    | some n => simp [pyInt, ht] at h
  | null =>
    simp only [pyInt, Except.error.injEq] at h
    subst h
    exact Or.inl rfl
  | arr xs =>
    simp only [pyInt, Except.error.injEq] at h
    subst h
    exact Or.inl rfl
  | obj kvs =>
    simp only [pyInt, Except.error.injEq] at h
    subst h
    exact Or.inl rfl
  | bool x => cases h
  | int n => cases h
  | float f => cases h

end Builtins

end Agently.Utils
