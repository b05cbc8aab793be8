import Agently.TaskDAG.TaskDAGData
import Mathlib.Data.List.DropRight

/-! # Numbers in texts

`str.isdigit` and `int()` of a text. The decimal digits of each script stand in a block of
ten; other digits, such as superscripts, are digits to `isdigit` but not to `int()`. -/

namespace Agently.Utils.IntText

open Agently.TaskDAGValidation (isSpace)

def laterZeros : List Nat :=
  [1632, 1776, 1984, 2406, 2534, 2662, 2790, 2918, 3046, 3174, 3302, 3430, 3558, 3664, 3792,
   3872, 4160, 4240, 6112, 6160, 6470, 6608, 6784, 6800, 6992, 7088, 7232, 7248, 42528, 43216,
   43264, 43472, 43504, 43600, 44016, 65296, 66720, 68912, 69734, 69872, 69942, 70096, 70384,
   70736, 70864, 71248, 71360, 71472, 71904, 72016, 72784, 73040, 73120, 92768, 92864, 93008,
   120782, 120792, 120802, 120812, 120822, 123200, 123632, 125264, 130032]

def otherDigits : List (Nat × Nat) :=
  [(178, 179), (185, 185), (4969, 4977), (6618, 6618), (8304, 8304), (8308, 8313), (8320, 8329),
   (9312, 9320), (9332, 9340), (9352, 9360), (9450, 9450), (9461, 9469), (9471, 9471),
   (10102, 10110), (10112, 10120), (10122, 10130), (68160, 68163), (69216, 69224),
   (69714, 69722), (127232, 127242)]

def decimal? (c : Char) : Option Nat :=
  (('0'.toNat :: laterZeros).find? fun first => first ≤ c.toNat && c.toNat < first + 10).map
    fun first => c.toNat - first

def isDigitChar (c : Char) : Bool :=
  (decimal? c).isSome || otherDigits.any fun r => r.1 ≤ c.toNat && c.toNat ≤ r.2

def isdigit (s : List Char) : Bool := !s.isEmpty && s.all isDigitChar

/-- The digits of `int()`, read up to `acc`; a single underscore may stand between two. -/
def digitsFrom (after_digit : Bool) (acc : Nat) : List Char → Option Nat
  | [] => if after_digit then some acc else none
  | c :: rest =>
    match decimal? c with
    | some d => digitsFrom true (10 * acc + d) rest
    | none => if c = '_' ∧ after_digit = true then digitsFrom false acc rest else none

def strip (s : List Char) : List Char := (s.dropWhile isSpace).rdropWhile isSpace

def intOf (s : List Char) : Option Int :=
  match strip s with
  | '-' :: rest => (digitsFrom false 0 rest).map fun n => -(n : Int)
  | '+' :: rest => (digitsFrom false 0 rest).map fun n => (n : Int)
  | rest => (digitsFrom false 0 rest).map fun n => (n : Int)

def natText (n : Nat) : List Char := Nat.toDigits 10 n

variable {c : Char}

theorem decimal?_of_isDigit (h : c.isDigit = true) :
    decimal? c = some (c.toNat - '0'.toNat) := by
  have hc : 48 ≤ c.toNat ∧ c.toNat ≤ 57 := by
    simpa [Char.isDigit, UInt32.le_iff_toNat_le] using h
  have hzero : '0'.toNat = 48 := rfl
  rw [decimal?, List.find?_cons_of_pos]
  · rfl
  · simp only [Bool.and_eq_true, decide_eq_true_eq]
    omega

theorem isDigit_of_mem_natText {n : Nat} (h : c ∈ natText n) : c.isDigit = true :=
  Nat.isDigit_of_mem_toDigits (by decide) (by decide) h

theorem natText_ne_nil (n : Nat) : natText n ≠ [] := Nat.toDigits_ne_nil

theorem not_mem_natText (h : c.isDigit = false) (n : Nat) : c ∉ natText n := by
  intro hm
  rw [isDigit_of_mem_natText hm] at h
  cases h

theorem isdigit_natText (n : Nat) : isdigit (natText n) = true := by
  have hne : (natText n).isEmpty = false := by
    cases hn : natText n with
    | nil => exact absurd hn (natText_ne_nil n)
    | cons c rest => rfl
  rw [isdigit, hne, Bool.not_false, Bool.true_and, List.all_eq_true]
  intro c hc
  rw [isDigitChar, decimal?_of_isDigit (isDigit_of_mem_natText hc)]
  rfl

variable {s : List Char}

theorem digitsFrom_of_isDigit (h : ∀ c ∈ s, c.isDigit = true) (acc : Nat) :
    digitsFrom true acc s = some (Nat.ofDigitChars 10 s acc) := by
  induction s generalizing acc with
  | nil => rfl
  | cons c s ih =>
    rw [digitsFrom, decimal?_of_isDigit (h c List.mem_cons_self), Nat.ofDigitChars_cons]
    exact ih (fun d hd => h d (List.mem_cons_of_mem c hd)) _

theorem isSpace_of_isDigit (h : c.isDigit = true) : isSpace c = false := by
  have hc : 48 ≤ c.toNat ∧ c.toNat ≤ 57 := by
    simpa [Char.isDigit, UInt32.le_iff_toNat_le] using h
  simp only [isSpace, Bool.or_eq_false_iff, Bool.and_eq_false_iff, decide_eq_false_iff_not,
    beq_eq_false_iff_ne]
  omega

theorem strip_of_solid (h : ∀ c ∈ s, isSpace c = false) : strip s = s := by
  have hdrop : s.dropWhile isSpace = s := by
    rw [List.dropWhile_eq_self_iff]
    intro hl
    rw [h _ (List.getElem_mem hl)]
    exact Bool.false_ne_true
  rw [strip, hdrop, List.rdropWhile_eq_self_iff]
  intro hl
  rw [h _ (List.getLast_mem hl)]
  exact Bool.false_ne_true

theorem digitsFrom_natText (n : Nat) : digitsFrom false 0 (natText n) = some n := by
  obtain ⟨c, s, hs⟩ := List.exists_cons_of_ne_nil (natText_ne_nil n)
  have hdigits : ∀ d ∈ c :: s, d.isDigit = true := by
    rw [← hs]
    exact fun d hd => isDigit_of_mem_natText hd
  have hvalue : Nat.ofDigitChars 10 (natText n) 0 = n := Nat.ofDigitChars_ten_toDigits
  rw [hs, Nat.ofDigitChars_cons] at hvalue
  have hrest := digitsFrom_of_isDigit (fun d hd => hdigits d (List.mem_cons_of_mem c hd))
    (10 * 0 + (c.toNat - '0'.toNat))
  rw [hs, digitsFrom, decimal?_of_isDigit (hdigits c List.mem_cons_self)]
  simp only [hrest, hvalue]

theorem natText_injective {i j : Nat} (h : natText i = natText j) : i = j := by
  have hi := digitsFrom_natText i
  rw [h, digitsFrom_natText] at hi
  exact (Option.some.inj hi).symm

theorem intOf_natText (n : Nat) : intOf (natText n) = some (n : Int) := by
  have hstrip : strip (natText n) = natText n :=
    strip_of_solid fun c hc => isSpace_of_isDigit (isDigit_of_mem_natText hc)
  have hminus : '-' ∉ natText n := not_mem_natText (by decide) n
  have hplus : '+' ∉ natText n := not_mem_natText (by decide) n
  rw [intOf, hstrip]
  split
  · rename_i heq
    rw [heq] at hminus
    exact absurd List.mem_cons_self hminus
  · rename_i heq
    rw [heq] at hplus
    exact absurd List.mem_cons_self hplus
  · rw [digitsFrom_natText]
    rfl

/-- What `int()` reads has only digits, signs, underscores and white space. -/
theorem digitsFrom_none (hd : decimal? c = none) (hu : c ≠ '_')
    (h : c ∈ s) (after_digit : Bool) (acc : Nat) : digitsFrom after_digit acc s = none := by
  induction s generalizing after_digit acc with
  | nil => cases h
  | cons d s ih =>
    rw [digitsFrom]
    obtain rfl | hs := List.mem_cons.mp h
    · rw [hd]
      simp [hu]
    · split
      · exact ih hs _ _
      · split
        · exact ih hs _ _
        · rfl

theorem mem_dropWhile_of_not {p : Char → Bool} (hc : p c = false)
    (h : c ∈ s) : c ∈ s.dropWhile p := by
  induction s with
  | nil => cases h
  | cons d s ih =>
    rw [List.dropWhile_cons]
    split
    · rename_i hd
      obtain rfl | hs := List.mem_cons.mp h
      · rw [hc] at hd
        cases hd
      · exact ih hs
    · exact h

theorem mem_strip_of_not (hc : isSpace c = false) (h : c ∈ s) :
    c ∈ strip s := by
  rw [strip, List.rdropWhile, List.mem_reverse]
  apply mem_dropWhile_of_not hc
  rw [List.mem_reverse]
  exact mem_dropWhile_of_not hc h

theorem intOf_bracket (h : ']' ∈ s) : intOf s = none := by
  have hd : decimal? ']' = none := by decide
  have hs : ']' ∈ strip s := mem_strip_of_not (by decide) h
  rw [intOf]
  split
  · rename_i rest heq
    rw [heq] at hs
    obtain he | hm := List.mem_cons.mp hs
    · exact absurd he (by decide)
    · rw [digitsFrom_none hd (by decide) hm]
      rfl
  · rename_i rest heq
    rw [heq] at hs
    obtain he | hm := List.mem_cons.mp hs
    · exact absurd he (by decide)
    · rw [digitsFrom_none hd (by decide) hm]
      rfl
  · rw [digitsFrom_none hd (by decide) hs]
    rfl

end Agently.Utils.IntText
