import Agently.Utils.Json

/-! # The canonical text of a JSON value

Source: `TriggerFlow/SnapshotProjection.py`: `json.dumps` with sorted keys, compact separators
and no escaping of text outside ASCII. The text determines the value up to the order of keys. -/

namespace Agently.Utils

open Agently.Lib

namespace Json

def quote : Char := Char.ofNat 34
def backslash : Char := Char.ofNat 92
def openBrace : Char := Char.ofNat 123
def closeBrace : Char := Char.ofNat 125

def hexDigit (n : Nat) : Char := if n < 10 then Char.ofNat (48 + n) else Char.ofNat (87 + n)

def shortEscape? (c : Char) : Option Char :=
  if c = quote then some quote
  else if c = backslash then some backslash
  else if c = Char.ofNat 10 then some 'n'
  else if c = Char.ofNat 13 then some 'r'
  else if c = Char.ofNat 9 then some 't'
  else if c = Char.ofNat 12 then some 'f'
  else if c = Char.ofNat 8 then some 'b'
  else none

def escapeChar (c : Char) : List Char :=
  match shortEscape? c with
  | some k => [backslash, k]
  | none =>
    if c.toNat < 32 then
      [backslash, 'u', '0', '0', hexDigit (c.toNat / 16), hexDigit (c.toNat % 16)]
    else [c]

def escape : List Char → List Char
  | [] => []
  | c :: rest => escapeChar c ++ escape rest

def strText (s : String) : List Char := quote :: (escape s.toList ++ [quote])

def intText : Int → List Char
  | .ofNat n => Nat.toDigits 10 n
  | .negSucc n => '-' :: Nat.toDigits 10 (n + 1)

mutual

def text : Json → List Char
  | .null => ['n', 'u', 'l', 'l']
  | .bool true => ['t', 'r', 'u', 'e']
  | .bool false => ['f', 'a', 'l', 's', 'e']
  | .int n => intText n
  | .float f => f.chars
  | .str s => strText s
  | .arr [] => ['[', ']']
  | .arr (x :: xs) => '[' :: (text x ++ textTail xs)
  | .obj [] => [openBrace, closeBrace]
  | .obj ((k, x) :: rest) => openBrace :: (strText k ++ ':' :: (text x ++ textEntries rest))

def textTail : List Json → List Char
  | [] => [']']
  | x :: xs => ',' :: (text x ++ textTail xs)

def textEntries : List (String × Json) → List Char
  | [] => [closeBrace]
  | (k, x) :: rest => ',' :: (strText k ++ ':' :: (text x ++ textEntries rest))

end

/-- `canonical_snapshot_value_bytes`, before the UTF-8 encoding. -/
def canonicalText (v : Json) : String := String.ofList (text (normal v))

/-- The character a backslash and `c` stand for. -/
def unescape (c : Char) : Char :=
  if c = 'n' then Char.ofNat 10
  else if c = 'r' then Char.ofNat 13
  else if c = 't' then Char.ofNat 9
  else if c = 'f' then Char.ofNat 12
  else if c = 'b' then Char.ofNat 8
  else c

def hexValue (c : Char) : Nat := if c.toNat < 58 then c.toNat - 48 else c.toNat - 87

def readChar : List Char → Option (Char × List Char)
  | [] => none
  | c :: rest =>
    if c = backslash then
      match rest with
      | 'u' :: _ :: _ :: a :: b :: r => some (Char.ofNat (16 * hexValue a + hexValue b), r)
      | k :: r => some (unescape k, r)
      | [] => none
    else some (c, rest)

theorem hexValue_hexDigit : ∀ n, n < 16 → hexValue (hexDigit n) = n := by decide

variable {c : Char}

theorem unescape_of_shortEscape {k : Char} (h : shortEscape? c = some k) :
    unescape k = c ∧ k ≠ 'u' := by
  unfold shortEscape? at h
  repeat' split at h
  all_goals first
    | (cases h; subst_vars; decide)
    | cases h

theorem ne_of_shortEscape_none (h : shortEscape? c = none) :
    c ≠ quote ∧ c ≠ backslash := by
  constructor
  · intro he
    subst he
    simp [shortEscape?] at h
  · intro he
    subst he
    simp [shortEscape?, backslash, quote] at h

theorem readChar_escapeChar (c : Char) (rest : List Char) :
    readChar (escapeChar c ++ rest) = some (c, rest) := by
  unfold escapeChar
  split
  · next k hk =>
    obtain ⟨hc, hu⟩ := unescape_of_shortEscape hk
    simp only [List.cons_append, List.nil_append, readChar, if_true]
    split
    · next h => exact absurd (List.cons.inj h).1 hu
    · next h =>
      obtain ⟨hkk, hr⟩ := List.cons.inj h
      subst hkk hr
      rw [hc]
    · next h => cases h
  · next hk =>
    by_cases hn : c.toNat < 32
    · have h₁ := hexValue_hexDigit (c.toNat / 16) (by omega)
      have h₂ := hexValue_hexDigit (c.toNat % 16) (by omega)
      have hs : 16 * (c.toNat / 16) + c.toNat % 16 = c.toNat := by omega
      simp only [hn, if_true, List.cons_append, List.nil_append, readChar, h₁, h₂, hs,
        Char.ofNat_toNat]
    · obtain ⟨-, hb⟩ := ne_of_shortEscape_none hk
      simp only [hn, if_false, List.cons_append, List.nil_append, readChar, hb]

theorem escapeChar_head (c : Char) : ∃ d t, escapeChar c = d :: t ∧ d ≠ quote := by
  unfold escapeChar
  split
  · exact ⟨_, _, rfl, by decide⟩
  · next hk =>
    split
    · exact ⟨_, _, rfl, by decide⟩
    · exact ⟨c, [], rfl, (ne_of_shortEscape_none hk).1⟩

variable {t r u : List Char}

theorem escape_inj {s : List Char}
    (h : escape s ++ quote :: r = escape t ++ quote :: u) : s = t ∧ r = u := by
  induction s generalizing t with
  | nil =>
    cases t with
    | nil => exact ⟨rfl, (List.cons.inj h).2⟩
    | cons d t =>
      obtain ⟨e, x, he, hne⟩ := escapeChar_head d
      rw [escape, escape, he] at h
      exact absurd (List.cons.inj h).1.symm hne
  | cons c s ih =>
    cases t with
    | nil =>
      obtain ⟨e, x, he, hne⟩ := escapeChar_head c
      rw [escape, escape, he] at h
      exact absurd (List.cons.inj h).1 hne
    | cons d t =>
      rw [escape, escape, List.append_assoc, List.append_assoc] at h
      have hr := congrArg readChar h
      rw [readChar_escapeChar, readChar_escapeChar] at hr
      obtain ⟨hc, hrest⟩ := Prod.mk.inj (Option.some.inj hr)
      obtain ⟨hs, hu⟩ := ih hrest
      exact ⟨by rw [hc, hs], hu⟩

theorem strText_inj {s t : String} (h : strText s ++ r = strText t ++ u) : s = t ∧ r = u := by
  simp only [strText, List.cons_append, List.append_assoc, List.nil_append] at h
  obtain ⟨hs, hr⟩ := escape_inj (List.cons.inj h).2
  exact ⟨String.toList_inj.mp hs, hr⟩

def Delimited (r : List Char) : Prop := ∀ c t, r = c :: t → isNumberChar c = false

theorem delimited_nil : Delimited [] := by
  intro c t h
  cases h

theorem delimited_cons (h : isNumberChar c = false) :
    Delimited (c :: t) := by
  intro d u he
  cases he
  exact h

def isNumber : Json → Bool
  | .int _ | .float _ => true
  | _ => false

theorem digits_numberChar {n : Nat} (h : c ∈ Nat.toDigits 10 n) :
    c.isDigit = true ∧ isNumberChar c = true := by
  have hd : c.isDigit = true := Nat.isDigit_of_mem_toDigits (by omega) (by omega) h
  exact ⟨hd, by simp [isNumberChar, hd]⟩

theorem intText_numberChar {n : Int} (h : c ∈ intText n) : isNumberChar c = true := by
  cases n with
  | ofNat n => exact (digits_numberChar h).2
  | negSucc n =>
    rcases List.mem_cons.mp h with rfl | h
    · decide
    · exact (digits_numberChar h).2

theorem intText_not_pointed {n : Int} : '.' ∉ intText n ∧ 'e' ∉ intText n := by
  have hd : ∀ m : Nat, '.' ∉ Nat.toDigits 10 m ∧ 'e' ∉ Nat.toDigits 10 m := by
    intro m
    constructor
    · intro h
      have h' := (digits_numberChar h).1
      simp at h'
    · intro h
      have h' := (digits_numberChar h).1
      simp at h'
  cases n with
  | ofNat n => exact hd n
  | negSucc n =>
    obtain ⟨hp, he⟩ := hd (n + 1)
    simp [intText, hp, he]

theorem toDigits_inj {m n : Nat} (h : Nat.toDigits 10 m = Nat.toDigits 10 n) : m = n := by
  have hm : Nat.ofDigitChars 10 (Nat.toDigits 10 m) 0 = m :=
    Nat.ofDigitChars_toDigits (by omega) (by omega)
  have hn : Nat.ofDigitChars 10 (Nat.toDigits 10 n) 0 = n :=
    Nat.ofDigitChars_toDigits (by omega) (by omega)
  rw [← hm, h, hn]

theorem toDigits_ne_neg {m : Nat} : Nat.toDigits 10 m ≠ '-' :: t := by
  intro h
  have hm : '-' ∈ Nat.toDigits 10 m := by simp [h]
  have hd := (digits_numberChar hm).1
  simp at hd

theorem intText_inj {m n : Int} (h : intText m = intText n) : m = n := by
  cases m with
  | ofNat m =>
    cases n with
    | ofNat n => exact congrArg Int.ofNat (toDigits_inj h)
    | negSucc n => exact absurd h toDigits_ne_neg
  | negSucc m =>
    cases n with
    | ofNat n => exact absurd h.symm toDigits_ne_neg
    | negSucc n =>
      have hd : m + 1 = n + 1 := toDigits_inj (List.cons.inj h).2
      rw [Nat.succ.inj hd]

variable {v : Json}

theorem number_chars (h : v.isNumber = true) : ∀ c ∈ text v, isNumberChar c = true := by
  cases v with
  | int n =>
    intro c hc
    rw [text] at hc
    exact intText_numberChar hc
  | float f =>
    intro c hc
    rw [text] at hc
    exact f.ofNumber c hc
  | _ => cases h

theorem takeWhile_number {s : List Char} (hs : ∀ c ∈ s, isNumberChar c = true)
    (hr : Delimited r) : (s ++ r).takeWhile isNumberChar = s := by
  induction s with
  | nil =>
    cases r with
    | nil => rfl
    | cons c t => simp [hr c t rfl]
  | cons c s ih =>
    have hc : isNumberChar c = true := hs c List.mem_cons_self
    have hrest := ih (List.forall_mem_cons.mp hs).2
    simp [hc, hrest]

variable {w : Json}

theorem number_inj (hv : v.isNumber = true) (hw : w.isNumber = true)
    (h : text v = text w) : v = w := by
  cases v with
  | int m =>
    cases w with
    | int n =>
      rw [text, text] at h
      rw [intText_inj h]
    | float f =>
      rw [text, text] at h
      have hp := f.pointed
      rw [← h] at hp
      obtain ⟨h₁, h₂⟩ := intText_not_pointed (n := m)
      exact absurd hp (by simp [h₁, h₂])
    | _ => cases hw
  | float f =>
    cases w with
    | int n =>
      rw [text, text] at h
      have hp := f.pointed
      rw [h] at hp
      obtain ⟨h₁, h₂⟩ := intText_not_pointed (n := n)
      exact absurd hp (by simp [h₁, h₂])
    | float g =>
      rw [text, text] at h
      obtain ⟨cs, hn, hp⟩ := f
      obtain ⟨ds, hn', hp'⟩ := g
      have hd : cs = ds := h
      subst hd
      rfl
    | _ => cases hw
  | _ => cases hv

theorem number_text_head (h : v.isNumber = true) :
    ∃ c t, text v = c :: t ∧ isNumberChar c = true := by
  have hc := number_chars h
  cases ht : text v with
  | nil =>
    cases v with
    | int n =>
      cases n with
      | ofNat n =>
        rw [text, intText] at ht
        exact absurd ht Nat.toDigits_ne_nil
      | negSucc n =>
        rw [text, intText] at ht
        cases ht
    | float f =>
      rw [text] at ht
      have hp := f.pointed
      rw [ht] at hp
      simp at hp
    | _ => cases h
  | cons c t =>
    rw [ht] at hc
    exact ⟨c, t, rfl, hc c List.mem_cons_self⟩

inductive Shape where
  | null
  | yes
  | no
  | str
  | arr
  | obj
  | number
  deriving DecidableEq

def shape : Json → Shape
  | .null => .null
  | .bool true => .yes
  | .bool false => .no
  | .str _ => .str
  | .arr _ => .arr
  | .obj _ => .obj
  | .int _ | .float _ => .number

def Shape.head : Shape → Char
  | .null => 'n'
  | .yes => 't'
  | .no => 'f'
  | .str => quote
  | .arr => '['
  | .obj => openBrace
  | .number => '0'

theorem Shape.head_not_number {s : Shape} (h : s ≠ .number) : isNumberChar s.head = false := by
  cases s <;> first | decide | exact absurd rfl h

theorem Shape.head_inj {s t : Shape} (h : s.head = t.head) : s = t := by
  cases s <;> cases t <;> first | rfl | exact absurd h (by decide)

theorem Shape.head_ne_closing (s : Shape) : s.head ≠ ']' ∧ s.head ≠ closeBrace := by
  cases s <;> decide

theorem isNumber_iff : v.isNumber = true ↔ v.shape = .number := by
  cases v with
  | bool b => cases b <;> simp [isNumber, shape]
  | _ => simp [isNumber, shape]

theorem text_head (h : v.shape ≠ .number) : ∃ t, text v = v.shape.head :: t := by
  cases v with
  | null => exact ⟨_, by rw [text, shape, Shape.head]⟩
  | bool b => cases b <;> exact ⟨_, by rw [text, shape, Shape.head]⟩
  | int n => exact absurd rfl h
  | float f => exact absurd rfl h
  | str s => exact ⟨_, by rw [text, strText, shape, Shape.head]⟩
  | arr xs => cases xs <;> exact ⟨_, by rw [text, shape, Shape.head]⟩
  | obj kvs =>
    cases kvs with
    | nil => exact ⟨_, by rw [text, shape, Shape.head]⟩
    | cons p rest =>
      obtain ⟨k, x⟩ := p
      exact ⟨_, by rw [text, shape, Shape.head]⟩

theorem text_ne_closing : text v ++ r ≠ ']' :: t := by
  intro h
  by_cases hv : v.shape = .number
  · obtain ⟨d, u, hd, hn⟩ := number_text_head (isNumber_iff.mpr hv)
    rw [hd] at h
    rw [(List.cons.inj h).1] at hn
    exact absurd hn (by decide)
  · obtain ⟨u, hu⟩ := text_head hv
    rw [hu] at h
    exact (Shape.head_ne_closing v.shape).1 (List.cons.inj h).1

theorem number_append_inj (hv : v.shape = .number)
    (hr : Delimited r) (hu : Delimited u) (h : text v ++ r = text w ++ u) : v = w ∧ r = u := by
  have hv' : v.isNumber = true := isNumber_iff.mpr hv
  have hw : w.shape = .number := by
    by_contra hw
    obtain ⟨c, t, hc, hn⟩ := number_text_head hv'
    obtain ⟨s, hs⟩ := text_head hw
    rw [hc, hs] at h
    rw [(List.cons.inj h).1, Shape.head_not_number hw] at hn
    cases hn
  have hw' : w.isNumber = true := isNumber_iff.mpr hw
  have ht := congrArg (List.takeWhile isNumberChar) h
  rw [takeWhile_number (number_chars hv') hr, takeWhile_number (number_chars hw') hu] at ht
  have hvw := number_inj hv' hw' ht
  subst hvw
  exact ⟨rfl, List.append_cancel_left h⟩

theorem delimited_textTail (xs : List Json) (r : List Char) : Delimited (textTail xs ++ r) := by
  cases xs with
  | nil => exact delimited_cons (by decide)
  | cons x xs => exact delimited_cons (by decide)

theorem delimited_textEntries (kvs : List (String × Json)) (r : List Char) :
    Delimited (textEntries kvs ++ r) := by
  cases kvs with
  | nil => exact delimited_cons (by decide)
  | cons p rest => exact delimited_cons (by decide)

theorem shape_eq (hv : v.shape ≠ .number)
    (hr : Delimited r) (hu : Delimited u) (h : text v ++ r = text w ++ u) :
    v.shape = w.shape := by
  have hw : w.shape ≠ .number := by
    intro hw
    obtain ⟨hvw, -⟩ := number_append_inj hw hu hr h.symm
    exact hv (hvw ▸ hw)
  obtain ⟨s, hs⟩ := text_head hv
  obtain ⟨t, ht⟩ := text_head hw
  rw [hs, ht] at h
  exact Shape.head_inj (List.cons.inj h).1

mutual

theorem text_append_inj : (v w : Json) → {r u : List Char} → Delimited r → Delimited u →
    text v ++ r = text w ++ u → v = w ∧ r = u
  | .int n, w, _, _, hr, hu, h => number_append_inj rfl hr hu h
  | .float f, w, _, _, hr, hu, h => number_append_inj rfl hr hu h
  | .null, w, _, _, hr, hu, h => by
      have hs := shape_eq (by simp [shape]) hr hu h
      cases w with
      | null => exact ⟨rfl, List.append_cancel_left h⟩
      | bool b => cases b <;> cases hs
      | _ => cases hs
  | .bool a, w, _, _, hr, hu, h => by
      have hs := shape_eq (by cases a <;> simp [shape]) hr hu h
      cases w with
      | bool b =>
        cases a <;> cases b
        · exact ⟨rfl, List.append_cancel_left h⟩
        · cases hs
        · cases hs
        · exact ⟨rfl, List.append_cancel_left h⟩
      | _ => cases a <;> cases hs
  | .str s, w, _, _, hr, hu, h => by
      have hs := shape_eq (by simp [shape]) hr hu h
      cases w with
      | str t =>
        rw [text, text] at h
        obtain ⟨hst, hru⟩ := strText_inj h
        exact ⟨by rw [hst], hru⟩
      | bool b => cases b <;> cases hs
      | _ => cases hs
  | .arr xs, w, _, _, hr, hu, h => by
      have hs := shape_eq (by simp [shape]) hr hu h
      cases w with
      | arr ys =>
        obtain ⟨hxy, hru⟩ := textArray_inj xs ys h
        exact ⟨by rw [hxy], hru⟩
      | bool b => cases b <;> cases hs
      | _ => cases hs
  | .obj kvs, w, _, _, hr, hu, h => by
      have hs := shape_eq (by simp [shape]) hr hu h
      cases w with
      | obj lvs =>
        obtain ⟨hxy, hru⟩ := textObject_inj kvs lvs h
        exact ⟨by rw [hxy], hru⟩
      | bool b => cases b <;> cases hs
      | _ => cases hs

theorem textArray_inj : (xs ys : List Json) → {r u : List Char} →
    text (.arr xs) ++ r = text (.arr ys) ++ u → xs = ys ∧ r = u
  | [], [], _, _, h => ⟨rfl, List.append_cancel_left h⟩
  | [], y :: ys, r, u, h => by
      simp only [text, List.cons_append, List.append_assoc, List.nil_append, List.cons.injEq,
        true_and] at h
      exact absurd h.symm text_ne_closing
  | x :: xs, [], r, u, h => by
      simp only [text, List.cons_append, List.append_assoc, List.nil_append, List.cons.injEq,
        true_and] at h
      exact absurd h text_ne_closing
  | x :: xs, y :: ys, r, u, h => by
      simp only [text, List.cons_append, List.append_assoc, List.cons.injEq, true_and] at h
      obtain ⟨hx, ht⟩ := text_append_inj x y (delimited_textTail xs r) (delimited_textTail ys u) h
      obtain ⟨hxs, hru⟩ := textTail_inj xs ys ht
      exact ⟨by rw [hx, hxs], hru⟩

theorem textTail_inj : (xs ys : List Json) → {r u : List Char} →
    textTail xs ++ r = textTail ys ++ u → xs = ys ∧ r = u
  | [], [], _, _, h => ⟨rfl, List.append_cancel_left h⟩
  | [], y :: ys, _, _, h => absurd (List.cons.inj h).1 (by decide)
  | x :: xs, [], _, _, h => absurd (List.cons.inj h).1 (by decide)
  | x :: xs, y :: ys, r, u, h => by
      simp only [textTail, List.cons_append, List.append_assoc, List.cons.injEq, true_and] at h
      obtain ⟨hx, ht⟩ := text_append_inj x y (delimited_textTail xs r) (delimited_textTail ys u) h
      obtain ⟨hxs, hru⟩ := textTail_inj xs ys ht
      exact ⟨by rw [hx, hxs], hru⟩

theorem textObject_inj : (xs ys : List (String × Json)) → {r u : List Char} →
    text (.obj xs) ++ r = text (.obj ys) ++ u → xs = ys ∧ r = u
  | [], [], _, _, h => ⟨rfl, List.append_cancel_left h⟩
  | [], (l, y) :: ys, r, u, h => by
      simp only [text, strText, List.cons_append, List.nil_append, List.cons.injEq, true_and] at h
      exact absurd h.1 (by decide)
  | (k, x) :: xs, [], r, u, h => by
      simp only [text, strText, List.cons_append, List.nil_append, List.cons.injEq, true_and] at h
      exact absurd h.1 (by decide)
  | (k, x) :: xs, (l, y) :: ys, r, u, h => by
      simp only [text, List.cons_append, List.append_assoc, List.cons.injEq, true_and] at h
      obtain ⟨hk, h'⟩ := strText_inj h
      obtain ⟨hx, ht⟩ := text_append_inj x y (delimited_textEntries xs r)
        (delimited_textEntries ys u) (List.cons.inj h').2
      obtain ⟨hxs, hru⟩ := textEntries_inj xs ys ht
      exact ⟨by rw [hk, hx, hxs], hru⟩

theorem textEntries_inj : (xs ys : List (String × Json)) → {r u : List Char} →
    textEntries xs ++ r = textEntries ys ++ u → xs = ys ∧ r = u
  | [], [], _, _, h => ⟨rfl, List.append_cancel_left h⟩
  | [], (l, y) :: ys, _, _, h => absurd (List.cons.inj h).1 (by decide)
  | (k, x) :: xs, [], _, _, h => absurd (List.cons.inj h).1 (by decide)
  | (k, x) :: xs, (l, y) :: ys, r, u, h => by
      simp only [textEntries, List.cons_append, List.append_assoc, List.cons.injEq, true_and] at h
      obtain ⟨hk, h'⟩ := strText_inj h
      obtain ⟨hx, ht⟩ := text_append_inj x y (delimited_textEntries xs r)
        (delimited_textEntries ys u) (List.cons.inj h').2
      obtain ⟨hxs, hru⟩ := textEntries_inj xs ys ht
      exact ⟨by rw [hk, hx, hxs], hru⟩

end

theorem text_injective (h : text v = text w) : v = w :=
  (text_append_inj v w delimited_nil delimited_nil (congrArg (· ++ []) h)).1

theorem canonicalText_eq_iff (v w : Json) : canonicalText v = canonicalText w ↔ Same v w := by
  constructor
  · intro h
    exact text_injective (String.ofList_injective h)
  · intro h
    rw [canonicalText, canonicalText, h]

end Json

end Agently.Utils
