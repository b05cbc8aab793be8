import Agently.Lib.SelfSynchronising

/-! # UTF-8 with replacement

`str.encode("utf-8")` of texts without lone surrogates, and `bytes.decode("utf-8",
errors="replace")`: one U+FFFD for each longest beginning of a character that does not go on,
and one for each byte that begins none. -/

namespace Agently.Utils.Utf8

open Agently.Lib

abbrev Byte := Fin 256

def byte (n : Nat) : Byte := Fin.ofNat 256 n

def encodeChar (c : Char) : List Byte :=
  let v := c.toNat
  if v < 0x80 then [byte v]
  else if v < 0x800 then [byte (0xC0 + v / 64), byte (0x80 + v % 64)]
  else if v < 0x10000 then
    [byte (0xE0 + v / 4096), byte (0x80 + v / 64 % 64), byte (0x80 + v % 64)]
  else
    [byte (0xF0 + v / 262144), byte (0x80 + v / 4096 % 64), byte (0x80 + v / 64 % 64),
      byte (0x80 + v % 64)]

def encode (cs : List Char) : List Byte := cs.flatMap encodeChar

/-- A character that is begun: how many bytes it is owed, between what bounds the next one
lies, and its bits so far. -/
structure Pending where
  owed : Nat
  low : Nat
  high : Nat
  bits : Nat

def replacement : Char := Char.ofNat 0xFFFD

def lead (b : Nat) : Option Pending :=
  if b < 0x80 then some ⟨0, 0x80, 0xBF, b⟩
  else if b < 0xC2 then none
  else if b < 0xE0 then some ⟨1, 0x80, 0xBF, b - 0xC0⟩
  else if b = 0xE0 then some ⟨2, 0xA0, 0xBF, 0⟩
  else if b = 0xED then some ⟨2, 0x80, 0x9F, 0xD⟩
  else if b < 0xF0 then some ⟨2, 0x80, 0xBF, b - 0xE0⟩
  else if b = 0xF0 then some ⟨3, 0x90, 0xBF, 0⟩
  else if b = 0xF4 then some ⟨3, 0x80, 0x8F, 4⟩
  else if b < 0xF4 then some ⟨3, 0x80, 0xBF, b - 0xF0⟩
  else none

def settle (p : Pending) : List Char × Option Pending :=
  if p.owed = 0 then ([Char.ofNat p.bits], none) else ([], some p)

def start (b : Byte) : List Char × Option Pending :=
  match lead b.val with
  | none => ([replacement], none)
  | some p => settle p

def step : Option Pending → Byte → List Char × Option Pending
  | none, b => start b
  | some p, b =>
    if p.low ≤ b.val ∧ b.val ≤ p.high then
      settle ⟨p.owed - 1, 0x80, 0xBF, p.bits * 64 + (b.val - 0x80)⟩
    else
      -- the byte is looked at again as a first one
      (replacement :: (start b).1, (start b).2)

def decodeFrom : Option Pending → List Byte → List Char
  | none, [] => []
  | some _, [] => [replacement]
  | p, b :: rest => (step p b).1 ++ decodeFrom (step p b).2 rest

def decode (bs : List Byte) : List Char := decodeFrom none bs

/-- The decoder with `mark` in the place of U+FFFD. -/
def stepMarking (mark : List Char) : Option Pending → Byte → List Char × Option Pending
  | none, b =>
    match lead b.val with
    | none => (mark, none)
    | some p => settle p
  | some p, b =>
    if p.low ≤ b.val ∧ b.val ≤ p.high then
      settle ⟨p.owed - 1, 0x80, 0xBF, p.bits * 64 + (b.val - 0x80)⟩
    else
      match lead b.val with
      | none => (mark ++ mark, none)
      | some q => (mark ++ (settle q).1, (settle q).2)

def decodeMarking (mark : List Char) : Option Pending → List Byte → List Char
  | none, [] => []
  | some _, [] => mark
  | p, b :: rest => (stepMarking mark p b).1 ++ decodeMarking mark (stepMarking mark p b).2 rest

def decodeIgnore (bs : List Byte) : List Char := decodeMarking [] none bs

theorem decodeFrom_eq (p : Option Pending) (bs : List Byte) :
    decodeFrom p bs = decodeMarking [replacement] p bs := by
  induction bs generalizing p with
  | nil => cases p <;> rfl
  | cons b rest ih =>
    have hs : step p b = stepMarking [replacement] p b := by
      cases p with
      | none => rfl
      | some p =>
        simp only [step, stepMarking, start]
        split
        · rfl
        · cases lead b.val <;> rfl
    cases p <;> rw [decodeFrom, decodeMarking, hs, ih]

theorem val_byte {n : Nat} (h : n < 256) : (byte n).val = n := by
  unfold byte
  rw [Fin.val_ofNat, Nat.mod_eq_of_lt h]

theorem encodeChar_ne_nil (c : Char) : encodeChar c ≠ [] := by
  unfold encodeChar
  simp only
  split
  · exact List.cons_ne_nil _ _
  · split
    · exact List.cons_ne_nil _ _
    · split <;> exact List.cons_ne_nil _ _

theorem toNat_valid (c : Char) : c.toNat < 0xD800 ∨ 0xDFFF < c.toNat ∧ c.toNat < 0x110000 :=
  c.valid

def Trails (b : Byte) : Prop := 0x80 ≤ b.val ∧ b.val ≤ 0xBF

theorem trails_byte (n : Nat) : Trails (byte (0x80 + n % 64)) := by
  unfold Trails
  rw [val_byte (by omega)]
  omega

theorem trails_of_mem_tail (c : Char) : ∀ b ∈ (encodeChar c).tail, Trails b := by
  intro b hb
  unfold encodeChar at hb
  simp only at hb
  split at hb
  · cases hb
  · split at hb
    · simp only [List.tail_cons, List.mem_cons, List.not_mem_nil, or_false] at hb
      rw [hb]
      exact trails_byte _
    · split at hb
      · simp only [List.tail_cons, List.mem_cons, List.not_mem_nil, or_false] at hb
        rcases hb with hb | hb <;> rw [hb] <;> exact trails_byte _
      · simp only [List.tail_cons, List.mem_cons, List.not_mem_nil, or_false] at hb
        rcases hb with hb | hb | hb <;> rw [hb] <;> exact trails_byte _

theorem decode_trailing (b : Byte) (rest : List Byte) (h : Trails b) :
    decode (b :: rest) = replacement :: decode rest := by
  have hlead : lead b.val = none := by
    unfold Trails at h
    unfold lead
    rw [if_neg (by omega), if_pos (by omega)]
  unfold decode
  rw [decodeFrom, step, start, hlead]
  rfl

variable {m : List Char}

theorem decodeMarking_settled {p : Option Pending} {b : Byte} {rest : List Byte} {q : Pending}
    (h : stepMarking m p b = settle q) (h0 : q.owed = 0) :
    decodeMarking m p (b :: rest) = Char.ofNat q.bits :: decodeMarking m none rest := by
  have hs : stepMarking m p b = ([Char.ofNat q.bits], none) := by
    rw [h, settle, if_pos h0]
  cases p <;> rw [decodeMarking, hs] <;> rfl

theorem decodeMarking_goes_on {p : Option Pending} {b : Byte} {rest : List Byte} {q : Pending}
    (h : stepMarking m p b = settle q) (h0 : q.owed ≠ 0) :
    decodeMarking m p (b :: rest) = decodeMarking m (some q) rest := by
  have hs : stepMarking m p b = ([], some q) := by
    rw [h, settle, if_neg h0]
  cases p <;> rw [decodeMarking, hs] <;> rfl

theorem step_lead {b : Byte} {q : Pending} (h : lead b.val = some q) : stepMarking m none b = settle q := by
  rw [stepMarking, h]

theorem step_next {p : Pending} {b : Byte} (h : p.low ≤ b.val ∧ b.val ≤ p.high) :
    stepMarking m (some p) b = settle ⟨p.owed - 1, 0x80, 0xBF, p.bits * 64 + (b.val - 0x80)⟩ := by
  rw [stepMarking, if_pos h]

theorem lead_two {v : Nat} (h : 0x80 ≤ v ∧ v < 0x800) :
    lead (0xC0 + v / 64) = some ⟨1, 0x80, 0xBF, v / 64⟩ := by
  unfold lead
  rw [if_neg (by omega), if_neg (by omega), if_pos (by omega), Nat.add_sub_cancel_left]

theorem lead_three {v : Nat} (h : 0x800 ≤ v ∧ v < 0x10000)
    (hs : v < 0xD800 ∨ 0xDFFF < v) :
    ∃ low high, lead (0xE0 + v / 4096) = some ⟨2, low, high, v / 4096⟩ ∧
      low ≤ 0x80 + v / 64 % 64 ∧ 0x80 + v / 64 % 64 ≤ high := by
  unfold lead
  rw [if_neg (by omega), if_neg (by omega), if_neg (by omega)]
  by_cases h0 : 0xE0 + v / 4096 = 0xE0
  · have hv : v / 4096 = 0 := by omega
    rw [if_pos h0, hv]
    exact ⟨0xA0, 0xBF, rfl, by omega, by omega⟩
  · rw [if_neg h0]
    by_cases hD : 0xE0 + v / 4096 = 0xED
    · have hv : v / 4096 = 0xD := by omega
      rw [if_pos hD, hv]
      exact ⟨0x80, 0x9F, rfl, by omega, by omega⟩
    · rw [if_neg hD, if_pos (by omega), Nat.add_sub_cancel_left]
      exact ⟨0x80, 0xBF, rfl, by omega, by omega⟩

theorem lead_four {v : Nat} (h : 0x10000 ≤ v ∧ v < 0x110000) :
    ∃ low high, lead (0xF0 + v / 262144) = some ⟨3, low, high, v / 262144⟩ ∧
      low ≤ 0x80 + v / 4096 % 64 ∧ 0x80 + v / 4096 % 64 ≤ high := by
  unfold lead
  rw [if_neg (by omega), if_neg (by omega), if_neg (by omega), if_neg (by omega),
    if_neg (by omega), if_neg (by omega)]
  by_cases h0 : 0xF0 + v / 262144 = 0xF0
  · have hv : v / 262144 = 0 := by omega
    rw [if_pos h0, hv]
    exact ⟨0x90, 0xBF, rfl, by omega, by omega⟩
  · rw [if_neg h0]
    by_cases h4 : 0xF0 + v / 262144 = 0xF4
    · have hv : v / 262144 = 4 := by omega
      rw [if_pos h4, hv]
      exact ⟨0x80, 0x8F, rfl, by omega, by omega⟩
    · rw [if_neg h4, if_pos (by omega), Nat.add_sub_cancel_left]
      exact ⟨0x80, 0xBF, rfl, by omega, by omega⟩

theorem decodeMarking_last {low high bits n : Nat} (rest : List Byte) (hlow : low ≤ 0x80 + n % 64)
    (hhigh : 0x80 + n % 64 ≤ high) :
    decodeMarking m (some ⟨1, low, high, bits⟩) (byte (0x80 + n % 64) :: rest) =
      Char.ofNat (bits * 64 + n % 64) :: decodeMarking m none rest := by
  have hb : (byte (0x80 + n % 64)).val = 0x80 + n % 64 := val_byte (by omega)
  have hs := step_next (m := m) (p := ⟨1, low, high, bits⟩) (b := byte (0x80 + n % 64))
    (by rw [hb]; exact ⟨hlow, hhigh⟩)
  rw [decodeMarking_settled hs rfl, hb, Nat.add_sub_cancel_left]

theorem decodeMarking_more {low high bits n : Nat} (owed : Nat) (rest : List Byte)
    (hlow : low ≤ 0x80 + n % 64) (hhigh : 0x80 + n % 64 ≤ high) :
    decodeMarking m (some ⟨owed + 2, low, high, bits⟩) (byte (0x80 + n % 64) :: rest) =
      decodeMarking m (some ⟨owed + 1, 0x80, 0xBF, bits * 64 + n % 64⟩) rest := by
  have hb : (byte (0x80 + n % 64)).val = 0x80 + n % 64 := val_byte (by omega)
  have hs := step_next (m := m) (p := ⟨owed + 2, low, high, bits⟩) (b := byte (0x80 + n % 64))
    (by rw [hb]; exact ⟨hlow, hhigh⟩)
  rw [decodeMarking_goes_on hs (Nat.succ_ne_zero owed), hb, Nat.add_sub_cancel_left]
  rfl

theorem decodeMarking_lead {n : Nat} (rest : List Byte) {q : Pending} (hn : n < 256)
    (h : lead n = some q) (ho : q.owed ≠ 0) :
    decodeMarking m none (byte n :: rest) = decodeMarking m (some q) rest := by
  have hs : stepMarking m none (byte n) = settle q := step_lead (by rw [val_byte hn]; exact h)
  exact decodeMarking_goes_on hs ho

theorem decodeMarking_encodeChar (c : Char) :
    (∀ rest, decodeMarking m none (encodeChar c ++ rest) = c :: decodeMarking m none rest) ∧
      ∀ n, 0 < n → n < (encodeChar c).length →
        ∃ q, decodeMarking m none ((encodeChar c).take n) = decodeMarking m (some q) [] := by
  have hvalid := toNat_valid c
  have hself : Char.ofNat c.toNat = c := Char.ofNat_toNat c
  unfold encodeChar
  simp only
  generalize c.toNat = v at hvalid hself ⊢
  by_cases h1 : v < 0x80
  · rw [if_pos h1]
    refine ⟨?_, ?_⟩
    · intro rest
      have hl : lead (byte v).val = some ⟨0, 0x80, 0xBF, v⟩ := by
        rw [val_byte (by omega), lead, if_pos h1]
      rw [List.singleton_append, decodeMarking_settled (step_lead hl) rfl, hself]
    · intro n h0 hn
      simp only [List.length_singleton] at hn
      omega
  · rw [if_neg h1]
    by_cases h2 : v < 0x800
    · have hl := lead_two (v := v) ⟨by omega, h2⟩
      rw [if_pos h2]
      refine ⟨?_, ?_⟩
      · intro rest
        have hv : v / 64 * 64 + v % 64 = v := by omega
        rw [List.cons_append, List.singleton_append,
          decodeMarking_lead _ (by omega) hl (by simp),
          decodeMarking_last rest (by omega) (by omega), hv, hself]
      · intro n h0 hn
        have hn1 : n = 1 := by
          simp only [List.length_cons, List.length_nil] at hn
          omega
        subst hn1
        exact ⟨_, decodeMarking_lead [] (by omega) hl (by simp)⟩
    · rw [if_neg h2]
      by_cases h3 : v < 0x10000
      · obtain ⟨low, high, hl, hlow, hhigh⟩ := lead_three (v := v) ⟨by omega, h3⟩ (by omega)
        rw [if_pos h3]
        refine ⟨?_, ?_⟩
        · intro rest
          have hv : (v / 4096 * 64 + v / 64 % 64) * 64 + v % 64 = v := by omega
          rw [List.cons_append, List.cons_append, List.singleton_append,
            decodeMarking_lead _ (by omega) hl (by simp), decodeMarking_more 0 _ hlow hhigh,
            decodeMarking_last rest (by omega) (by omega)]
          simp only [hv, hself]
        · intro n h0 hn
          simp only [List.length_cons, List.length_nil] at hn
          have hcases : n = 1 ∨ n = 2 := by omega
          rcases hcases with rfl | rfl
          · exact ⟨_, decodeMarking_lead [] (by omega) hl (by simp)⟩
          · exact ⟨_, (decodeMarking_lead _ (by omega) hl (by simp)).trans
              (decodeMarking_more 0 [] hlow hhigh)⟩
      · obtain ⟨low, high, hl, hlow, hhigh⟩ := lead_four (v := v) ⟨by omega, by omega⟩
        rw [if_neg h3]
        refine ⟨?_, ?_⟩
        · intro rest
          have hv : ((v / 262144 * 64 + v / 4096 % 64) * 64 + v / 64 % 64) * 64 + v % 64 = v := by
            omega
          rw [List.cons_append, List.cons_append, List.cons_append, List.singleton_append,
            decodeMarking_lead _ (by omega) hl (by simp), decodeMarking_more 1 _ hlow hhigh,
            decodeMarking_more 0 _ (by omega) (by omega),
            decodeMarking_last rest (by omega) (by omega)]
          simp only [hv, hself]
        · intro n h0 hn
          simp only [List.length_cons, List.length_nil] at hn
          have hcases : n = 1 ∨ n = 2 ∨ n = 3 := by omega
          rcases hcases with rfl | rfl | rfl
          · exact ⟨_, decodeMarking_lead [] (by omega) hl (by simp)⟩
          · exact ⟨_, (decodeMarking_lead _ (by omega) hl (by simp)).trans
              (decodeMarking_more 1 [] hlow hhigh)⟩
          · exact ⟨_, ((decodeMarking_lead _ (by omega) hl (by simp)).trans
              (decodeMarking_more 1 _ hlow hhigh)).trans
              (decodeMarking_more 0 [] (by omega) (by omega))⟩

def utf8 : SelfSynchronising Char Byte where
  encode := encodeChar
  decode := decode
  mark := replacement
  Trails := Trails
  encode_ne_nil := encodeChar_ne_nil
  trails_of_mem_tail := trails_of_mem_tail
  decode_nil := rfl
  decode_encode := by
    intro c rest
    simp only [decode, decodeFrom_eq]
    exact (decodeMarking_encodeChar c).1 rest
  decode_trailing := decode_trailing
  decode_cut := by
    intro c n h0 hn
    obtain ⟨q, hq⟩ := (decodeMarking_encodeChar c (m := [replacement])).2 n h0 hn
    rw [decode, decodeFrom_eq, hq]
    rfl

end Agently.Utils.Utf8
