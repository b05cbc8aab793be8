import Mathlib.Data.List.GetD
import Agently.TaskDAG.TaskDAGData

/-! # Base62 identity numbers

Source: `storage/Identity/Encoding.py`. -/

namespace Agently.Storage.Identity

open Agently.TaskDAGValidation (strip isSpace)

def BASE62_ALPHABET : List Char :=
  "0123456789ABCDEFGHIJKLMNOPQRSTUVWXYZabcdefghijklmnopqrstuvwxyz".toList

def encodeDigits : Nat → Nat → List Char
  | 0, _ => []
  | fuel + 1, remaining =>
    if remaining = 0 then []
    else encodeDigits fuel (remaining / 62) ++ [BASE62_ALPHABET.getD (remaining % 62) '0']

def encode_base62 (value : Nat) : String :=
  if value = 0 then "0" else String.ofList (encodeDigits value value)

def decodeDigits (reprOf : String → String) : Nat → List Char → Except String Nat
  | decoded, [] => .ok decoded
  | decoded, character :: rest =>
    match BASE62_ALPHABET.idxOf? character with
    | some index => decodeDigits reprOf (decoded * 62 + index) rest
    | none => .error ("Invalid Base62 character: " ++ reprOf character.toString ++ ".")

def decode_base62 (reprOf : String → String) (value : String) : Except String Nat :=
  if value = "" then .error "Base62 text cannot be empty."
  else if 1 < value.length ∧ value.toList.head? = some '0' then
    .error "Base62 text must use its minimal representation."
  else decodeDigits reprOf 0 value.toList

theorem alphabet_eq : BASE62_ALPHABET =
    ['0', '1', '2', '3', '4', '5', '6', '7', '8', '9', 'A', 'B', 'C', 'D', 'E', 'F', 'G', 'H',
      'I', 'J', 'K', 'L', 'M', 'N', 'O', 'P', 'Q', 'R', 'S', 'T', 'U', 'V', 'W', 'X', 'Y', 'Z',
      'a', 'b', 'c', 'd', 'e', 'f', 'g', 'h', 'i', 'j', 'k', 'l', 'm', 'n', 'o', 'p', 'q', 'r',
      's', 't', 'u', 'v', 'w', 'x', 'y', 'z'] :=
  String.toList_ofList

theorem alphabet_length : BASE62_ALPHABET.length = 62 := by
  rw [alphabet_eq]
  rfl

theorem alphabet_nodup : BASE62_ALPHABET.Nodup := by
  have h : (BASE62_ALPHABET.map Char.toNat).Nodup := by
    rw [alphabet_eq]
    decide +kernel
  exact h.of_map _

theorem idxOf_alphabet {i : Nat} (h : i < 62) :
    BASE62_ALPHABET.idxOf? (BASE62_ALPHABET.getD i '0') = some i := by
  have hi : i < BASE62_ALPHABET.length := alphabet_length ▸ h
  rw [List.getD_eq_getElem _ _ hi, List.idxOf?_eq_some_iff]
  refine ⟨hi, rfl, ?_⟩
  intro j hj he
  have hij := (alphabet_nodup.getElem_inj_iff).mp he
  omega

theorem alphabet_mem (i : Nat) : BASE62_ALPHABET.getD i '0' ∈ BASE62_ALPHABET := by
  by_cases h : i < BASE62_ALPHABET.length
  · rw [List.getD_eq_getElem _ _ h]
    exact List.getElem_mem h
  · rw [List.getD_eq_default _ _ (by omega), alphabet_eq]
    exact List.mem_cons_self

theorem encodeDigits_mem (fuel value : Nat) :
    ∀ c ∈ encodeDigits fuel value, c ∈ BASE62_ALPHABET := by
  induction fuel generalizing value with
  | zero => simp [encodeDigits]
  | succ fuel ih =>
    intro c hc
    rw [encodeDigits] at hc
    split at hc
    · simp at hc
    · rcases List.mem_append.mp hc with hc | hc
      · exact ih _ c hc
      · rw [List.mem_singleton] at hc
        exact hc ▸ alphabet_mem _

theorem decodeDigits_append (reprOf : String → String) (start : Nat) (xs ys : List Char) :
    decodeDigits reprOf start (xs ++ ys) =
      (decodeDigits reprOf start xs).bind fun n => decodeDigits reprOf n ys := by
  induction xs generalizing start with
  | nil => rfl
  | cons c xs ih =>
    simp only [List.cons_append, decodeDigits]
    cases BASE62_ALPHABET.idxOf? c with
    | some index => exact ih _
    | none => rfl

theorem decodeDigits_encodeDigits (reprOf : String → String) (fuel value : Nat)
    (h : value ≤ fuel) : decodeDigits reprOf 0 (encodeDigits fuel value) = .ok value := by
  induction fuel generalizing value with
  | zero =>
    have h0 : value = 0 := by omega
    rw [h0]
    rfl
  | succ fuel ih =>
    rw [encodeDigits]
    by_cases h0 : value = 0
    · rw [if_pos h0, h0]
      rfl
    · rw [if_neg h0, decodeDigits_append, ih (value / 62) (by omega)]
      have hd : value / 62 * 62 + value % 62 = value := by omega
      simp only [Except.bind, decodeDigits, idxOf_alphabet (Nat.mod_lt value (by decide : 0 < 62)),
        hd]

theorem encodeDigits_head (fuel value : Nat) (h : value ≤ fuel) (h0 : 0 < value) :
    ∃ c rest, encodeDigits fuel value = c :: rest ∧ c ≠ '0' := by
  induction fuel generalizing value with
  | zero => omega
  | succ fuel ih =>
    rw [encodeDigits, if_neg (by omega)]
    by_cases hs : value / 62 = 0
    · have hlt : value < 62 := by omega
      have hall : ∀ i < 62, 0 < i → BASE62_ALPHABET.getD i '0' ≠ '0' := by
        intro i hi h0' he
        have hzero : BASE62_ALPHABET.getD 0 '0' = '0' := by
          rw [alphabet_eq]
          rfl
        have hsame := idxOf_alphabet hi
        rw [he, ← hzero, idxOf_alphabet (by omega)] at hsame
        cases hsame
        omega
      have hnil : encodeDigits fuel (value / 62) = [] := by
        rw [hs]
        cases fuel <;> rfl
      rw [hnil, Nat.mod_eq_of_lt hlt]
      exact ⟨_, [], rfl, hall value hlt h0⟩
    · obtain ⟨c, rest, he, hc⟩ := ih (value / 62) (by omega) (by omega)
      rw [he]
      exact ⟨c, rest ++ [BASE62_ALPHABET.getD (value % 62) '0'], rfl, hc⟩

theorem decode_encode (reprOf : String → String) {value : Nat} (h : 0 < value) :
    decode_base62 reprOf (encode_base62 value) = .ok value := by
  obtain ⟨c, rest, he, hc⟩ := encodeDigits_head value value (Nat.le_refl _) h
  have henc : encode_base62 value = String.ofList (c :: rest) := by
    rw [encode_base62, if_neg (by omega), he]
  have hne : String.ofList (c :: rest) ≠ "" := by simp
  rw [henc, decode_base62, if_neg hne, if_neg, String.toList_ofList, ← he]
  · exact decodeDigits_encodeDigits reprOf value value (Nat.le_refl _)
  · rintro ⟨-, hh⟩
    rw [String.toList_ofList] at hh
    exact hc (Option.some.inj hh)

theorem strip_of_no_space {cs : List Char} (h : ∀ c ∈ cs, isSpace c = false) :
    strip (String.ofList cs) = String.ofList cs := by
  have hdrop : ∀ l : List Char, (∀ c ∈ l, isSpace c = false) → l.dropWhile isSpace = l := by
    intro l hl
    cases l with
    | nil => rfl
    | cons c l => simp [hl c (by simp)]
  unfold strip
  rw [String.toList_ofList, hdrop cs h, hdrop cs.reverse (by simpa using h), List.reverse_reverse]

theorem takeWhile_append_cons {p : Char → Bool} {xs ys : List Char} {c : Char}
    (h : ∀ x ∈ xs, p x = true) (hc : p c = false) :
    (xs ++ c :: ys).takeWhile p = xs ∧ (xs ++ c :: ys).dropWhile p = c :: ys := by
  induction xs with
  | nil => simp [hc]
  | cons x xs ih =>
    have hx := h x (by simp)
    obtain ⟨ht, hd⟩ := ih fun y hy => h y (by simp [hy])
    simp [hx, ht, hd]

theorem alphabet_no_space : ∀ c ∈ BASE62_ALPHABET, isSpace c = false := by
  have h : BASE62_ALPHABET.all (fun c => !isSpace c) = true := by
    rw [alphabet_eq]
    decide +kernel
  intro c hc
  simpa using List.all_eq_true.mp h c hc

theorem encode_base62_toList {sequence : Nat} (h : 0 < sequence) :
    (encode_base62 sequence).toList = encodeDigits sequence sequence ∧
      encodeDigits sequence sequence ≠ [] := by
  obtain ⟨c, rest, he, -⟩ := encodeDigits_head sequence sequence (Nat.le_refl _) h
  rw [encode_base62, if_neg (by omega), String.toList_ofList, he]
  exact ⟨rfl, by simp⟩

end Agently.Storage.Identity
