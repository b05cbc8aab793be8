import Agently.Lib.CutReader
import Agently.Lib.JsonText
import Agently.Utils.ObservedValues

/-! # The tokens of a document that may be cut

A token that has all its characters is read as it is; a string, a literal or a number that is
cut is not taken for a value. -/

namespace Agently.Utils.ObservedValues

open Agently.Lib Agently.Lib.JsonText Agently.Lib.CutReader
open Agently.TaskDAGValidation (isSpace)

def units : Text → Points
  | [] => []
  | c :: rest =>
    if c = '\\' then
      match rest with
      | [] => []
      | e :: rest =>
        if e = 'u' then
          match rest with
          | a :: b :: c :: d :: rest => (hex4? a b c d).getD 0 :: units rest
          | _ => []
        else (escape? e).getD 0 :: units rest
    else c.toNat :: units rest

def decoded (body : Text) : Points := joinPairs (units body)

variable {c : Char}

theorem hexDigit?_isSome (h : c.isDigit = true ∨ c ∈ "abcdefABCDEF".toList) :
    ∃ n, hexDigit? c = some n := by
  obtain h | h := h
  · exact ⟨_, by rw [hexDigit?, if_pos h]⟩
  · have hall : ∀ x ∈ "abcdefABCDEF".toList, (hexDigit? x).isSome = true :=
      List.forall_iff_forall_mem.mp (by decide)
    exact Option.isSome_iff_exists.mp (hall c h)

theorem escape?_isSome (h : c ∈ "\"\\/bfnrt".toList) :
    c ≠ 'u' ∧ ∃ n, escape? c = some n := by
  have hall : ∀ x ∈ "\"\\/bfnrt".toList, x ≠ 'u' ∧ (escape? x).isSome = true :=
    List.forall_iff_forall_mem.mp (by decide)
  exact ⟨(hall c h).1, Option.isSome_iff_exists.mp (hall c h).2⟩

theorem hex4?_isSome {a b d : Char}
    (h : ∀ x ∈ [a, b, c, d], x.isDigit = true ∨ x ∈ "abcdefABCDEF".toList) :
    ∃ n, hex4? a b c d = some n := by
  obtain ⟨a', ha⟩ := hexDigit?_isSome (h a (by simp))
  obtain ⟨b', hb⟩ := hexDigit?_isSome (h b (by simp))
  obtain ⟨c', hc⟩ := hexDigit?_isSome (h c (by simp))
  obtain ⟨d', hd⟩ := hexDigit?_isSome (h d (by simp))
  exact ⟨((a' * 16 + b') * 16 + c') * 16 + d', by simp [hex4?, ha, hb, hc, hd]⟩

def unitThen (u : Nat) (r : Option (Points × Text)) : Option (Points × Text) :=
  r.map fun r => (u :: r.1, r.2)

theorem scanUnits_char (hq : c ≠ '"') (hb : c ≠ '\\') (hn : 0x20 ≤ c.toNat)
    (rest : Text) : scanUnits (c :: rest) = unitThen c.toNat (scanUnits rest) := by
  have hlow : ¬ c.toNat < 0x20 := by omega
  rw [scanUnits.eq_def]
  simp only [if_neg hq, if_neg hb, if_neg hlow]
  cases scanUnits rest with
  | none => rfl
  | some r => rfl

theorem scanUnits_escape {e : Char} {u : Nat} (he : e ≠ 'u') (hu : escape? e = some u)
    (rest : Text) : scanUnits ('\\' :: e :: rest) = unitThen u (scanUnits rest) := by
  have hq : '\\' ≠ '"' := by decide
  rw [scanUnits.eq_def]
  simp only [if_neg hq, if_pos, if_neg he, hu]
  cases scanUnits rest with
  | none => rfl
  | some r => rfl

theorem scanUnits_unicode {a b d : Char} {u : Nat} (hu : hex4? a b c d = some u) (rest : Text) :
    scanUnits ('\\' :: 'u' :: a :: b :: c :: d :: rest) = unitThen u (scanUnits rest) := by
  have hq : '\\' ≠ '"' := by decide
  rw [scanUnits.eq_def]
  simp only [if_neg hq, if_pos, hu]
  cases scanUnits rest with
  | none => rfl
  | some r => rfl

theorem units_char (hb : c ≠ '\\') (rest : Text) :
    units (c :: rest) = c.toNat :: units rest := by
  rw [units.eq_def]
  simp only [if_neg hb]

theorem units_escape {e : Char} {u : Nat} (he : e ≠ 'u') (hu : escape? e = some u)
    (rest : Text) : units ('\\' :: e :: rest) = u :: units rest := by
  rw [units.eq_def]
  simp only [if_pos, if_neg he, hu, Option.getD_some]

theorem units_unicode {a b d : Char} {u : Nat} (hu : hex4? a b c d = some u) (rest : Text) :
    units ('\\' :: 'u' :: a :: b :: c :: d :: rest) = u :: units rest := by
  rw [units.eq_def]
  simp only [if_pos, hu, Option.getD_some]

variable {body : Text}

theorem scanUnits_body (h : Body body) (rest : Text) :
    scanUnits (body ++ '"' :: rest) = some (units body, rest) := by
  induction h with
  | nil =>
    rw [List.nil_append, scanUnits.eq_def]
    rfl
  | char hq hb hn _ ih =>
    rw [List.cons_append, scanUnits_char hq hb hn, units_char hb, ih]
    rfl
  | escape hc _ ih =>
    obtain ⟨he, u, hu⟩ := escape?_isSome hc
    rw [List.cons_append, List.cons_append, scanUnits_escape he hu, units_escape he hu, ih]
    rfl
  | unicode hx _ ih =>
    obtain ⟨u, hu⟩ := hex4?_isSome hx
    simp only [List.cons_append]
    rw [scanUnits_unicode hu, units_unicode hu, ih]
    rfl

theorem scanUnits_cut (h : Body body) {s : Text} (hs : s <+: body) :
    scanUnits s = none := by
  induction h generalizing s with
  | nil =>
    cases List.prefix_nil.mp hs
    rfl
  | char hq hb hn _ ih =>
    obtain rfl | ⟨s', rfl, hs'⟩ := List.prefix_cons_iff.mp hs
    · rfl
    · rw [scanUnits_char hq hb hn, ih hs']
      rfl
  | escape hc _ ih =>
    obtain ⟨he, u, hu⟩ := escape?_isSome hc
    obtain rfl | ⟨s₁, rfl, h₁⟩ := List.prefix_cons_iff.mp hs
    · rfl
    obtain rfl | ⟨s₂, rfl, h₂⟩ := List.prefix_cons_iff.mp h₁
    · rfl
    · rw [scanUnits_escape he hu, ih h₂]
      rfl
  | unicode hx _ ih =>
    obtain ⟨u, hu⟩ := hex4?_isSome hx
    obtain rfl | ⟨s₁, rfl, h₁⟩ := List.prefix_cons_iff.mp hs
    · rfl
    obtain rfl | ⟨s₂, rfl, h₂⟩ := List.prefix_cons_iff.mp h₁
    · rfl
    obtain rfl | ⟨s₃, rfl, h₃⟩ := List.prefix_cons_iff.mp h₂
    · rfl
    obtain rfl | ⟨s₄, rfl, h₄⟩ := List.prefix_cons_iff.mp h₃
    · rfl
    obtain rfl | ⟨s₅, rfl, h₅⟩ := List.prefix_cons_iff.mp h₄
    · rfl
    obtain rfl | ⟨s₆, rfl, h₆⟩ := List.prefix_cons_iff.mp h₅
    · rfl
    · rw [scanUnits_unicode hu, ih h₆]
      rfl

theorem scanstring_body (h : Body body) (rest : Text) :
    scanstring (body ++ '"' :: rest) = some (decoded body, rest) := by
  rw [scanstring, scanUnits_body h]
  rfl

theorem quoted_cases {k s : Text} (h : Body body) (hs : s <+: quoted body ++ k) :
    (s = [] ∨ ∃ s', s = '"' :: s' ∧ scanstring s' = none ∧ ¬ quoted body <+: s) ∨
      ∃ s', s = quoted body ++ s' ∧ s' <+: k := by
  have hall : quoted body ++ k = ('"' :: body) ++ '"' :: k := by simp [quoted]
  rw [hall] at hs
  obtain hcut | ⟨s', rfl, hs'⟩ := prefix_append_cases hs
  · left
    obtain rfl | ⟨s', rfl, hs'⟩ := List.prefix_cons_iff.mp hcut
    · exact .inl rfl
    · right
      refine ⟨s', rfl, by rw [scanstring, scanUnits_cut h hs']; rfl, fun hq => ?_⟩
      have hle := (hq.trans hcut).length_le
      simp only [quoted, List.length_cons, List.length_append, List.length_nil] at hle
      omega
  · obtain rfl | ⟨s'', rfl, hs''⟩ := List.prefix_cons_iff.mp hs'
    · left
      right
      refine ⟨body, by simp, by rw [scanstring, scanUnits_cut h List.prefix_rfl]; rfl, fun hq => ?_⟩
      have hle := hq.length_le
      simp only [quoted, List.length_cons, List.length_append, List.length_nil] at hle
      omega
    · exact .inr ⟨s'', by simp [quoted], hs''⟩

def NumberChar (c : Char) : Prop := c.isDigit = true ∨ c ∈ ['-', '+', '.', 'e', 'E']

def Stops (rest : Text) : Prop := ∀ c, rest.head? = some c → ¬ NumberChar c

theorem numberChar_plain (h : NumberChar c) : c ≠ '"' ∧ isSpace c = false ∧
    c ∉ ['n', 't', 'f', 'N', 'I'] ∧ c ∉ ['{', '['] ∧ c ∉ [',', ']', '}'] := by
  obtain h | h := h
  · have hall : ∀ x ∈ ['"', 'n', 't', 'f', 'N', 'I', '{', '[', ',', ']', '}'], x.isDigit = false :=
      List.forall_iff_forall_mem.mp (by decide)
    have hnot : ∀ x ∈ ['"', 'n', 't', 'f', 'N', 'I', '{', '[', ',', ']', '}'], c ≠ x := by
      intro x hx hc
      have hd := hall x hx
      rw [← hc, h] at hd
      cases hd
    simp only [List.forall_mem_cons] at hnot
    refine ⟨hnot.1, IntText.isSpace_of_isDigit h, ?_, ?_, ?_⟩
    all_goals simp [hnot]
  · have hall : ∀ x ∈ ['-', '+', '.', 'e', 'E'], x ≠ '"' ∧ isSpace x = false ∧
        x ∉ ['n', 't', 'f', 'N', 'I'] ∧ x ∉ ['{', '['] ∧ x ∉ [',', ']', '}'] :=
      List.forall_iff_forall_mem.mp (by decide)
    exact hall c h

variable {rest : Text}

theorem scanDigits_append {ds : Text} (hd : ∀ c ∈ ds, c.isDigit = true)
    (hr : ∀ c, rest.head? = some c → c.isDigit = false) : scanDigits (ds ++ rest) = (ds, rest) := by
  have hrest : rest.takeWhile Char.isDigit = [] ∧ rest.dropWhile Char.isDigit = rest := by
    cases rest with
    | nil => exact ⟨rfl, rfl⟩
    | cons c rest =>
      have hc : ¬ c.isDigit = true := by simp [hr c rfl]
      exact ⟨List.takeWhile_cons_of_neg hc, List.dropWhile_cons_of_neg hc⟩
  rw [scanDigits, List.takeWhile_append_of_pos hd, List.dropWhile_append_of_pos hd, hrest.1,
    hrest.2, List.append_nil]

theorem Stops.isDigit (h : Stops rest) (hc : rest.head? = some c) :
    c.isDigit = false := by
  have hno := h c hc
  rw [NumberChar, not_or] at hno
  simpa using hno.1

variable {exponent : Text}

theorem scanExponent_append (hr : Stops rest)
    (h : exponent = [] ∨ ∃ e s ds, exponent = e :: (s ++ ds) ∧ (e = 'e' ∨ e = 'E') ∧
      (s = [] ∨ s = ['+'] ∨ s = ['-']) ∧ Digits ds) :
    scanExponent (exponent ++ rest) = (exponent, rest) := by
  obtain rfl | ⟨e, s, ds, rfl, he, hs, hne, hd⟩ := h
  · cases rest with
    | nil => rfl
    | cons c rest =>
      have hno : ¬ (c = 'e' ∨ c = 'E') := by
        have hc := hr c rfl
        rw [NumberChar, not_or] at hc
        rintro (rfl | rfl)
        · exact hc.2 (by decide)
        · exact hc.2 (by decide)
      rw [List.nil_append, scanExponent, if_neg (fun hb => hno hb.1)]
  · have hdigits := scanDigits_append hd fun c hc => hr.isDigit hc
    have hsign : scanSign (s ++ (ds ++ rest)) = (s, ds ++ rest) := by
      obtain rfl | rfl | rfl := hs
      · obtain ⟨d, ds, rfl⟩ := List.exists_cons_of_ne_nil hne
        have hdig := hd d List.mem_cons_self
        have hno : ¬ (d = '+' ∨ d = '-') := by
          rintro (rfl | rfl)
          · cases hdig
          · cases hdig
        rw [List.nil_append, List.cons_append, scanSign, if_neg hno]
      · rfl
      · rfl
    rw [List.cons_append, List.append_assoc, scanExponent, hsign, hdigits, if_pos ⟨he, hne⟩]

variable {fraction : Text}

theorem scanFraction_append (hr : ∀ c, rest.head? = some c → c.isDigit = false ∧ c ≠ '.')
    (h : fraction = [] ∨ ∃ ds, fraction = '.' :: ds ∧ Digits ds) :
    scanFraction (fraction ++ rest) = (fraction, rest) := by
  obtain rfl | ⟨ds, rfl, hne, hd⟩ := h
  · cases rest with
    | nil => rfl
    | cons c rest =>
      have hc := (hr c rfl).2
      rw [List.nil_append, scanFraction, if_neg (fun hb => hc hb.1)]
  · have hdigits := scanDigits_append hd fun c hc => (hr c hc).1
    rw [List.cons_append, scanFraction, hdigits, if_pos ⟨rfl, hne⟩]

variable {whole : Text}

theorem scanWhole_append (hr : ∀ c, rest.head? = some c → c.isDigit = false)
    (h : whole = ['0'] ∨ Digits whole ∧ whole.head? ≠ some '0') :
    scanWhole (whole ++ rest) = some (whole, rest) := by
  obtain rfl | ⟨⟨hne, hd⟩, hzero⟩ := h
  · rfl
  · obtain ⟨c, ds, rfl⟩ := List.exists_cons_of_ne_nil hne
    have hc : c ≠ '0' := by simpa using hzero
    have hdigits := scanDigits_append (fun x hx => hd x (List.mem_cons_of_mem c hx)) hr
    rw [List.cons_append, scanWhole, if_neg hc, if_pos (hd c List.mem_cons_self), hdigits]

/-- An integer with more digits than `int()` takes. -/
def longInteger (w : Text) : Bool :=
  (w.all fun c => c.isDigit || c == '-') &&
    decide (int_max_str_digits < (w.filter Char.isDigit).length)

theorem longInteger_number {sign : Text} (h : IsNumber sign whole fraction exponent) :
    longInteger (sign ++ (whole ++ (fraction ++ exponent))) =
      decide (fraction = [] ∧ exponent = [] ∧ int_max_str_digits < whole.length) := by
  have hwhole : ∀ c ∈ whole, c.isDigit = true := by
    obtain rfl | ⟨⟨-, hd⟩, -⟩ := h.whole
    · intro c hc
      rw [List.mem_singleton.mp hc]
      rfl
    · exact hd
  have hsign : sign.all (fun c => c.isDigit || c == '-') = true ∧
      sign.filter Char.isDigit = [] := by
    obtain hs | hs := h.sign
    · rw [hs]
      exact ⟨rfl, rfl⟩
    · rw [hs]
      exact ⟨rfl, rfl⟩
  have hall : whole.all (fun c => c.isDigit || c == '-') = true := by
    rw [List.all_eq_true]
    intro c hc
    rw [hwhole c hc]
    rfl
  have hfilter : whole.filter Char.isDigit = whole := List.filter_eq_self.mpr hwhole
  rw [longInteger]
  obtain rfl | ⟨ds, rfl, -⟩ := h.fraction
  · obtain rfl | ⟨e, s, ds, rfl, he, -⟩ := h.exponent
    · simp only [List.all_append, List.filter_append, hsign, hall, hfilter]
      simp
    · have hexp : (e.isDigit || e == '-') = false := by
        obtain rfl | rfl := he <;> rfl
      simp [hexp]
  · simp

theorem scanUnsigned_append (hr : Stops rest)
    (hw : whole = ['0'] ∨ Digits whole ∧ whole.head? ≠ some '0')
    (hf : fraction = [] ∨ ∃ ds, fraction = '.' :: ds ∧ Digits ds)
    (he : exponent = [] ∨ ∃ e s ds, exponent = e :: (s ++ ds) ∧ (e = 'e' ∨ e = 'E') ∧
      (s = [] ∨ s = ['+'] ∨ s = ['-']) ∧ Digits ds) :
    scanUnsigned (whole ++ (fraction ++ (exponent ++ rest))) =
      if fraction = [] ∧ exponent = [] ∧ int_max_str_digits < whole.length then none
      else some (whole ++ (fraction ++ exponent), rest) := by
  have hexp : ∀ c, (exponent ++ rest).head? = some c → c.isDigit = false ∧ c ≠ '.' := by
    intro c hc
    obtain rfl | ⟨e, s, ds, rfl, he, -⟩ := he
    · refine ⟨hr.isDigit hc, ?_⟩
      rintro rfl
      exact hr '.' hc (.inr (by decide))
    · cases hc
      obtain rfl | rfl := he
      · exact ⟨rfl, by decide⟩
      · exact ⟨rfl, by decide⟩
  have hfrac : ∀ c, (fraction ++ (exponent ++ rest)).head? = some c → c.isDigit = false := by
    intro c hc
    obtain rfl | ⟨ds, rfl, -⟩ := hf
    · exact (hexp c hc).1
    · cases hc
      rfl
  rw [scanUnsigned, scanWhole_append hfrac hw]
  simp only [scanFraction_append hexp hf, scanExponent_append hr he]

theorem scanNumber_append {sign : Text} (hr : Stops rest)
    (h : IsNumber sign whole fraction exponent) :
    scanNumber (sign ++ (whole ++ (fraction ++ exponent)) ++ rest) =
      if longInteger (sign ++ (whole ++ (fraction ++ exponent))) then none
      else some (sign ++ (whole ++ (fraction ++ exponent)), rest) := by
  have hscan := scanUnsigned_append hr h.whole h.fraction h.exponent
  have hassoc : whole ++ (fraction ++ exponent) ++ rest =
      whole ++ (fraction ++ (exponent ++ rest)) := by simp only [List.append_assoc]
  simp only [longInteger_number h, decide_eq_true_eq]
  obtain rfl | rfl := h.sign
  · have hhead : ∃ c ds, whole = c :: ds ∧ c ≠ '-' := by
      obtain rfl | ⟨⟨hne, hd⟩, -⟩ := h.whole
      · exact ⟨'0', [], rfl, by decide⟩
      · obtain ⟨c, ds, rfl⟩ := List.exists_cons_of_ne_nil hne
        refine ⟨c, ds, rfl, ?_⟩
        rintro rfl
        cases hd '-' List.mem_cons_self
    obtain ⟨c, ds, rfl, hc⟩ := hhead
    rw [List.nil_append, hassoc, List.cons_append, scanNumber, if_neg hc, ← List.cons_append, hscan]
  · rw [List.append_assoc, hassoc, List.singleton_append, scanNumber, if_pos rfl, hscan]
    split <;> rfl

theorem scanDigits_suffix (text : Text) : (scanDigits text).2 <:+ text :=
  List.dropWhile_suffix _

variable {text : Text}

theorem scanWhole_suffix (h : scanWhole text = some (whole, rest)) :
    rest <:+ text := by
  cases text with
  | nil => cases h
  | cons c text =>
    rw [scanWhole] at h
    split_ifs at h
    · cases h
      exact List.suffix_cons _ _
    · cases h
      exact (scanDigits_suffix text).trans (List.suffix_cons c text)

theorem scanFraction_suffix (text : Text) : (scanFraction text).2 <:+ text := by
  cases text with
  | nil => exact List.suffix_rfl
  | cons c text =>
    rw [scanFraction]
    split
    · exact (scanDigits_suffix text).trans (List.suffix_cons c text)
    · exact List.suffix_rfl

theorem scanSign_suffix (text : Text) : (scanSign text).2 <:+ text := by
  cases text with
  | nil => exact List.suffix_rfl
  | cons c text =>
    rw [scanSign]
    split
    · exact List.suffix_cons c text
    · exact List.suffix_rfl

theorem scanExponent_suffix (text : Text) : (scanExponent text).2 <:+ text := by
  cases text with
  | nil => exact List.suffix_rfl
  | cons c text =>
    rw [scanExponent]
    split
    · exact ((scanDigits_suffix _).trans (scanSign_suffix text)).trans (List.suffix_cons c text)
    · exact List.suffix_rfl

theorem scanUnsigned_suffix {w : Text} (h : scanUnsigned text = some (w, rest)) :
    rest <:+ text := by
  rw [scanUnsigned] at h
  cases hw : scanWhole text with
  | none =>
    rw [hw] at h
    cases h
  | some r =>
    rw [hw] at h
    simp only at h
    split at h
    · cases h
    · cases h
      exact ((scanExponent_suffix _).trans (scanFraction_suffix _)).trans (scanWhole_suffix hw)

theorem scanNumber_suffix {w : Text} (h : scanNumber text = some (w, rest)) :
    rest <:+ text := by
  cases text with
  | nil => cases h
  | cons c text =>
    rw [scanNumber] at h
    split at h
    · obtain ⟨r, hr, he⟩ := Option.map_eq_some_iff.mp h
      cases he
      exact (scanUnsigned_suffix hr).trans (List.suffix_cons c text)
    · exact scanUnsigned_suffix h

theorem constants_none (hc : c ∉ ['n', 't', 'f', 'N', 'I']) (ht : c = '-' → text.head? ≠ some 'I') :
    (constants.find? fun k => k.1.isPrefixOf (c :: text)) = none := by
  simp only [List.mem_cons, List.not_mem_nil, or_false, not_or] at hc
  have hne : ∀ {x : Char}, c ≠ x → (x == c) = false := fun h => by simp [Ne.symm h]
  have hminus : '-' = c → ¬ ['I', 'n', 'f', 'i', 'n', 'i', 't', 'y'] <+: text := by
    intro hd hp
    obtain ⟨rest, rfl⟩ := hp
    exact ht hd.symm rfl
  simp [constants, List.isPrefixOf, hne hc.1, hne hc.2.1, hne hc.2.2.1, hne hc.2.2.2.1,
    hne hc.2.2.2.2]
  exact hminus

theorem parse_scalar_cut (h : ∀ c ∈ text, NumberChar c) (parts : List Part) :
    parse_scalar parts text = ([], none) := by
  cases text with
  | nil => rfl
  | cons c text =>
    obtain ⟨hq, -, hc, -⟩ := numberChar_plain (h c List.mem_cons_self)
    have hhead : c = '-' → text.head? ≠ some 'I' := by
      intro _ hi
      have hmem := List.mem_of_head? hi
      exact (numberChar_plain (h 'I' (List.mem_cons_of_mem c hmem))).2.2.1 (by simp)
    rw [parse_scalar, raw_decode, if_neg hq, constants_none hc hhead]
    cases hn : scanNumber (c :: text) with
    | none => rfl
    | some r =>
      obtain ⟨w, rest⟩ := r
      have hsub := (scanNumber_suffix hn).subset
      simp only [Option.map_some]
      rw [if_neg]
      cases rest with
      | nil => simp [bounded]
      | cons d rest =>
        obtain ⟨-, hs, -, -, hb⟩ := numberChar_plain (h d (hsub List.mem_cons_self))
        have hno : ¬ isSpace d = true := by simp [hs]
        rw [bounded, List.dropWhile_cons_of_neg hno]
        simpa using hb

end Agently.Utils.ObservedValues
