import Agently.TaskWorkspace.Identity
import Agently.Utils.Utf8

/-! # Edits of a text file

Source: `TaskWorkspace/TaskWorkspace.py` (`edit_file`, `_atomic_replace_file_content`), with the
text mode of POSIX: every line end is read as a line feed, and a line feed is written as it is. -/

namespace Agently.TaskWorkspace.Edits

open Agently.Utils
open Agently.TaskDAGValidation (strip)

inductive CodePoint where
  | scalar (c : Char)
  | surrogate (n : Fin 2048)
deriving DecidableEq

abbrev Text := List CodePoint

def chars? : Text → Option (List Char)
  | [] => some []
  | .scalar c :: t => (chars? t).map (c :: ·)
  | .surrogate _ :: _ => none

def ofChars (cs : List Char) : Text := cs.map .scalar

/-- `str.encode("utf-8")`, which fails on a surrogate. -/
def encode (t : Text) : Option (List Utf8.Byte) := (chars? t).map Utf8.encode

/-- Line ends read as line feeds; `cr` says that the last character was a carriage return. -/
def universalFrom : Bool → List Char → List Char
  | _, [] => []
  | cr, c :: cs =>
    if c = '\r' then '\n' :: universalFrom true cs
    else if c = '\n' ∧ cr = true then universalFrom false cs
    else c :: universalFrom false cs

def universal (cs : List Char) : List Char := universalFrom false cs

def read_text (raw : List Utf8.Byte) : Option Text :=
  if Utf8.encode (Utf8.decode raw) = raw then some (ofChars (universal (Utf8.decode raw))) else none

def contains (old : Text) : Text → Bool
  | [] => old.isEmpty
  | c :: cs => old.isPrefixOf (c :: cs) || contains old cs

/-- The matches of a text that is not empty, from the left; `skip` characters belong to the last
one. -/
def countFrom (old : Text) : Nat → Text → Nat
  | _, [] => 0
  | skip + 1, _ :: cs => countFrom old skip cs
  | 0, c :: cs =>
    if old.isPrefixOf (c :: cs) then countFrom old (old.length - 1) cs + 1
    else countFrom old 0 cs

def count (old t : Text) : Nat := if old = [] then t.length + 1 else countFrom old 0 t

def replaceFrom (old new : Text) : Nat → Text → Text
  | _, [] => []
  | skip + 1, _ :: cs => replaceFrom old new skip cs
  | 0, c :: cs =>
    if old.isPrefixOf (c :: cs) then new ++ replaceFrom old new (old.length - 1) cs
    else c :: replaceFrom old new 0 cs

def replaceOnce (old new : Text) : Text → Text
  | [] => []
  | c :: cs =>
    if old.isPrefixOf (c :: cs) then new ++ (c :: cs).drop old.length
    else c :: replaceOnce old new cs

def replace (old new t : Text) (replace_all : Bool) : Text :=
  if old = [] then
    if replace_all then t.flatMap (fun c => new ++ [c]) ++ new else new ++ t
  else if replace_all then replaceFrom old new 0 t
  else replaceOnce old new t

inductive EditError where
  | refused (message : String)
  | fileNotFound (message : String)
  | valueError (message : String)
  | unicodeDecode
  | unicodeEncode

structure TaskWorkspaceFileWrite where
  bytes : Nat
  sha256 : String
  replacements : Nat

abbrev File := Option (List Utf8.Byte)

variable (sha256 : List Utf8.Byte → String)

/-- `checks` are those of the path and the mode, which write nothing. -/
def edit_file (checks : Except EditError Unit) (path : String) (file : File) (old new : Text)
    (replace_all : Bool) (expected_sha256 : String) : File × Except EditError TaskWorkspaceFileWrite :=
  match checks, file with
  | .error e, _ => (file, .error e)
  | .ok _, none => (file, .error (.fileNotFound ("TaskWorkspace file not found: " ++ path)))
  | .ok _, some raw =>
    if expected_sha256 ≠ "" ∧ sha256 raw ≠ expected_sha256 then
      (file, .error (.valueError "TaskWorkspace file has changed since the expected sha256."))
    else
      match read_text raw with
      | none => (file, .error .unicodeDecode)
      | some text =>
        if contains old text = false then
          (file, .error (.valueError "old_string was not found in the TaskWorkspace file."))
        else if replace_all = false ∧ count old text ≠ 1 then
          (file, .error (.valueError
            "old_string is not unique; pass replace_all=True to replace every match."))
        else
          match encode (replace old new text replace_all) with
          -- the file is open for writing, and empty, when the text is encoded
          | none => (some [], .error .unicodeEncode)
          | some data =>
            (some data, .ok
              { bytes := data.length
                sha256 := sha256 data
                replacements := if replace_all then count old text else 1 })

/-- `meanwhile` is the file when it is looked at again, just before it is replaced. -/
def atomic_replace_file_content (checks : Except EditError Unit) (path : String)
    (file meanwhile : File) (content : Text) (expected_sha256 : String) (replacements : Int) :
    File × Except EditError TaskWorkspaceFileWrite :=
  match checks, file with
  | .error e, _ => (file, .error e)
  | .ok _, none => (file, .error (.fileNotFound ("TaskWorkspace file not found: " ++ path)))
  | .ok _, some raw =>
    let expected := Identity.lower (strip expected_sha256)
    if Identity.is_sha256 expected = false then
      (file, .error (.valueError "expected_sha256 must be a SHA-256 digest."))
    else if sha256 raw ≠ expected then
      (file, .error (.valueError "TaskWorkspace file has changed since the expected sha256."))
    else
      match encode content with
      | none => (file, .error .unicodeEncode)
      | some data =>
        match meanwhile with
        | none => (meanwhile, .error (.fileNotFound path))
        | some raw =>
          if sha256 raw ≠ expected then
            (meanwhile, .error
              (.valueError "TaskWorkspace file changed before atomic replacement."))
          else
            (some data, .ok
              { bytes := data.length
                sha256 := sha256 data
                replacements := (max 0 replacements).toNat })

section Matches

variable {old new : Text}

def FirstAt (old t before after : Text) : Prop :=
  t = before ++ old ++ after ∧ ∀ b a, t = b ++ old ++ a → before.length ≤ b.length

theorem contains_iff (t : Text) : contains old t = true ↔ ∃ b a, t = b ++ old ++ a := by
  induction t with
  | nil =>
    rw [contains, List.isEmpty_iff]
    constructor
    · rintro rfl
      exact ⟨[], [], rfl⟩
    · rintro ⟨b, a, h⟩
      simp at h
      exact h.2.1
  | cons c cs ih =>
    rw [contains, Bool.or_eq_true, List.isPrefixOf_iff_prefix, ih]
    constructor
    · rintro (⟨a, h⟩ | ⟨b, a, rfl⟩)
      · exact ⟨[], a, h.symm⟩
      · exact ⟨c :: b, a, rfl⟩
    · rintro ⟨b, a, h⟩
      cases b with
      | nil => exact Or.inl ⟨a, h.symm⟩
      | cons x b =>
        injection h with hx hcs
        exact Or.inr ⟨b, a, hcs⟩

theorem countFrom_skip (skip : Nat) (t : Text) :
    countFrom old skip t = countFrom old 0 (t.drop skip) := by
  induction t generalizing skip with
  | nil => cases skip <;> rfl
  | cons c cs ih =>
    cases skip with
    | zero => rfl
    | succ skip => exact ih skip

theorem replaceFrom_skip (skip : Nat) (t : Text) :
    replaceFrom old new skip t = replaceFrom old new 0 (t.drop skip) := by
  induction t generalizing skip with
  | nil => cases skip <;> rfl
  | cons c cs ih =>
    cases skip with
    | zero => rfl
    | succ skip => exact ih skip

theorem first_match (new : Text) (h0 : old ≠ []) {t : Text} (h : ∃ b a, t = b ++ old ++ a) :
    ∃ before after, FirstAt old t before after ∧ countFrom old 0 t = countFrom old 0 after + 1 ∧
      replaceFrom old new 0 t = before ++ new ++ replaceFrom old new 0 after ∧
      replaceOnce old new t = before ++ new ++ after := by
  induction t with
  | nil =>
    obtain ⟨b, a, h⟩ := h
    simp at h
    exact absurd h.2.1 h0
  | cons c cs ih =>
    rw [countFrom, replaceFrom, replaceOnce]
    by_cases hp : old.isPrefixOf (c :: cs) = true
    · obtain ⟨after, ha⟩ := List.isPrefixOf_iff_prefix.mp hp
      have hdrop : cs.drop (old.length - 1) = after := by
        cases old with
        | nil => exact absurd rfl h0
        | cons x old =>
          injection ha with hx hcs
          rw [← hcs, List.length_cons, Nat.add_sub_cancel]
          exact List.drop_left
      refine ⟨[], after, ⟨ha.symm, fun b a _ => Nat.zero_le _⟩, ?_, ?_, ?_⟩
      · rw [if_pos hp, countFrom_skip, hdrop]
      · rw [if_pos hp, replaceFrom_skip, hdrop]
        rfl
      · rw [if_pos hp, ← ha, List.drop_left]
        rfl
    · have hcs : ∃ b a, cs = b ++ old ++ a := by
        obtain ⟨b, a, h⟩ := h
        cases b with
        | nil => exact absurd (List.isPrefixOf_iff_prefix.mpr ⟨a, h.symm⟩) hp
        | cons x b =>
          injection h with hx hcs
          exact ⟨b, a, hcs⟩
      obtain ⟨before, after, ⟨hsplit, hfirst⟩, hcount, hall, honce⟩ := ih hcs
      rw [if_neg hp, if_neg hp, if_neg hp, hcount, hall, honce]
      refine ⟨c :: before, after, ⟨by rw [hsplit]; rfl, ?_⟩, rfl, rfl, rfl⟩
      intro b a hb
      cases b with
      | nil => exact absurd (List.isPrefixOf_iff_prefix.mpr ⟨a, hb.symm⟩) hp
      | cons x b =>
        injection hb with hx hb
        exact Nat.succ_le_succ (hfirst b a hb)

inductive Replaced (old new : Text) : Text → Text → Prop where
  | done (t : Text) (h : ∀ b a, t ≠ b ++ old ++ a) : Replaced old new t t
  | next (t before after rest : Text) (h : FirstAt old t before after)
      (hr : Replaced old new after rest) : Replaced old new t (before ++ new ++ rest)

theorem replaceFrom_eq_self {t : Text} (h : ∀ b a, t ≠ b ++ old ++ a) :
    replaceFrom old new 0 t = t := by
  induction t with
  | nil => rfl
  | cons c cs ih =>
    rw [replaceFrom, if_neg, ih fun b a hb => h (c :: b) a (by rw [hb]; rfl)]
    intro hp
    obtain ⟨a, ha⟩ := List.isPrefixOf_iff_prefix.mp hp
    exact h [] a ha.symm

theorem replaced (h0 : old ≠ []) (n : Nat) : ∀ t : Text, t.length < n →
    Replaced old new t (replaceFrom old new 0 t) := by
  induction n with
  | zero => exact fun t ht => absurd ht (Nat.not_lt_zero _)
  | succ n ih =>
    intro t ht
    by_cases h : ∃ b a, t = b ++ old ++ a
    · obtain ⟨before, after, hfirst, -, hall, -⟩ := first_match new h0 h
      rw [hall]
      refine .next t before after _ hfirst (ih after ?_)
      have hl := congrArg List.length hfirst.1
      have hpos := List.length_pos_iff.mpr h0
      rw [List.length_append, List.length_append] at hl
      omega
    · have hno : ∀ b a, t ≠ b ++ old ++ a := fun b a hb => h ⟨b, a, hb⟩
      rw [replaceFrom_eq_self hno]
      exact .done t hno

def Apart (old t : Text) : Prop :=
  ∀ b a b' a', t = b ++ old ++ a → t = b' ++ old ++ a' → b.length < b'.length →
    b.length + old.length ≤ b'.length

def OnlyAt (old t before after : Text) : Prop :=
  t = before ++ old ++ after ∧ ∀ b a, t = b ++ old ++ a → b = before

theorem only_match (new : Text) {t : Text} (hc : contains old t = true)
    (h1 : count old t = 1) (hapart : Apart old t) : ∃ before after, OnlyAt old t before after ∧
      replace old new t false = before ++ new ++ after := by
  have hlen : ∀ b a b' a', t = b ++ old ++ a → t = b' ++ old ++ a' → b.length = b'.length →
      b' = b := by
    intro b a b' a' hb hb' hl
    rw [List.append_assoc] at hb hb'
    exact (List.append_inj_left (hb'.symm.trans hb) hl.symm)
  unfold count at h1
  by_cases h0 : old = []
  · rw [if_pos h0] at h1
    have ht : t = [] := List.length_eq_zero_iff.mp (by omega)
    refine ⟨[], [], ⟨by rw [ht, h0]; rfl, ?_⟩, by rw [replace, if_pos h0, ht]; simp⟩
    intro b a hb
    rw [ht] at hb
    simp at hb
    exact hb.1
  · rw [if_neg h0] at h1
    obtain ⟨before, after, hfirst, hcount, -, honce⟩ :=
      first_match new h0 ((contains_iff t).mp hc)
    refine ⟨before, after, ⟨hfirst.1, ?_⟩, ?_⟩
    · intro b a hb
      rcases Nat.eq_or_lt_of_le (hfirst.2 b a hb) with he | hlt
      · exact hlen before after b a hfirst.1 hb he
      · -- a later match leaves a second one to count
        have hfar := hapart before after b a hfirst.1 hb hlt
        have hafter : ∃ b' a', after = b' ++ old ++ a' := by
          have hd := congrArg (List.drop (before.length + old.length)) (hfirst.1.symm.trans hb)
          rw [← List.length_append, List.drop_left, List.append_assoc b, List.drop_append_of_le_length
            (by rw [List.length_append]; exact hfar)] at hd
          exact ⟨_, a, hd.trans (List.append_assoc ..).symm⟩
        obtain ⟨_, _, -, hmore, -⟩ := first_match new h0 hafter
        omega
    · rw [replace, if_neg h0, if_neg Bool.false_ne_true, honce]

end Matches

theorem universalFrom_no_return (cr : Bool) (cs : List Char) : '\r' ∉ universalFrom cr cs := by
  induction cs generalizing cr with
  | nil => exact List.not_mem_nil
  | cons c cs ih =>
    rw [universalFrom]
    split
    · simpa using ih true
    · next hc =>
      split
      · exact ih false
      · simpa [eq_comm, hc] using ih false

theorem universal_eq_self {cs : List Char} (h : '\r' ∉ cs) : universal cs = cs := by
  unfold universal
  induction cs with
  | nil => rfl
  | cons c cs ih =>
    rw [List.mem_cons, not_or] at h
    rw [universalFrom, if_neg fun he => h.1 he.symm, if_neg (by simp), ih h.2]

theorem read_text_encode (cs : List Char) :
    read_text (Utf8.encode cs) = some (ofChars (universal cs)) := by
  have hd : Utf8.decode (Utf8.encode cs) = cs := Utf8.utf8.decode_text cs
  rw [read_text, hd, if_pos rfl]

theorem chars?_eq_some_iff {t : Text} {cs : List Char} : chars? t = some cs ↔ t = ofChars cs := by
  induction t generalizing cs with
  | nil => cases cs <;> simp [chars?, ofChars]
  | cons c t ih =>
    cases c with
    | surrogate n => cases cs <;> simp [chars?, ofChars]
    | scalar c =>
      cases cs with
      | nil => simp [chars?, ofChars]
      | cons d ds =>
        have hi := @ih ds
        simp only [ofChars] at hi
        simp [chars?, ofChars, hi, and_comm]

theorem encode_eq_some_iff {t : Text} {data : List Utf8.Byte} :
    encode t = some data ↔ ∃ cs, t = ofChars cs ∧ Utf8.encode cs = data := by
  simp only [encode, Option.map_eq_some_iff, chars?_eq_some_iff]

def Encodable (t : Text) : Prop := ∃ cs, t = ofChars cs

theorem encodable_append {s t : Text} : Encodable (s ++ t) ↔ Encodable s ∧ Encodable t := by
  constructor
  · rintro ⟨cs, h⟩
    obtain ⟨xs, ys, -, hx, hy⟩ := List.map_eq_append_iff.mp h.symm
    exact ⟨⟨xs, hx.symm⟩, ⟨ys, hy.symm⟩⟩
  · rintro ⟨⟨xs, rfl⟩, ⟨ys, rfl⟩⟩
    exact ⟨xs ++ ys, by simp [ofChars]⟩

theorem encode_of_encodable {t : Text} (h : Encodable t) : ∃ data, encode t = some data := by
  obtain ⟨cs, h⟩ := h
  exact ⟨_, encode_eq_some_iff.mpr ⟨cs, h, rfl⟩⟩

theorem encodable_of_encode {t : Text} {data : List Utf8.Byte} (h : encode t = some data) :
    Encodable t := by
  obtain ⟨cs, h, -⟩ := encode_eq_some_iff.mp h
  exact ⟨cs, h⟩

theorem encodable_replaceFrom {old new : Text} (hn : Encodable new) (skip : Nat) {t : Text}
    (ht : Encodable t) : Encodable (replaceFrom old new skip t) := by
  induction t generalizing skip with
  | nil => cases skip <;> exact ⟨[], rfl⟩
  | cons c t ih =>
    obtain ⟨hc, ht⟩ := encodable_append.mp (show Encodable ([c] ++ t) from ht)
    cases skip with
    | succ skip => exact ih skip ht
    | zero =>
      rw [replaceFrom]
      split
      · exact encodable_append.mpr ⟨hn, ih _ ht⟩
      · exact @encodable_append [c] _ |>.mpr ⟨hc, ih 0 ht⟩

theorem encodable_flatMap {new : Text} (hn : Encodable new) {t : Text} (ht : Encodable t) :
    Encodable (t.flatMap fun c => new ++ [c]) := by
  induction t with
  | nil => exact ⟨[], rfl⟩
  | cons c t ih =>
    obtain ⟨hc, ht⟩ := encodable_append.mp (show Encodable ([c] ++ t) from ht)
    exact encodable_append.mpr ⟨encodable_append.mpr ⟨hn, hc⟩, ih ht⟩

/-- The edit is turned down before anything is written; `t` is the text that is searched. -/
def Refused (checks : Except EditError Unit) (raw : List Utf8.Byte) (t old : Text)
    (replace_all : Bool) (expected_sha256 : String) : Prop :=
  (∃ e, checks = .error e) ∨ (expected_sha256 ≠ "" ∧ sha256 raw ≠ expected_sha256) ∨
    contains old t = false ∨ (replace_all = false ∧ count old t ≠ 1)

/-- The file after an edit: as it was if the edit has failed, else with the match, or with every
match, replaced. -/
def Exact (raw : List Utf8.Byte) (cs : List Char) (old new : Text) (replace_all : Bool)
    (outcome : File × Except EditError TaskWorkspaceFileWrite) : Prop :=
  match outcome.2 with
  | .error _ => outcome.1 = some raw
  | .ok _ =>
    ∃ t data, encode t = some data ∧ outcome.1 = some data ∧
      if replace_all = false then
        ∃ before after, OnlyAt old (ofChars cs) before after ∧ t = before ++ new ++ after
      else if old = [] then t = (ofChars cs).flatMap (fun c => new ++ [c]) ++ new
      else Replaced old new (ofChars cs) t

section Exact

variable {sha256} {checks : Except EditError Unit} {cs : List Char} {old new : Text}
  {replace_all : Bool} {expected_sha256 : String} (path : String)

theorem edit_refused (new : Text)
    (h : Refused sha256 checks (Utf8.encode cs) (ofChars (universal cs)) old replace_all
      expected_sha256) :
    ∃ e, edit_file sha256 checks path (some (Utf8.encode cs)) old new replace_all
      expected_sha256 = (some (Utf8.encode cs), .error e) := by
  unfold edit_file
  cases checks with
  | error e => exact ⟨e, rfl⟩
  | ok u =>
    simp only [read_text_encode]
    split
    · exact ⟨_, rfl⟩
    · next hdigest =>
      split
      · exact ⟨_, rfl⟩
      · next hfound =>
        split
        · exact ⟨_, rfl⟩
        · next hcount =>
          rcases h with ⟨e, he⟩ | h | h | h
          · cases he
          · exact absurd h hdigest
          · exact absurd h hfound
          · exact absurd h hcount

theorem edit_taken (h : ¬ Refused sha256 checks (Utf8.encode cs) (ofChars (universal cs)) old
    replace_all expected_sha256) : edit_file sha256 checks path (some (Utf8.encode cs)) old new
      replace_all expected_sha256 =
        match encode (replace old new (ofChars (universal cs)) replace_all) with
        | none => (some [], .error .unicodeEncode)
        | some data => (some data, .ok
            { bytes := data.length
              sha256 := sha256 data
              replacements :=
                if replace_all then count old (ofChars (universal cs)) else 1 }) := by
  simp only [Refused, not_or] at h
  obtain ⟨hchecks, hdigest, hfound, hcount⟩ := h
  cases checks with
  | error e => exact absurd ⟨e, rfl⟩ hchecks
  | ok u => simp only [edit_file, read_text_encode, if_neg hdigest, if_neg hfound, if_neg hcount]

theorem exact_of_plain (hcr : '\r' ∉ cs) (hnew : Encodable new ∨ cs = [])
    (hapart : replace_all = false → Apart old (ofChars cs)) :
    Exact (Utf8.encode cs) cs old new replace_all (edit_file sha256 checks path
      (some (Utf8.encode cs)) old new replace_all expected_sha256) := by
  by_cases hr : Refused sha256 checks (Utf8.encode cs) (ofChars (universal cs)) old replace_all
      expected_sha256
  · obtain ⟨e, he⟩ := edit_refused path _ hr
    rw [he]
    exact rfl
  · rw [edit_taken path hr]
    simp only [Refused, not_or, universal_eq_self hcr, Bool.not_eq_false, not_and, not_not] at hr ⊢
    obtain ⟨-, -, hfound, hcount⟩ := hr
    cases hdata : encode (replace old new (ofChars cs) replace_all) with
    | some data =>
      refine ⟨_, data, hdata, rfl, ?_⟩
      cases replace_all with
      | false =>
        obtain ⟨before, after, honly, hreplace⟩ :=
          only_match new hfound (hcount rfl) (hapart rfl)
        exact ⟨before, after, honly, hreplace⟩
      | true =>
        simp only [Bool.true_eq_false, if_false, replace, if_true]
        split
        · rfl
        · next h0 => exact replaced h0 _ _ (Nat.lt_succ_self _)
    | none =>
      rcases hnew with hnew | hnil
      · exfalso
        have hcs : Encodable (ofChars cs) := ⟨cs, rfl⟩
        have henc : Encodable (replace old new (ofChars cs) replace_all) := by
          cases replace_all with
          | false =>
            obtain ⟨before, after, honly, hreplace⟩ :=
              only_match new hfound (hcount rfl) (hapart rfl)
            rw [honly.1] at hcs
            obtain ⟨hb, ha⟩ := encodable_append.mp hcs
            rw [hreplace]
            exact encodable_append.mpr
              ⟨encodable_append.mpr ⟨(encodable_append.mp hb).1, hnew⟩, ha⟩
          | true =>
            unfold replace
            split
            · exact encodable_append.mpr ⟨encodable_flatMap hnew hcs, hnew⟩
            · exact encodable_replaceFrom hnew 0 hcs
        obtain ⟨data, hd⟩ := encode_of_encodable henc
        rw [hdata] at hd
        cases hd
      · subst hnil
        exact rfl

theorem plain_of_exact (hr : ¬ Refused sha256 checks (Utf8.encode cs) (ofChars (universal cs)) old
    false expected_sha256) (h : Exact (Utf8.encode cs) cs old new false (edit_file sha256 checks
      path (some (Utf8.encode cs)) old new false expected_sha256)) :
    '\r' ∉ cs ∧ (Encodable new ∨ cs = []) ∧ Apart old (ofChars cs) := by
  rw [edit_taken path hr] at h
  simp only [Refused, not_or, Bool.not_eq_false, not_and, not_not] at hr
  obtain ⟨-, -, hfound, hcount⟩ := hr
  cases hdata : encode (replace old new (ofChars (universal cs)) false) with
  | none =>
    rw [hdata] at h
    have hnil : cs = [] := by
      have hd := congrArg Utf8.decode (Option.some.inj (show some [] = some _ from h))
      rw [show Utf8.decode (Utf8.encode cs) = cs from Utf8.utf8.decode_text cs] at hd
      exact hd.symm
    refine ⟨by simp [hnil], Or.inr hnil, ?_⟩
    intro b a b' a' hb hb' hlt
    have hl := congrArg List.length hb'
    simp only [hnil, ofChars, List.map_nil, List.length_nil, List.length_append] at hl
    omega
  | some data =>
    rw [hdata] at h
    obtain ⟨t, data', hencode, hfile, before, after, honly, rfl⟩ := h
    cases hfile
    have hnew : Encodable new :=
      (encodable_append.mp (encodable_append.mp (encodable_of_encode hencode)).1).2
    refine ⟨?_, Or.inl hnew, ?_⟩
    · -- carriage returns are counted in what is written
      obtain ⟨xs, hx, hxs⟩ := encode_eq_some_iff.mp hencode
      obtain ⟨ys, hy, hys⟩ := encode_eq_some_iff.mp hdata
      have hsame : xs = ys := by
        have hd := congrArg Utf8.decode (hxs.trans hys.symm)
        rwa [show Utf8.decode (Utf8.encode xs) = xs from Utf8.utf8.decode_text xs,
          show Utf8.decode (Utf8.encode ys) = ys from Utf8.utf8.decode_text ys] at hd
      have hreturn : ∀ c : Text, List.count (.scalar '\r') (c ++ new) =
          List.count (.scalar '\r') c + List.count (.scalar '\r') new := fun c =>
        List.count_append
      have hread : List.count (CodePoint.scalar '\r') (ofChars (universal cs)) = 0 := by
        refine List.count_eq_zero.mpr fun hm => ?_
        obtain ⟨c, hc, he⟩ := List.mem_map.mp hm
        cases he
        exact universalFrom_no_return false cs hc
      have hsplit : ∃ b a, ofChars (universal cs) = b ++ old ++ a ∧
          replace old new (ofChars (universal cs)) false = b ++ new ++ a := by
        by_cases h0 : old = []
        · exact ⟨[], ofChars (universal cs), by rw [h0]; rfl, by rw [replace, if_pos h0]; rfl⟩
        · obtain ⟨b, a, hfirst, -, -, honce⟩ :=
            first_match new h0 ((contains_iff _).mp hfound)
          exact ⟨b, a, hfirst.1, by rw [replace, if_neg h0]; exact honce⟩
      obtain ⟨b, a, hb, hrep⟩ := hsplit
      have heq : before ++ new ++ after = b ++ new ++ a := by rw [hx, hsame, ← hy, hrep]
      have hcounts := congrArg (List.count (.scalar '\r')) heq
      have hreadb := congrArg (List.count (.scalar '\r')) hb
      have hcs := congrArg (List.count (.scalar '\r')) honly.1
      simp only [List.count_append] at hcounts hreadb hcs
      intro hm
      have hpos : 0 < List.count (CodePoint.scalar '\r') (ofChars cs) :=
        List.count_pos_iff.mpr (List.mem_map.mpr ⟨_, hm, rfl⟩)
      omega
    · intro b a b' a' hb hb' hlt
      have hsame := (honly.2 b a hb).trans (honly.2 b' a' hb').symm
      rw [hsame] at hlt
      exact absurd hlt (Nat.lt_irrefl _)

end Exact

end Agently.TaskWorkspace.Edits
