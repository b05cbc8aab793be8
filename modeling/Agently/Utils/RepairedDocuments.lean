import Agently.Utils.IntText
import Agently.Utils.JsonRepair

/-! # The repair of valid JSON

A valid document comes out of the repair as it is unless a typographic quote within one of its
strings stands before a character that could follow the string. The repair of a result is the
result. -/

namespace Agently.Utils.JsonRepair

open Agently.Lib.JsonText
open Agently.TaskDAGValidation (isSpace)

def misread (role : Role) : Text → Bool
  | [] => false
  | c :: rest =>
    (c ∈ ['“', '”', '＂'] && match (rest.dropWhile isSpace).head? with
      | some x => x ∈ role.followers
      | none => false) || misread role rest

mutual

def Keeps : Tree → Prop
  | .word _ => True
  | .string body => misread .value body = false
  | .array _ items => ItemsKeep items
  | .object _ members => MembersKeep members

def ItemsKeep : Items → Prop
  | .nil => True
  | .cons _ value _ rest => Keeps value ∧ ItemsKeep rest

def MembersKeep : Members → Prop
  | .nil => True
  | .cons _ key _ _ value _ rest => misread .key key = false ∧ Keeps value ∧ MembersKeep rest

end

/-- From `s` the text comes out as it is and leads to `s'` if `good`, and is changed if not. -/
def Reads (good : Prop) (s : State) (text : Text) (s' : State) (rest : Text) : Prop :=
  (good → run s (text ++ rest) = text ++ run s' rest) ∧
    (¬ good → run s (text ++ rest) ≠ text ++ rest)

theorem Reads.nil (s : State) (rest : Text) : Reads True s [] s rest :=
  ⟨fun _ => rfl, fun h => absurd trivial h⟩

variable {good : Prop} {s s' : State} {rest : Text}

theorem Reads.append {good' : Prop} {s'' : State} {a b : Text}
    (h : Reads good s a s' (b ++ rest)) (h' : Reads good' s' b s'' rest) :
    Reads (good ∧ good') s (a ++ b) s'' rest := by
  rw [Reads, List.append_assoc]
  refine ⟨fun hg => ?_, fun hg => ?_⟩
  · rw [h.1 hg.1, h'.1 hg.2, List.append_assoc]
  · by_cases hgood : good
    · rw [h.1 hgood]
      intro heq
      exact h'.2 (fun hb => hg ⟨hgood, hb⟩) (List.append_cancel_left heq)
    · exact h.2 hgood

variable {c : Char}

theorem Reads.cons {s'' : State} {b : Text}
    (h : step s c (canClose (b ++ rest)) = (s', c)) (h' : Reads good s' b s'' rest) :
    Reads good s (c :: b) s'' rest := by
  rw [Reads, List.cons_append, run, h]
  refine ⟨fun hg => ?_, fun hg heq => ?_⟩
  · rw [h'.1 hg, List.cons_append]
  · injection heq with _ heq
    exact h'.2 hg heq

theorem Reads.congr {good' : Prop} {text : Text}
    (h : Reads good s text s' rest) (hg : good ↔ good') : Reads good' s text s' rest :=
  ⟨fun hn => h.1 (hg.mpr hn), fun hn => h.2 fun hb => hn (hg.mp hb)⟩

theorem canClose_body (body rest : Text) (role : Role) :
    canClose (body ++ '"' :: rest) role = match (body.dropWhile isSpace).head? with
      | some x => decide (x ∈ role.followers)
      | none => false := by
  have hquote : isSpace '"' = false := by decide
  have hfollow : '"' ∉ role.followers := by cases role <;> decide
  induction body with
  | nil => simp [canClose, hquote, hfollow]
  | cons c body ih =>
    rw [List.cons_append]
    cases hc : isSpace c with
    | true =>
      rw [canClose, List.dropWhile_cons_of_pos hc, List.dropWhile_cons_of_pos hc]
      exact ih
    | false => simp [canClose, hc]

variable {role : Role} {body : Text}

theorem reads_plain
    (hs : s.mode = .string .double role false) (hb : c ≠ '\\') (hc : c ∉ Quote.double.variants)
    (h : Reads good s body s' rest) : Reads good s (c :: body) s' rest := by
  apply Reads.cons _ h
  rw [step, hs]
  simp [hb, hc]

def State.ended (s : State) : Role → State
  | .key => (s.within .outside).set .colon
  | .value => (s.within .outside).completed

theorem step_quote (hs : s.mode = .string .double role false)
    (hc : c ∈ Quote.double.variants) (close : Role → Bool) :
    step s c close = if close role then (s.ended role, '"') else (s, c) := by
  have hb : c ≠ '\\' := by
    rintro rfl
    revert hc
    decide
  rw [step, hs]
  simp only [hb, hc, if_true, if_false]
  cases role <;> rfl

theorem misread_plain (hc : c ∉ Quote.double.variants) (rest : Text) :
    misread role (c :: rest) = misread role rest := by
  have hnot : c ∉ ['“', '”', '＂'] := fun hm => hc (List.mem_cons_of_mem _ hm)
  simp [misread, hnot]

theorem within_escape (hs : s.mode = .string .double role false) :
    (s.within (.string .double role true)).within (.string .double role false) = s := by
  obtain ⟨mode, stack, root⟩ := s
  cases hs
  rfl

theorem reads_escape (hs : s.mode = .string .double role false) (h : Reads good s body s' rest) :
    Reads good s ('\\' :: c :: body) s' rest := by
  have hsecond : Reads good (s.within (.string .double role true)) (c :: body) s' rest := by
    apply Reads.cons _ h
    rw [step, State.within]
    simp only
    exact congrArg (fun t => (t, c)) (within_escape hs)
  apply Reads.cons _ hsecond
  rw [step, hs]
  simp

theorem reads_body (hs : s.mode = .string .double role false) (hbody : Body body)
    (hclose : canClose rest role = true) :
    Reads (misread role body = false) s (body ++ ['"']) (s.ended role) rest := by
  have hesc : ∀ x ∈ "\"\\/bfnrtu".toList, x = '"' ∨ x ∉ Quote.double.variants :=
    List.forall_iff_forall_mem.mp (by decide)
  induction hbody with
  | nil =>
    apply (Reads.cons _ (Reads.nil (s.ended role) rest)).congr (by simp [misread])
    rw [step_quote hs (by decide), List.nil_append, hclose, if_pos rfl]
  | @char c body hq hb _ _ ih =>
    by_cases hc : c ∈ Quote.double.variants
    · have hin : c ∈ ['“', '”', '＂'] := by
        obtain rfl | hc := List.mem_cons.mp hc
        · exact absurd rfl hq
        · exact hc
      have hcan := canClose_body body rest role
      have hstep := step_quote hs hc (canClose (body ++ '"' :: rest))
      have hmis : misread role (c :: body) =
          (canClose (body ++ '"' :: rest) role || misread role body) := by
        rw [hcan, misread]
        simp only [hin, decide_true, Bool.true_and]
      rw [hmis]
      cases hends : canClose (body ++ '"' :: rest) role with
      | true =>
        refine ⟨fun hg => (nomatch hg), fun _ heq => ?_⟩
        rw [List.cons_append, List.cons_append, run, List.append_assoc, List.singleton_append,
          hstep, hends, if_pos rfl] at heq
        injection heq with hhead _
        exact hq hhead.symm
      | false =>
        apply Reads.cons _ ih
        rw [List.append_assoc, List.singleton_append, hstep, hends, if_neg (by simp)]
    · rw [misread_plain hc]
      exact reads_plain hs hb hc ih
  | @escape c body hc _ ih =>
    have hback : '\\' ∉ Quote.double.variants := by decide
    have hmis : misread role ('\\' :: c :: body) = misread role body := by
      rw [misread_plain hback]
      by_cases hq : c = '"'
      · subst hq
        simp [misread]
      · obtain hq' | hc := hesc c (List.mem_append_left ['u'] hc)
        · exact absurd hq' hq
        · exact misread_plain hc body
    rw [hmis]
    exact reads_escape hs ih
  | @unicode a b c d body hx _ ih =>
    have hplain : ∀ x, (x.isDigit = true ∨ x ∈ "abcdefABCDEF".toList) →
        x ≠ '\\' ∧ x ∉ Quote.double.variants := by
      rintro x (hx | hx)
      · have hall : ∀ y ∈ '\\' :: Quote.double.variants, y.isDigit = false :=
          List.forall_iff_forall_mem.mp (by decide)
        refine ⟨?_, fun hmem => ?_⟩
        · rintro rfl
          cases hx
        · rw [hall x (List.mem_cons_of_mem _ hmem)] at hx
          cases hx
      · have hall : ∀ y ∈ "abcdefABCDEF".toList, y ≠ '\\' ∧ y ∉ Quote.double.variants :=
          List.forall_iff_forall_mem.mp (by decide)
        exact hall x hx
    have ha := hplain a (hx a (by simp))
    have hb := hplain b (hx b (by simp))
    have hc := hplain c (hx c (by simp))
    have hd := hplain d (hx d (by simp))
    rw [misread_plain (by decide), misread_plain (by decide), misread_plain ha.2,
      misread_plain hb.2, misread_plain hc.2, misread_plain hd.2]
    exact reads_escape hs (reads_plain hs ha.1 ha.2 (reads_plain hs hb.1 hb.2
      (reads_plain hs hc.1 hc.2 (reads_plain hs hd.1 hd.2 ih))))

variable {w : Text}

theorem isSpace_of_blank (h : Blank w) : ∀ c ∈ w, isSpace c = true := by
  intro c hc
  obtain rfl | rfl | rfl | rfl := h c hc <;> decide

theorem dropWhile_blank (h : Blank w) (rest : Text) :
    (w ++ rest).dropWhile isSpace = rest.dropWhile isSpace := by
  rw [List.dropWhile_append_of_pos (isSpace_of_blank h)]

theorem reads_blank (hs : s.mode = .outside) (h : Blank w) (rest : Text) :
    Reads True s w s rest := by
  induction w with
  | nil => exact .nil s rest
  | cons c w ih =>
    have hc := isSpace_of_blank h c List.mem_cons_self
    apply Reads.cons _ (ih fun x hx => h x (List.mem_cons_of_mem c hx))
    rw [step, hs]
    simp [stepOutside, hc]

def Follow (rest : Text) : Prop :=
  ∀ c, (rest.dropWhile isSpace).head? = some c → c = ',' ∨ c = '}' ∨ c = ']'

theorem follow_blank (h : Blank w) (hr : Follow rest) :
    Follow (w ++ rest) := by
  rw [Follow, dropWhile_blank h]
  exact hr

theorem follow_cons (hc : c = ',' ∨ c = '}' ∨ c = ']') (rest : Text) :
    Follow (c :: rest) := by
  intro x hx
  have hspace : isSpace c = false := by
    obtain rfl | rfl | rfl := hc <;> decide
  rw [List.dropWhile_cons_of_neg (by simp [hspace])] at hx
  injection hx with hx
  rw [← hx]
  exact hc

theorem canClose_of_follow (h : Follow rest) : canClose rest .value = true := by
  rw [canClose]
  cases hd : (rest.dropWhile isSpace).head? with
  | none => rfl
  | some c => obtain rfl | rfl | rfl := h c hd <;> rfl

theorem reads_quoted (hs : s.mode = .outside)
    (hrole : s.role? = some role) (hbody : Body body) (hclose : canClose rest role = true) :
    Reads (misread role body = false) s (quoted body) (s.ended role) rest := by
  have hinner : Reads (misread role body = false) (s.within (.string .double role false))
      (body ++ ['"']) ((s.within (.string .double role false)).ended role) rest :=
    reads_body rfl hbody hclose
  have hended : (s.within (.string .double role false)).ended role = s.ended role := by
    cases role <;> rfl
  rw [hended] at hinner
  apply Reads.cons _ hinner
  have hspace : isSpace '"' = false := by decide
  rw [step, hs]
  simp [stepOutside, hspace, hrole, Quote.variants, Quote.char]

/-- The characters of numbers and of `true`, `false` and `null`. -/
def WordChar (c : Char) : Prop := c.isDigit = true ∨ c ∈ "+-.eEnultrfas".toList

theorem word_chars (h : Word w) : w ≠ [] ∧ ∀ c ∈ w, WordChar c := by
  have hletters : ∀ t ∈ ["null", "true", "false"], t.toList ≠ [] ∧
      ∀ c ∈ t.toList, c ∈ "+-.eEnultrfas".toList := by
    simp only [← List.forall_iff_forall_mem]
    decide
  cases h with
  | null => exact ⟨(hletters "null" (by simp)).1, fun c hc => .inr ((hletters "null" (by simp)).2 c hc)⟩
  | true => exact ⟨(hletters "true" (by simp)).1, fun c hc => .inr ((hletters "true" (by simp)).2 c hc)⟩
  | false =>
    exact ⟨(hletters "false" (by simp)).1, fun c hc => .inr ((hletters "false" (by simp)).2 c hc)⟩
  | @number sign whole fraction exponent h =>
    have hdigits : ∀ {ds : Text}, Digits ds → ∀ c ∈ ds, WordChar c := fun hd c hc =>
      .inl (hd.2 c hc)
    have hone : ∀ {c : Char}, c ∈ "+-.eEnultrfas".toList → WordChar c := .inr
    have hwhole : whole ≠ [] ∧ ∀ c ∈ whole, WordChar c := by
      obtain rfl | ⟨hd, -⟩ := h.whole
      · exact ⟨by simp, fun c hc => .inl (by rw [List.mem_singleton.mp hc]; rfl)⟩
      · exact ⟨hd.1, hdigits hd⟩
    refine ⟨by simp [hwhole.1], fun c hc => ?_⟩
    simp only [List.mem_append] at hc
    obtain hc | hc | hc | hc := hc
    · obtain hs | hs := h.sign
      · rw [hs] at hc
        cases hc
      · rw [hs, List.mem_singleton] at hc
        exact hone (by rw [hc]; decide)
    · exact hwhole.2 c hc
    · obtain hf | ⟨ds, hf, hd⟩ := h.fraction
      · rw [hf] at hc
        cases hc
      · rw [hf] at hc
        obtain rfl | hc := List.mem_cons.mp hc
        · exact hone (by decide)
        · exact hdigits hd c hc
    · obtain he | ⟨e, sg, ds, he, he', hsg, hd⟩ := h.exponent
      · rw [he] at hc
        cases hc
      · rw [he] at hc
        obtain rfl | hc := List.mem_cons.mp hc
        · exact hone (by obtain rfl | rfl := he' <;> decide)
        · obtain hc | hc := List.mem_append.mp hc
          · obtain rfl | rfl | rfl := hsg
            · cases hc
            · rw [List.mem_singleton.mp hc]
              exact hone (by decide)
            · rw [List.mem_singleton.mp hc]
              exact hone (by decide)
          · exact hdigits hd c hc

theorem wordChar_plain (h : WordChar c) : isSpace c = false ∧
    (∀ q : Quote, c ∉ q.variants) ∧ structural c = c ∧ c ∉ ['{', '[', '}', ']', ':', ','] := by
  obtain h | h := h
  · have hall : ∀ y ∈ ['{', '[', '}', ']', ':', ','] ++ ['：', '，', '｛', '｝', '［', '］'] ++
        Quote.double.variants ++ Quote.single.variants, y.isDigit = false :=
      List.forall_iff_forall_mem.mp (by decide)
    have hnot : ∀ y ∈ ['{', '[', '}', ']', ':', ','] ++ ['：', '，', '｛', '｝', '［', '］'] ++
        Quote.double.variants ++ Quote.single.variants, c ≠ y := by
      rintro y hy rfl
      rw [hall c hy] at h
      cases h
    refine ⟨?_, fun q hq => ?_, ?_, fun hc => hnot c (by simp only [List.mem_append, hc, true_or]) rfl⟩
    · exact Agently.Utils.IntText.isSpace_of_isDigit h
    · cases q with
      | double => exact hnot c (by simp [hq]) rfl
      | single => exact hnot c (by simp [hq]) rfl
    · obtain hs | hs := structural_cases c
      · exact hs
      · have hwide : c ∈ ['：', '，', '｛', '｝', '［', '］'] := List.mem_map_of_mem (f := Prod.fst) hs
        exact absurd rfl (hnot c (by simp only [List.mem_append, hwide, or_true, true_or]))
  · have hall : ∀ y ∈ "+-.eEnultrfas".toList, isSpace y = false ∧ y ∉ Quote.double.variants ∧
        y ∉ Quote.single.variants ∧ structural y = y ∧ y ∉ ['{', '[', '}', ']', ':', ','] :=
      List.forall_iff_forall_mem.mp (by decide)
    obtain ⟨hspace, hdouble, hsingle, hrest⟩ := hall c h
    exact ⟨hspace, fun q => by cases q <;> assumption, hrest⟩

theorem run_primitive_of_follow (hs : s.mode = .outside)
    (h : Follow rest) : run (s.within (.primitive .value)) rest = run s.completed rest := by
  have hcomplete : ((s.within (.primitive .value)).within .outside).completed = s.completed := by
    obtain ⟨mode, stack, root⟩ := s
    cases hs
    rfl
  have hmode : s.completed.mode = .outside := by
    rw [State.completed]
    split <;> exact hs
  cases rest with
  | nil => rfl
  | cons c rest =>
    have hstep : step (s.within (.primitive .value)) c (canClose rest) =
        step s.completed c (canClose rest) := by
      rw [step, step, hmode]
      simp only [State.within]
      cases hc : isSpace c with
      | true =>
        simp only [if_true, stepOutside, hc]
        exact congrArg (fun t => (t, c)) hcomplete
      | false =>
        have hend : structural c = ',' ∨ structural c = '}' ∨ structural c = ']' := by
          have hf := h c (by simp [hc])
          obtain rfl | rfl | rfl := hf <;> decide
        simp only [Bool.false_eq_true, if_false, hend, if_true]
        exact congrArg (fun t => stepOutside t c) hcomplete
    rw [run, run, hstep]

theorem reads_wordChars (hs : s.mode = .primitive .value)
    (h : ∀ c ∈ w, WordChar c) (rest : Text) : Reads True s w s rest := by
  induction w with
  | nil => exact .nil s rest
  | cons c w ih =>
    obtain ⟨hspace, -, hself, hnot⟩ := wordChar_plain (h c List.mem_cons_self)
    have hend : ¬ (c = ',' ∨ c = '}' ∨ c = ']') := fun he => hnot (by simp; tauto)
    apply Reads.cons _ (ih fun x hx => h x (List.mem_cons_of_mem c hx))
    rw [step, hs]
    simp [hspace, hself, hend]

theorem reads_word (hs : s.mode = .outside) (hrole : s.role? = some .value)
    (hw : Word w) (hf : Follow rest) : Reads True s w s.completed rest := by
  obtain ⟨hne, hchars⟩ := word_chars hw
  obtain ⟨c, w, rfl⟩ := List.exists_cons_of_ne_nil hne
  obtain ⟨hspace, hquote, hself, hnot⟩ := wordChar_plain (hchars c List.mem_cons_self)
  have hinner := reads_wordChars (s := s.within (.primitive .value)) rfl
    (fun x hx => hchars x (List.mem_cons_of_mem c hx)) rest
  have hread : Reads True s (c :: w) (s.within (.primitive .value)) rest := by
    apply Reads.cons _ hinner
    simp only [List.mem_cons, List.not_mem_nil, or_false, not_or] at hnot
    rw [step, hs]
    simp [stepOutside, hspace, hself, hrole, hquote, hnot]
  refine ⟨fun _ => ?_, fun h => absurd trivial h⟩
  rw [hread.1 trivial, run_primitive_of_follow hs hf]

theorem follow_more_items (items : Items) (rest : Text) : Follow (items.more ++ ']' :: rest) := by
  cases items with
  | nil => exact follow_cons (by simp) rest
  | cons before value after tail => exact follow_cons (by simp) _

theorem follow_more_members (members : Members) (rest : Text) :
    Follow (members.more ++ '}' :: rest) := by
  cases members with
  | nil => exact follow_cons (by simp) rest
  | cons before key after lead value trail tail => exact follow_cons (by simp) _

theorem canClose_key (h : Blank w) (rest : Text) :
    canClose (w ++ ':' :: rest) .key = true := by
  have hspace : isSpace ':' = false := by decide
  rw [canClose, dropWhile_blank h, List.dropWhile_cons_of_neg (by simp [hspace])]
  rfl

theorem reads_square_end (hs : s.mode = .outside) {e : Expect}
    (he : e = .value_or_end ∨ e = .comma_or_end) (rest : Text) :
    Reads True (s.push .array e) [']'] s.completed rest := by
  have hspace : isSpace ']' = false := by decide
  have hpop : (s.push .array e).pop = s := rfl
  apply Reads.cons _ (.nil _ rest)
  rw [step, show (s.push .array e).mode = .outside from hs]
  simp [stepOutside, hspace, Quote.variants, structural, State.container, State.expect, State.push,
    he]
  exact congrArg State.completed hpop

theorem reads_brace_end (hs : s.mode = .outside) {e : Expect}
    (he : e = .key_or_end ∨ e = .comma_or_end) (rest : Text) :
    Reads True (s.push .object e) ['}'] s.completed rest := by
  have hspace : isSpace '}' = false := by decide
  have hpop : (s.push .object e).pop = s := rfl
  apply Reads.cons _ (.nil _ rest)
  rw [step, show (s.push .object e).mode = .outside from hs]
  simp [stepOutside, hspace, Quote.variants, structural, State.container, State.expect, State.push,
    he]
  exact congrArg State.completed hpop

theorem step_square (hs : s.mode = .outside) (hrole : s.role? = some .value)
    (close : Role → Bool) : step s '[' close = (s.push .array .value_or_end, '[') := by
  have hspace : isSpace '[' = false := by decide
  rw [step, hs]
  simp [stepOutside, hspace, Quote.variants, structural, hrole]

theorem step_brace (hs : s.mode = .outside) (hrole : s.role? = some .value)
    (close : Role → Bool) : step s '{' close = (s.push .object .key_or_end, '{') := by
  have hspace : isSpace '{' = false := by decide
  rw [step, hs]
  simp [stepOutside, hspace, Quote.variants, structural, hrole]

theorem step_colon (hs : s.mode = .outside) (close : Role → Bool) :
    step (s.push .object .colon) ':' close = (s.push .object .value, ':') := by
  have hspace : isSpace ':' = false := by decide
  rw [step, show (s.push .object .colon).mode = .outside from hs]
  simp [stepOutside, hspace, Quote.variants, structural, State.role?, State.container,
    State.expect, State.push, State.set]

theorem step_comma {s : State} (hs : s.mode = .outside) (k : Container) (close : Role → Bool) :
    step (s.push k .comma_or_end) ',' close =
      (s.push k (match k with
        | .object => .key_or_end
        | .array => .value_or_end), ',') := by
  have hspace : isSpace ',' = false := by decide
  rw [step, show (s.push k .comma_or_end).mode = .outside from hs]
  cases k <;>
    simp [stepOutside, hspace, Quote.variants, structural, State.role?, State.container,
      State.expect, State.push, State.set]

def itemsEnd : Items → Expect
  | .nil => .value_or_end
  | .cons .. => .comma_or_end

def membersEnd : Members → Expect
  | .nil => .key_or_end
  | .cons .. => .comma_or_end

theorem reads_item {before : Text} {value : Tree} {after : Text} {tail : Items}
    (hs : s.mode = .outside) (hbefore : Blank before) (hafter : Blank after)
    (hvalue : ∀ {rest : Text}, Follow rest → Reads (Keeps value) (s.push .array .value_or_end)
      value.text (s.push .array .comma_or_end) rest)
    (hmore : Reads (ItemsKeep tail) (s.push .array .comma_or_end) tail.more
      (s.push .array .comma_or_end) (']' :: rest)) :
    Reads (ItemsKeep (.cons before value after tail)) (s.push .array .value_or_end)
      (before ++ (value.text ++ (after ++ tail.more))) (s.push .array .comma_or_end)
      (']' :: rest) := by
  have hmode : ∀ e, (s.push .array e).mode = .outside := fun _ => hs
  have hfollow : Follow ((after ++ tail.more) ++ ']' :: rest) := by
    rw [List.append_assoc]
    exact follow_blank hafter (follow_more_items tail rest)
  have hread := (reads_blank (hmode .value_or_end) hbefore _).append
    ((hvalue hfollow).append ((reads_blank (hmode .comma_or_end) hafter _).append hmore))
  exact hread.congr (by simp [ItemsKeep])

theorem reads_member {before key after lead : Text} {value : Tree} {trail : Text}
    {tail : Members} (hs : s.mode = .outside) (hbefore : Blank before)
    (hkey : Body key) (hafter : Blank after) (hlead : Blank lead) (htrail : Blank trail)
    (hvalue : ∀ {rest : Text}, Follow rest → Reads (Keeps value) (s.push .object .value)
      value.text (s.push .object .comma_or_end) rest)
    (hmore : Reads (MembersKeep tail) (s.push .object .comma_or_end) tail.more
      (s.push .object .comma_or_end) ('}' :: rest)) :
    Reads (MembersKeep (.cons before key after lead value trail tail))
      (s.push .object .key_or_end) (before ++ (quoted key ++ (after ++ ':' :: (lead ++
        (value.text ++ (trail ++ tail.more))))))
      (s.push .object .comma_or_end) ('}' :: rest) := by
  have hmode : ∀ e, (s.push .object e).mode = .outside := fun _ => hs
  have hfollow : Follow ((trail ++ tail.more) ++ '}' :: rest) := by
    rw [List.append_assoc]
    exact follow_blank htrail (follow_more_members tail rest)
  have hitem := (reads_blank (hmode .value) hlead _).append
    ((hvalue hfollow).append ((reads_blank (hmode .comma_or_end) htrail _).append hmore))
  have hcolon := (reads_blank (hmode .colon) hafter _).append
    (Reads.cons (step_colon hs _) hitem)
  have hended : (s.push .object .key_or_end).ended .key = s.push .object .colon := by
    obtain ⟨mode, stack, root⟩ := s
    cases hs
    rfl
  have hclose : canClose ((after ++ ':' :: (lead ++ (value.text ++ (trail ++ tail.more)))) ++
      '}' :: rest) .key = true := by
    rw [List.append_assoc, List.cons_append]
    exact canClose_key hafter _
  have hquoted := reads_quoted (hmode .key_or_end) rfl hkey hclose
  rw [hended] at hquoted
  have hread := (reads_blank (hmode .key_or_end) hbefore _).append (hquoted.append hcolon)
  exact hread.congr (by simp [MembersKeep])

mutual

theorem reads_tree : (d : Tree) → d.Valid → {s : State} → s.mode = .outside →
    s.role? = some .value → {rest : Text} → Follow rest →
    Reads (Keeps d) s d.text s.completed rest
  | .word text, hv, s, hs, hrole, rest, hf => reads_word hs hrole hv hf
  | .string body, hv, s, hs, hrole, rest, hf => by
      have hread := reads_quoted hs hrole hv (canClose_of_follow hf)
      have hended : s.ended .value = s.completed := by
        obtain ⟨mode, stack, root⟩ := s
        cases hs
        rfl
      rw [hended] at hread
      exact hread
  | .array gap items, hv, s, hs, hrole, rest, hf => by
      have hmode : (s.push .array .value_or_end).mode = .outside := hs
      have hend : itemsEnd items = .value_or_end ∨ itemsEnd items = .comma_or_end := by
        cases items with
        | nil => exact .inl rfl
        | cons => exact .inr rfl
      have hread := (reads_blank hmode hv.1 _).append
        ((reads_items items hv.2 hs rest).append (reads_square_end hs hend rest))
      exact (Reads.cons (step_square hs hrole _) hread).congr (by simp [Keeps])
  | .object gap members, hv, s, hs, hrole, rest, hf => by
      have hmode : (s.push .object .key_or_end).mode = .outside := hs
      have hend : membersEnd members = .key_or_end ∨ membersEnd members = .comma_or_end := by
        cases members with
        | nil => exact .inl rfl
        | cons => exact .inr rfl
      have hread := (reads_blank hmode hv.1 _).append
        ((reads_members members hv.2 hs rest).append (reads_brace_end hs hend rest))
      exact (Reads.cons (step_brace hs hrole _) hread).congr (by simp [Keeps])

theorem reads_items : (items : Items) → items.Valid → {s : State} → s.mode = .outside →
    (rest : Text) → Reads (ItemsKeep items) (s.push .array .value_or_end) items.text
      (s.push .array (itemsEnd items)) (']' :: rest)
  | .nil, _, s, _, rest => (Reads.nil _ _).congr (by simp [ItemsKeep])
  | .cons before value after tail, hv, s, hs, rest =>
    reads_item hs hv.1 hv.2.2.1 (fun hf => reads_tree value hv.2.1 (s := s.push .array .value_or_end) hs rfl hf)
      (reads_moreItems tail hv.2.2.2 hs rest)

theorem reads_moreItems : (items : Items) → items.Valid → {s : State} → s.mode = .outside →
    (rest : Text) → Reads (ItemsKeep items) (s.push .array .comma_or_end) items.more
      (s.push .array .comma_or_end) (']' :: rest)
  | .nil, _, s, _, rest => (Reads.nil _ _).congr (by simp [ItemsKeep])
  | .cons before value after tail, hv, s, hs, rest =>
    Reads.cons (step_comma hs .array _)
      (reads_item hs hv.1 hv.2.2.1 (fun hf => reads_tree value hv.2.1 (s := s.push .array .value_or_end) hs rfl hf)
        (reads_moreItems tail hv.2.2.2 hs rest))

theorem reads_members : (members : Members) → members.Valid → {s : State} →
    s.mode = .outside → (rest : Text) → Reads (MembersKeep members)
      (s.push .object .key_or_end) members.text (s.push .object (membersEnd members)) ('}' :: rest)
  | .nil, _, s, _, rest => (Reads.nil _ _).congr (by simp [MembersKeep])
  | .cons before key after lead value trail tail, hv, s, hs, rest =>
    have ⟨hbefore, hkey, hafter, hlead, hvalue, htrail, htail⟩ := hv
    reads_member hs hbefore hkey hafter hlead htrail
      (fun hf => reads_tree value hvalue (s := s.push .object .value) hs rfl hf)
      (reads_moreMembers tail htail hs rest)

theorem reads_moreMembers : (members : Members) → members.Valid → {s : State} →
    s.mode = .outside → (rest : Text) → Reads (MembersKeep members)
      (s.push .object .comma_or_end) members.more (s.push .object .comma_or_end) ('}' :: rest)
  | .nil, _, s, _, rest => (Reads.nil _ _).congr (by simp [MembersKeep])
  | .cons before key after lead value trail tail, hv, s, hs, rest =>
    have ⟨hbefore, hkey, hafter, hlead, hvalue, htrail, htail⟩ := hv
    Reads.cons (step_comma hs .object _)
      (reads_member hs hbefore hkey hafter hlead htrail
        (fun hf => reads_tree value hvalue (s := s.push .object .value) hs rfl hf)
        (reads_moreMembers tail htail hs rest))

end

/-- The repair of a result is the result, and a valid document is left exactly if none of its
strings is misread. -/
theorem repair_laws (text : Text) {d : Document} (hd : d.Valid) :
    repair_json_fragment (repair_json_fragment text) = repair_json_fragment text ∧
      (repair_json_fragment d.text = d.text ↔ Keeps d.root) := by
  refine ⟨run_run .initial text, ?_⟩
  have hfollow : Follow (d.trail ++ []) := by
    apply follow_blank hd.trail
    intro c hc
    cases hc
  have hcompleted : State.initial.completed.mode = .outside := rfl
  have hread := (reads_blank (s := .initial) rfl hd.lead _).append
    ((reads_tree d.root hd.root (s := .initial) rfl rfl hfollow).append
      (reads_blank hcompleted hd.trail []))
  have hgood : (True ∧ Keeps d.root ∧ True) ↔ Keeps d.root := by simp
  have hlaw := hread.congr hgood
  rw [Reads, List.append_nil] at hlaw
  constructor
  · intro heq
    by_contra hno
    exact hlaw.2 hno heq
  · intro hk
    have h := hlaw.1 hk
    rw [run, List.append_nil] at h
    exact h

def listOf (body : Text) : Document := ⟨[], .array [] (.cons [] (.string body) [] .nil), []⟩

theorem listOf_valid (h : Body body) : (listOf body).Valid :=
  ⟨fun _ hc => (nomatch hc), ⟨fun _ hc => (nomatch hc), fun _ hc => (nomatch hc), h,
    fun _ hc => (nomatch hc), trivial⟩, fun _ hc => (nomatch hc)⟩

theorem body_of_plain (h : ∀ c ∈ body, c ≠ '"' ∧ c ≠ '\\' ∧ 0x20 ≤ c.toNat) : Body body := by
  induction body with
  | nil => exact .nil
  | cons c body ih =>
    obtain ⟨hq, hb, hn⟩ := h c List.mem_cons_self
    exact .char hq hb hn (ih fun x hx => h x (List.mem_cons_of_mem c hx))

theorem repair_laws_quoted : repair_json_fragment (listOf "“a”".toList).text =
    (listOf "“a”".toList).text := by
  have hbody : Body "“a”".toList := body_of_plain (List.forall_iff_forall_mem.mp (by decide))
  have hkeeps : misread .value "“a”".toList = false := by decide +kernel
  exact (repair_laws [] (listOf_valid hbody)).2.mpr ⟨hkeeps, trivial⟩

theorem quote_before_comma : (listOf "a“,b".toList).Valid ∧
    (listOf "a“,b".toList).text = "[\"a“,b\"]".toList ∧
    repair_json_fragment "[\"a“,b\"]".toList = "[\"a\",b\"]".toList :=
  ⟨listOf_valid (body_of_plain (List.forall_iff_forall_mem.mp (by decide))), by decide +kernel, by decide +kernel⟩

end Agently.Utils.JsonRepair
