import Agently.Lib.JsonText
import Agently.TaskDAG.TaskDAGData

/-! # Repairing a JSON fragment

Source: `repair_json_fragment` of `utils/DataLocator.py`, with `_is_quote_variant`,
`_can_close_repaired_string` and `_next_non_whitespace_char`. Each character of the text gives
one character of the result: itself, or what stands for it in JSON. -/

namespace Agently.Utils.JsonRepair

open Agently.Lib.JsonText (Text)
open Agently.TaskDAGValidation (isSpace)

def structural (c : Char) : Char :=
  if c = '：' then ':' else if c = '，' then ',' else if c = '｛' then '{'
  else if c = '｝' then '}' else if c = '［' then '[' else if c = '］' then ']' else c

inductive Quote where
  | double
  | single
  deriving DecidableEq

def Quote.char : Quote → Char
  | .double => '"'
  | .single => '\''

def Quote.variants : Quote → List Char
  | .double => ['"', '“', '”', '＂']
  | .single => ['\'', '‘', '’', '＇']

inductive Role where
  | key
  | value
  deriving DecidableEq

def Role.followers : Role → List Char
  | .key => [':', '：']
  | .value => [',', '，', '}', ']', '｝', '］']

/-- `_can_close_repaired_string`, of the text after the quote. -/
def canClose (rest : Text) (role : Role) : Bool :=
  match (rest.dropWhile isSpace).head? with
  | none => role = .value
  | some c => c ∈ role.followers

inductive Container where
  | object
  | array
  deriving DecidableEq

inductive Expect where
  | key_or_end
  | value
  | value_or_end
  | colon
  | comma_or_end
  | done
  deriving DecidableEq

/-- `in_string` with its delimiter, role and `escape`, and `in_primitive`. -/
inductive Mode where
  | outside
  | string (delimiter : Quote) (role : Role) (escape : Bool)
  | primitive (role : Role)

/-- The open containers, the innermost first, each with what it expects, and what the root
expects. -/
structure State where
  mode : Mode
  stack : List (Container × Expect)
  root : Expect

namespace State

def initial : State := ⟨.outside, [], .value_or_end⟩

def expect (s : State) : Expect :=
  match s.stack with
  | [] => s.root
  | (_, e) :: _ => e

def container (s : State) : Option Container := s.stack.head?.map Prod.fst

def set (s : State) (e : Expect) : State :=
  match s.stack with
  | [] => { s with root := e }
  | (k, _) :: rest => { s with stack := (k, e) :: rest }

def completed (s : State) : State :=
  match s.stack with
  | [] => { s with root := .done }
  | (k, _) :: rest => { s with stack := (k, .comma_or_end) :: rest }

def within (s : State) (mode : Mode) : State := { s with mode := mode }

def push (s : State) (k : Container) (e : Expect) : State := { s with stack := (k, e) :: s.stack }

def pop (s : State) : State := { s with stack := s.stack.tail }

def role? (s : State) : Option Role :=
  match s.expect with
  | .key_or_end => some .key
  | .value | .value_or_end => some .value
  | _ => none

end State

def stepOutside (s : State) (char : Char) : State × Char :=
  let normalized := structural char
  if isSpace char then (s, char)
  else if s.role?.isSome ∧ char ∈ Quote.double.variants then
    (s.within (.string .double (s.role?.getD .value) false), Quote.double.char)
  else if s.role?.isSome ∧ char ∈ Quote.single.variants then
    (s.within (.string .single (s.role?.getD .value) false), Quote.single.char)
  else if normalized = '{' ∧ s.role? = some .value then (s.push .object .key_or_end, '{')
  else if normalized = '[' ∧ s.role? = some .value then (s.push .array .value_or_end, '[')
  else if normalized = '}' ∧ s.container = some .object ∧
      (s.expect = .key_or_end ∨ s.expect = .comma_or_end) then (s.pop.completed, '}')
  else if normalized = ']' ∧ s.container = some .array ∧
      (s.expect = .value_or_end ∨ s.expect = .comma_or_end) then (s.pop.completed, ']')
  else if normalized = ':' ∧ s.container = some .object ∧ s.expect = .colon then
    (s.set .value, ':')
  else if normalized = ',' ∧ s.expect = .comma_or_end then
    (s.set (match s.container with
      | some .object => .key_or_end
      | some .array => .value_or_end
      | none => .done), ',')
  else
    match s.role? with
    | some role => (s.within (.primitive role), char)
    | none => (s, char)

/-- One character; `close` says of what is after it whether a string can end here. -/
def step (s : State) (char : Char) (close : Role → Bool) : State × Char :=
  match s.mode with
  | .string delimiter role true => (s.within (.string delimiter role false), char)
  | .string delimiter role false =>
    if char = '\\' then (s.within (.string delimiter role true), char)
    else if char ∈ delimiter.variants then
      if close role then
        (match role with
          | .key => (s.within .outside).set .colon
          | .value => (s.within .outside).completed, delimiter.char)
      else (s, char)
    else (s, char)
  | .primitive .key =>
    if structural char = ':' then ((s.within .outside).set .value, ':') else (s, char)
  | .primitive .value =>
    if isSpace char then ((s.within .outside).completed, char)
    else if structural char = ',' ∨ structural char = '}' ∨ structural char = ']' then
      stepOutside (s.within .outside).completed char
    else (s, char)
  | .outside => stepOutside s char

def run (s : State) : Text → Text
  | [] => []
  | c :: rest =>
    let r := step s c (canClose rest)
    r.2 :: run r.1 rest

def repair_json_fragment (text : Text) : Text := run .initial text

theorem structural_cases (c : Char) : structural c = c ∨
    (c, structural c) ∈ [('：', ':'), ('，', ','), ('｛', '{'), ('｝', '}'), ('［', '['), ('］', ']')] := by
  unfold structural
  split_ifs <;> simp [*]

theorem structural_idem (c : Char) : structural (structural c) = structural c := by
  obtain h | h := structural_cases c
  · rw [h, h]
  · have hall : ∀ p ∈ [('：', ':'), ('，', ','), ('｛', '{'), ('｝', '}'), ('［', '['), ('］', ']')],
        structural p.2 = p.2 := List.forall_iff_forall_mem.mp (by decide)
    exact hall (c, structural c) h

theorem isSpace_structural (c : Char) : isSpace (structural c) = isSpace c := by
  obtain h | h := structural_cases c
  · rw [h]
  · have hall : ∀ p ∈ [('：', ':'), ('，', ','), ('｛', '{'), ('｝', '}'), ('［', '['), ('］', ']')],
        isSpace p.2 = isSpace p.1 :=
      List.forall_iff_forall_mem.mp (by decide +kernel)
    exact hall (c, structural c) h

theorem followers_structural (role : Role) (c : Char) :
    structural c ∈ role.followers ↔ c ∈ role.followers := by
  obtain h | h := structural_cases c
  · rw [h]
  · have hall : ∀ p ∈ [('：', ':'), ('，', ','), ('｛', '{'), ('｝', '}'), ('［', '['), ('］', ']')],
        p.2 ∈ role.followers ↔ p.1 ∈ role.followers :=
      List.forall_iff_forall_mem.mp (by cases role <;> decide)
    exact hall (c, structural c) h

theorem not_variant_of_structural {c : Char}
    (h : structural c = ',' ∨ structural c = '}' ∨ structural c = ']') (q : Quote) :
    c ∉ q.variants := by
  have hall : ∀ q : Quote, ∀ x ∈ q.variants,
      ¬ (structural x = ',' ∨ structural x = '}' ∨ structural x = ']') := by
    intro q
    rw [← List.forall_iff_forall_mem]
    cases q <;> decide
  exact fun hc => hall q c hc h

theorem stepOutside_char (s : State) (c : Char) : (stepOutside s c).2 = c ∨
    (stepOutside s c).2 = structural c ∨ ∃ q : Quote, c ∈ q.variants ∧ (stepOutside s c).2 = q.char := by
  rw [stepOutside]
  split_ifs with h₁ h₂ h₃ h₄ h₅ h₆ h₇ h₈ h₉
  · exact .inl rfl
  · exact .inr (.inr ⟨.double, h₂.2, rfl⟩)
  · exact .inr (.inr ⟨.single, h₃.2, rfl⟩)
  · exact .inr (.inl h₄.1.symm)
  · exact .inr (.inl h₅.1.symm)
  · exact .inr (.inl h₆.1.symm)
  · exact .inr (.inl h₇.1.symm)
  · exact .inr (.inl h₈.1.symm)
  · exact .inr (.inl h₉.1.symm)
  · left
    split <;> rfl

theorem step_char (s : State) (c : Char) (close : Role → Bool) : (step s c close).2 = c ∨
    (step s c close).2 = structural c ∨
      ∃ q : Quote, c ∈ q.variants ∧ (step s c close).2 = q.char := by
  rw [step]
  split
  · exact .inl rfl
  · rename_i delimiter role _
    split_ifs with h₁ h₂ h₃
    · exact .inl rfl
    · exact .inr (.inr ⟨delimiter, h₂, rfl⟩)
    · exact .inl rfl
    · exact .inl rfl
  · split_ifs with h₁
    · exact .inr (.inl h₁.symm)
    · exact .inl rfl
  · split_ifs with h₁ h₂
    · exact .inl rfl
    · exact stepOutside_char _ c
    · exact .inl rfl
  · exact stepOutside_char s c

theorem stepOutside_idem (s : State) (c : Char) :
    stepOutside s (stepOutside s c).2 = stepOutside s c := by
  have hspace : ∀ x ∈ ['"', '\'', '{', '[', '}', ']', ':', ','], isSpace x = false :=
    List.forall_iff_forall_mem.mp (by decide)
  generalize hr : stepOutside s c = r
  by_cases hself : r.2 = c
  · rw [hself, hr]
  · rw [stepOutside] at hr
    split_ifs at hr with h₁ h₂ h₃ h₄ h₅ h₆ h₇ h₈ h₉
    · subst hr
      exact absurd rfl hself
    · subst hr
      simp [stepOutside, hspace, Quote.variants, Quote.char, h₂.1]
    · subst hr
      simp [stepOutside, hspace, Quote.variants, Quote.char, h₃.1]
    · subst hr
      simp [stepOutside, hspace, Quote.variants, structural, h₄.2]
    · subst hr
      simp [stepOutside, hspace, Quote.variants, structural, h₅.2]
    · subst hr
      simp [stepOutside, hspace, Quote.variants, structural, h₆.2]
    · subst hr
      simp [stepOutside, hspace, Quote.variants, structural, h₇.2]
    · subst hr
      simp [stepOutside, hspace, Quote.variants, structural, h₈.2]
    · subst hr
      simp [stepOutside, hspace, Quote.variants, structural, h₉.2]
    · subst hr
      refine absurd ?_ hself
      split <;> rfl

theorem step_idem (s : State) (c : Char) (close : Role → Bool) :
    step s (step s c close).2 close = step s c close := by
  obtain ⟨mode, stack, root⟩ := s
  cases mode with
  | outside => exact stepOutside_idem _ c
  | string delimiter role escape =>
    cases escape with
    | true => rfl
    | false =>
      have hd : delimiter.char ∈ delimiter.variants := by cases delimiter <;> decide
      have hb : delimiter.char ≠ '\\' := by cases delimiter <;> decide
      simp only [step]
      split_ifs <;> rfl
  | primitive role =>
    cases role with
    | key =>
      have hcolon : structural ':' = ':' := by decide
      by_cases hkey : structural c = ':'
      · simp [step, hkey, hcolon]
      · simp [step, hkey]
    | value =>
      by_cases hspace : isSpace c = true
      · simp [step, hspace]
      by_cases hend : structural c = ',' ∨ structural c = '}' ∨ structural c = ']'
      · have hout : ∀ x, isSpace x = false → structural x = structural c →
            step ⟨.primitive .value, stack, root⟩ x close =
              stepOutside (State.completed ⟨.outside, stack, root⟩) x := by
          intro x hx hs
          rw [← hs] at hend
          simp [step, hx, hend, State.within]
        have hidem := stepOutside_idem (State.completed ⟨.outside, stack, root⟩) c
        rw [hout c (by simpa using hspace) rfl]
        obtain ho | ho | ⟨q, hq, -⟩ :=
          stepOutside_char (State.completed ⟨.outside, stack, root⟩) c
        · rw [hout _ (by rw [ho]; simpa using hspace) (by rw [ho])]
          exact hidem
        · rw [hout _ (by rw [ho, isSpace_structural]; simpa using hspace)
            (by rw [ho, structural_idem])]
          exact hidem
        · exact absurd hq (not_variant_of_structural hend q)
      · simp [step, hspace, hend]

theorem isSpace_step (s : State) (c : Char) (close : Role → Bool) :
    isSpace (step s c close).2 = isSpace c := by
  obtain h | h | ⟨q, hq, h⟩ := step_char s c close
  · rw [h]
  · rw [h, isSpace_structural]
  · have hall : ∀ q : Quote, isSpace q.char = false ∧ ∀ x ∈ q.variants, isSpace x = false := by
      intro q
      rw [← List.forall_iff_forall_mem]
      cases q <;> decide +kernel
    rw [h, (hall q).1, (hall q).2 c hq]

theorem followers_step (s : State) (c : Char) (close : Role → Bool) (role : Role) :
    (step s c close).2 ∈ role.followers ↔ c ∈ role.followers := by
  obtain h | h | ⟨q, hq, h⟩ := step_char s c close
  · rw [h]
  · rw [h, followers_structural]
  · have hall : ∀ q : Quote, q.char ∉ role.followers ∧ ∀ x ∈ q.variants, x ∉ role.followers := by
      intro q
      rw [← List.forall_iff_forall_mem]
      cases q <;> cases role <;> decide
    rw [h]
    exact iff_of_false (hall q).1 ((hall q).2 c hq)

theorem canClose_run (s : State) (text : Text) : canClose (run s text) = canClose text := by
  funext role
  induction text generalizing s with
  | nil => rfl
  | cons c rest ih =>
    have hrest := ih (step s c (canClose rest)).1
    cases hc : isSpace c with
    | true =>
      simp only [run, canClose, List.dropWhile_cons, isSpace_step, hc, if_true] at hrest ⊢
      exact hrest
    | false => simp [run, canClose, isSpace_step, followers_step, hc]

theorem run_run (s : State) (text : Text) : run s (run s text) = run s text := by
  induction text generalizing s with
  | nil => rfl
  | cons c rest ih =>
    simp only [run]
    rw [canClose_run, step_idem, ih]

end Agently.Utils.JsonRepair
