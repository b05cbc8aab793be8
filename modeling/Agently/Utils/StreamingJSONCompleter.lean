import Mathlib.Data.List.Infix

/-! # Completing a JSON text

Source: `StreamingJSONCompleter.complete` of `utils/StreamingJSONCompleter.py`, without repair.
One pass over the buffer keeps the open brackets and whether it is within a string or a comment;
what is open at the end is closed. -/

namespace Agently.Utils.StreamingJSONCompleter

inductive Quote where
  | double
  | single
  deriving DecidableEq

def Quote.char : Quote → Char
  | .double => '"'
  | .single => '\''

def quoteOf (ch : Char) : Option Quote :=
  if ch = '"' then some .double else if ch = '\'' then some .single else none

inductive Bracket where
  | brace
  | square
  deriving DecidableEq

def Bracket.opener : Bracket → Char
  | .brace => '{'
  | .square => '['

def Bracket.closer : Bracket → Char
  | .brace => '}'
  | .square => ']'

def openerOf (ch : Char) : Option Bracket :=
  if ch = '{' then some .brace else if ch = '[' then some .square else none

def closerOf (ch : Char) : Option Bracket :=
  if ch = '}' then some .brace else if ch = ']' then some .square else none

/-- `in_string` with `string_char` and `escape`, and `comment`. -/
inductive Mode where
  | outside
  | string (string_char : Quote) (escape : Bool)
  | line_comment
  | block_comment
  deriving DecidableEq

structure Scan where
  mode : Mode := .outside
  stack : List Bracket := []
  deriving DecidableEq

/-- What a character does: `skip` passes over the next one too, `complete` closes the last
open bracket. -/
inductive Step where
  | next (s : Scan)
  | skip (s : Scan)
  | complete

def step (s : Scan) (ch : Char) (next_ch : Option Char) : Step :=
  match s.mode with
  | .string q true => .next { s with mode := .string q false }
  | .string q false =>
    if ch = '\\' then .next { s with mode := .string q true }
    else if ch = q.char then .next { s with mode := .outside }
    else .next s
  | .outside =>
    match quoteOf ch with
    | some q => .next { s with mode := .string q false }
    | none =>
      if ch = '/' ∧ next_ch = some '/' then .skip { s with mode := .line_comment }
      else if ch = '/' ∧ next_ch = some '*' then .skip { s with mode := .block_comment }
      else
        match openerOf ch with
        | some b => .next { s with stack := b :: s.stack }
        | none =>
          match closerOf ch with
          | none => .next s
          | some b =>
            match s.stack with
            | [] => .next s
            | top :: stack =>
              if top = b then
                if stack = [] then .complete else .next { s with stack := stack }
              else .next s
  | .line_comment =>
    if ch = '\n' ∨ ch = '\r' then .next { s with mode := .outside } else .next s
  | .block_comment =>
    if ch = '*' ∧ next_ch = some '/' then .skip { s with mode := .outside } else .next s

inductive Scanned where
  | complete (i : Nat)
  | opened (s : Scan)

def scan (s : Scan) (i : Nat) : List Char → Scanned
  | [] => .opened s
  | ch :: rest =>
    match step s ch rest.head? with
    | .next s => scan s (i + 1) rest
    | .skip s =>
      match rest with
      | [] => .opened s
      | _ :: rest => scan s (i + 2) rest
    | .complete => .complete (i + 1)

def Mode.closing : Mode → List Char
  | .outside => []
  | .string q _ => [q.char]
  | .line_comment => ['\n']
  | .block_comment => ['*', '/']

def Scan.closing (s : Scan) : List Char := s.mode.closing ++ s.stack.map Bracket.closer

def complete (buf : List Char) : List Char :=
  match scan {} 0 buf with
  | .complete i => buf.take i
  | .opened s => buf ++ s.closing

/-! ### The lexical rules

`lex` goes by the same steps through the whole text, also after a value has ended. -/

def lex (s : Scan) : List Char → Scan
  | [] => s
  | ch :: rest =>
    match step s ch rest.head? with
    | .next s => lex s rest
    | .skip s =>
      match rest with
      | [] => s
      | _ :: rest => lex s rest
    | .complete => lex {} rest

def Closed (text : List Char) : Prop := lex {} text = {}

def Plain (c : Char) : Prop :=
  quoteOf c = none ∧ openerOf c = none ∧ closerOf c = none ∧ c ≠ '/'

inductive StringBody (q : Quote) : List Char → Prop where
  | nil : StringBody q []
  | char {c : Char} {s : List Char} : c ≠ '\\' → c ≠ q.char → StringBody q s →
      StringBody q (c :: s)
  | escaped {c : Char} {s : List Char} : StringBody q s → StringBody q ('\\' :: c :: s)

inductive BlockBody : List Char → Prop where
  | nil : BlockBody []
  | char {c : Char} {s : List Char} : (c = '*' → s.head? ≠ some '/') → BlockBody s →
      BlockBody (c :: s)

/-- Whole tokens. Strings and containers stand in a container, plain characters and comments
also around the top-level value. What a grammar of JSON or JSON5 adds, how the tokens follow
each other, is left open. -/
inductive Tokens : Bool → List Char → Prop where
  | nil {inner : Bool} : Tokens inner []
  | plain {inner : Bool} {c : Char} {s : List Char} : Plain c → Tokens inner s →
      Tokens inner (c :: s)
  | line {inner : Bool} {body s : List Char} {c : Char} : '\n' ∉ body → '\r' ∉ body →
      c = '\n' ∨ c = '\r' → Tokens inner s → Tokens inner ('/' :: '/' :: (body ++ c :: s))
  | block {inner : Bool} {body s : List Char} : BlockBody body → Tokens inner s →
      Tokens inner ('/' :: '*' :: (body ++ '*' :: '/' :: s))
  | string {q : Quote} {body s : List Char} : StringBody q body → Tokens true s →
      Tokens true (q.char :: (body ++ q.char :: s))
  | container {b : Bracket} {items s : List Char} : Tokens true items → Tokens true s →
      Tokens true (b.opener :: (items ++ b.closer :: s))

inductive TopLevel : List Char → Prop where
  | intro {lead items : List Char} {b : Bracket} : Tokens false lead → Tokens true items →
      TopLevel (lead ++ b.opener :: (items ++ [b.closer]))

def Beginning (buf : List Char) : Prop :=
  ∃ value trail, TopLevel value ∧ Tokens false trail ∧ buf <+: value ++ trail

def HasValue (buf : List Char) : Prop := ∃ value, TopLevel value ∧ value <+: buf

/-- Completion closes everything and stops at the end of the top-level value. -/
structure ClosesEverything (buf : List Char) : Prop where
  closed : Closed (complete buf)
  extended : ¬ HasValue buf → buf <+: complete buf
  exact_value : ∀ value, TopLevel value → value <+: buf → complete buf = value

def CutInEscape (buf : List Char) : Prop :=
  ¬ HasValue buf ∧ ∃ q, (lex {} buf).mode = .string q true

variable {s s' : Scan} {i : Nat} {ch : Char} {rest : List Char}

theorem scan_of_next
    (h : step s ch rest.head? = .next s') : scan s i (ch :: rest) = scan s' (i + 1) rest := by
  rw [scan, h]

variable {c : Char}

theorem scan_of_skip (h : step s ch (some c) = .skip s') :
    scan s i (ch :: c :: rest) = scan s' (i + 2) rest := by
  rw [scan, List.head?_cons, h]

theorem scan_of_complete
    (h : step s ch rest.head? = .complete) : scan s i (ch :: rest) = .complete (i + 1) := by
  rw [scan, h]

theorem lex_of_next (h : step s ch rest.head? = .next s') : lex s (ch :: rest) = lex s' rest := by
  rw [lex, h]

theorem lex_of_skip
    (h : step s ch (some c) = .skip s') : lex s (ch :: c :: rest) = lex s' rest := by
  rw [lex, List.head?_cons, h]

theorem lex_of_complete
    (h : step s ch rest.head? = .complete) : lex s (ch :: rest) = lex {} rest := by
  rw [lex, h]

variable {stack : List Bracket}

theorem step_outside_plain (h : Plain c) (n : Option Char) :
    step ⟨.outside, stack⟩ c n = .next ⟨.outside, stack⟩ := by
  obtain ⟨hq, ho, hc, hs⟩ := h
  simp [step, hq, ho, hc, hs]

theorem step_outside_quote (stack : List Bracket) (q : Quote) (n : Option Char) :
    step ⟨.outside, stack⟩ q.char n = .next ⟨.string q false, stack⟩ := by
  cases q <;> rfl

theorem step_outside_opener (stack : List Bracket) (b : Bracket) (n : Option Char) :
    step ⟨.outside, stack⟩ b.opener n = .next ⟨.outside, b :: stack⟩ := by
  cases b <;> simp [step, Bracket.opener, quoteOf, openerOf]

theorem step_outside_closer (hs : stack ≠ []) (b : Bracket) (n : Option Char) :
    step ⟨.outside, b :: stack⟩ b.closer n = .next ⟨.outside, stack⟩ := by
  cases b <;> simp [step, Bracket.closer, quoteOf, openerOf, closerOf, hs]

theorem step_outside_last (b : Bracket) (n : Option Char) :
    step ⟨.outside, [b]⟩ b.closer n = .complete := by
  cases b <;> simp [step, Bracket.closer, quoteOf, openerOf, closerOf]

theorem step_string_char {q : Quote} (hc : c ≠ '\\') (hq : c ≠ q.char) (n : Option Char) :
    step ⟨.string q false, stack⟩ c n = .next ⟨.string q false, stack⟩ := by
  simp [step, hc, hq]

theorem step_string_quote (stack : List Bracket) (q : Quote) (n : Option Char) :
    step ⟨.string q false, stack⟩ q.char n = .next ⟨.outside, stack⟩ := by
  cases q <;> simp [step, Quote.char]

theorem step_line_comment (hn : c ≠ '\n') (hr : c ≠ '\r') (n : Option Char) :
    step ⟨.line_comment, stack⟩ c n = .next ⟨.line_comment, stack⟩ := by
  simp [step, hn, hr]

theorem step_line_break (hc : c = '\n' ∨ c = '\r')
    (n : Option Char) : step ⟨.line_comment, stack⟩ c n = .next ⟨.outside, stack⟩ := by
  simp [step, hc]

variable {n : Option Char}

theorem step_block_comment (h : c = '*' → n ≠ some '/') :
    step ⟨.block_comment, stack⟩ c n = .next ⟨.block_comment, stack⟩ := by
  have hc : ¬ (c = '*' ∧ n = some '/') := fun hc => h hc.1 hc.2
  simp [step, hc]

theorem next_of_skip (h : step s ch n = .skip s') :
    n = some '/' ∨ n = some '*' ∧ s.mode = .outside := by
  unfold step at h
  split at h
  · cases h
  · split at h
    · cases h
    · split at h <;> cases h
  · rename_i hm
    split at h
    · cases h
    · split at h
      · rename_i hs
        exact .inl hs.2
      · split at h
        · rename_i hs
          exact .inr ⟨hs.2, hm⟩
        · split at h
          · cases h
          · split at h
            · cases h
            · split at h
              · cases h
              · split at h
                · split at h <;> cases h
                · cases h
  · split at h <;> cases h
  · split at h
    · rename_i hs
      exact .inl hs.2
    · cases h

theorem step_any (hs : n ≠ some '/')
    (hb : s.mode = .outside → ch = '/' → n ≠ some '*') : step s ch n = step s ch none := by
  have h1 : ¬ (ch = '/' ∧ n = some '/') := fun h => hs h.2
  have h2 : ¬ (ch = '*' ∧ n = some '/') := fun h => hs h.2
  unfold step
  cases hm : s.mode with
  | string q escape => cases escape <;> rfl
  | outside =>
    have h3 : ¬ (ch = '/' ∧ n = some '*') := fun h => hb hm h.1 h.2
    simp [h1, h3]
  | line_comment => rfl
  | block_comment => simp [h2]

theorem complete_any (h : step s ch n = .complete) (m : Option Char) : step s ch m = .complete := by
  have hch : ch ≠ '/' ∧ s.mode = .outside := by
    unfold step at h
    split at h
    · cases h
    · split at h
      · cases h
      · split at h <;> cases h
    · rename_i hm
      refine ⟨?_, hm⟩
      rintro rfl
      split at h
      · cases h
      · split at h
        · cases h
        · split at h <;> cases h
    · split at h <;> cases h
    · split at h <;> cases h
  obtain ⟨hch, hm⟩ := hch
  unfold step at h ⊢
  rw [hm] at h ⊢
  simp only [hch, false_and, if_false] at h ⊢
  exact h

variable {buf : List Char}

theorem lex_of_scan (h : scan s i buf = .opened s') :
    lex s buf = s' := by
  fun_induction scan s i buf with
  | case1 s i => exact Scanned.opened.inj h
  | case2 s i ch rest s₁ hstep ih =>
    rw [lex_of_next hstep]
    exact ih h
  | case3 s i ch s₁ hstep =>
    rw [lex, hstep]
    exact Scanned.opened.inj h
  | case4 s i ch s₁ c rest hstep ih =>
    rw [lex_of_skip hstep]
    exact ih h
  | case5 s i ch rest hstep => cases h

theorem closed_of_scan {j : Nat} (h : scan s i buf = .complete j) :
    ∃ pre rest, buf = pre ++ rest ∧ j = i + pre.length ∧ pre ≠ [] ∧ lex s pre = {} ∧
      ∀ more, scan s i (pre ++ more) = .complete j := by
  fun_induction scan s i buf with
  | case1 s i => cases h
  | case2 s i ch rest s₁ hstep ih =>
    obtain ⟨pre, tail, rfl, hj, hne, hlex, hmore⟩ := ih h
    obtain ⟨c, pre, rfl⟩ := List.exists_cons_of_ne_nil hne
    have hstep : step s ch (some c) = .next s₁ := hstep
    refine ⟨ch :: c :: pre, tail, rfl, ?_, List.cons_ne_nil _ _, ?_, ?_⟩
    · rw [hj]
      simp only [List.length_cons]
      omega
    · exact (lex_of_next hstep).trans hlex
    · exact fun more => (scan_of_next hstep).trans (hmore more)
  | case3 s i ch s₁ hstep => cases h
  | case4 s i ch s₁ c rest hstep ih =>
    obtain ⟨pre, tail, rfl, hj, hne, hlex, hmore⟩ := ih h
    refine ⟨ch :: c :: pre, tail, rfl, ?_, List.cons_ne_nil _ _, ?_, ?_⟩
    · rw [hj]
      simp only [List.length_cons]
      omega
    · rw [lex_of_skip hstep]
      exact hlex
    · intro more
      rw [List.cons_append, List.cons_append, scan_of_skip hstep]
      exact hmore more
  | case5 s i ch rest hstep =>
    refine ⟨[ch], rest, rfl, (Scanned.complete.inj h).symm, List.cons_ne_nil _ _, ?_, ?_⟩
    · rw [lex_of_complete (complete_any hstep _)]
      rfl
    · intro more
      rw [List.cons_append, scan_of_complete (complete_any hstep _)]
      exact h

theorem lex_append {a b : List Char} (hs : b.head? ≠ some '/')
    (hb : (lex s a).mode = .outside → b.head? ≠ some '*') :
    lex s (a ++ b) = lex (lex s a) b := by
  fun_induction lex s a with
  | case1 s => rfl
  | case2 s ch rest s₁ hstep ih =>
    rw [List.cons_append, ← ih hb]
    apply lex_of_next
    cases rest with
    | cons c rest => exact hstep
    | nil =>
      rw [List.nil_append, step_any hs]
      · exact hstep
      · intro hm hch
        subst hch
        have hself : step s '/' none = .next s := by
          simp [step, hm, quoteOf, openerOf, closerOf]
        rw [List.head?_nil, hself] at hstep
        cases hstep
        exact hb hm
  | case3 s ch s₁ hstep =>
    obtain h | ⟨h, -⟩ := next_of_skip hstep
    · cases h
    · cases h
  | case4 s ch s₁ c rest hstep ih =>
    rw [List.cons_append, List.cons_append, lex_of_skip hstep]
    exact ih hb
  | case5 s ch rest hstep ih =>
    rw [List.cons_append, lex_of_complete (complete_any hstep _)]
    exact ih hb

theorem lex_closers (stack : List Bracket) :
    lex ⟨.outside, stack⟩ (stack.map Bracket.closer) = {} := by
  induction stack with
  | nil => rfl
  | cons b stack ih =>
    rw [List.map_cons]
    by_cases hs : stack = []
    · rw [hs, lex_of_complete (step_outside_last b _)]
      rfl
    · rw [lex_of_next (step_outside_closer hs b _)]
      exact ih

theorem lex_string_closers (q : Quote) (stack bs : List Bracket) :
    lex ⟨.string q false, stack⟩ (bs.map Bracket.closer) = ⟨.string q false, stack⟩ := by
  induction bs with
  | nil => rfl
  | cons b bs ih =>
    have hc : b.closer ≠ '\\' := by cases b <;> decide
    have hq : b.closer ≠ q.char := by cases b <;> cases q <;> decide
    rw [List.map_cons, lex_of_next (step_string_char hc hq _)]
    exact ih

theorem lex_closing (h : ∀ q, s.mode ≠ .string q true) : lex s s.closing = {} := by
  obtain ⟨mode, stack⟩ := s
  cases mode with
  | outside => exact lex_closers stack
  | string q escape =>
    cases escape with
    | true => exact absurd rfl (h q)
    | false =>
      have hstep : lex ⟨.string q false, stack⟩ (q.char :: stack.map Bracket.closer) =
          lex ⟨.outside, stack⟩ (stack.map Bracket.closer) :=
        lex_of_next (step_string_quote stack q _)
      exact hstep.trans (lex_closers stack)
  | line_comment =>
    have hstep : lex ⟨.line_comment, stack⟩ ('\n' :: stack.map Bracket.closer) =
        lex ⟨.outside, stack⟩ (stack.map Bracket.closer) :=
      lex_of_next (step_line_break (.inl rfl) _)
    exact hstep.trans (lex_closers stack)
  | block_comment => exact lex_closers stack

theorem lex_closing_escape {q : Quote} (h : s.mode = .string q true) :
    lex s s.closing = ⟨.string q false, s.stack⟩ := by
  obtain ⟨mode, stack⟩ := s
  obtain rfl : mode = .string q true := h
  exact lex_string_closers q stack stack

theorem head_closers (stack : List Bracket) :
    (stack.map Bracket.closer).head? ≠ some '/' ∧
      (stack.map Bracket.closer).head? ≠ some '*' := by
  cases stack with
  | nil => exact ⟨by simp, by simp⟩
  | cons b stack => cases b <;> exact ⟨by simp [Bracket.closer], by simp [Bracket.closer]⟩

theorem head_closing (s : Scan) :
    s.closing.head? ≠ some '/' ∧ (s.mode = .outside → s.closing.head? ≠ some '*') := by
  obtain ⟨mode, stack⟩ := s
  cases mode with
  | outside => exact ⟨(head_closers stack).1, fun _ => (head_closers stack).2⟩
  | string q escape =>
    refine ⟨?_, fun h => nomatch h⟩
    cases q <;> simp [Scan.closing, Mode.closing, Quote.char]
  | line_comment => exact ⟨by simp [Scan.closing, Mode.closing], fun h => nomatch h⟩
  | block_comment => exact ⟨by simp [Scan.closing, Mode.closing], fun h => nomatch h⟩

theorem lex_append_closing (buf : List Char) :
    lex {} (buf ++ (lex {} buf).closing) = lex (lex {} buf) (lex {} buf).closing :=
  lex_append (head_closing _).1 (head_closing _).2

variable {body : List Char}

theorem scan_string {q : Quote} (h : StringBody q body)
    (stack : List Bracket) (i : Nat) (rest : List Char) :
    scan ⟨.string q false, stack⟩ i (body ++ q.char :: rest) =
      scan ⟨.outside, stack⟩ (i + body.length + 1) rest := by
  induction h generalizing i with
  | nil => exact scan_of_next (step_string_quote stack q _)
  | @char c s hc hq _ ih =>
    rw [List.cons_append, scan_of_next (step_string_char hc hq _), ih, List.length_cons]
    congr 1
    omega
  | @escaped c s _ ih =>
    have hback : step ⟨.string q false, stack⟩ '\\' (c :: (s ++ q.char :: rest)).head? =
        .next ⟨.string q true, stack⟩ := rfl
    have hany : step ⟨.string q true, stack⟩ c (s ++ q.char :: rest).head? =
        .next ⟨.string q false, stack⟩ := rfl
    rw [List.cons_append, List.cons_append, scan_of_next hback, scan_of_next hany, ih,
      List.length_cons, List.length_cons]
    congr 1
    omega

theorem scan_line (hn : '\n' ∉ body) (hr : '\r' ∉ body)
    (hc : c = '\n' ∨ c = '\r') (stack : List Bracket) (i : Nat) (rest : List Char) :
    scan ⟨.line_comment, stack⟩ i (body ++ c :: rest) =
      scan ⟨.outside, stack⟩ (i + body.length + 1) rest := by
  induction body generalizing i with
  | nil => exact scan_of_next (step_line_break hc _)
  | cons d body ih =>
    have hdn : d ≠ '\n' := fun h => hn (by rw [h]; exact List.mem_cons_self)
    have hdr : d ≠ '\r' := fun h => hr (by rw [h]; exact List.mem_cons_self)
    rw [List.cons_append, scan_of_next (step_line_comment hdn hdr _),
      ih (fun h => hn (List.mem_cons_of_mem d h)) (fun h => hr (List.mem_cons_of_mem d h)),
      List.length_cons]
    congr 1
    omega

theorem scan_block (h : BlockBody body) (stack : List Bracket) (i : Nat) (rest : List Char) :
    scan ⟨.block_comment, stack⟩ i (body ++ '*' :: '/' :: rest) =
      scan ⟨.outside, stack⟩ (i + body.length + 2) rest := by
  induction h generalizing i with
  | nil => exact scan_of_skip rfl
  | @char c s hc _ ih =>
    have hnext : c = '*' → (s ++ '*' :: '/' :: rest).head? ≠ some '/' := by
      intro h
      have hs := hc h
      cases s with
      | nil => simp
      | cons d s => exact hs
    rw [List.cons_append, scan_of_next (step_block_comment hnext), ih, List.length_cons]
    congr 1
    omega

theorem scan_tokens {inner : Bool} {s : List Char} (h : Tokens inner s)
    (hs : inner = true → stack ≠ []) (i : Nat) (rest : List Char) :
    scan ⟨.outside, stack⟩ i (s ++ rest) = scan ⟨.outside, stack⟩ (i + s.length) rest := by
  induction h generalizing stack i rest with
  | nil => rfl
  | @plain inner c s hc _ ih =>
    rw [List.cons_append, scan_of_next (step_outside_plain hc _), ih hs, List.length_cons]
    congr 1
    omega
  | @line inner body s c hn hr hc _ ih =>
    have hopen : step ⟨.outside, stack⟩ '/' (some '/') = .skip ⟨.line_comment, stack⟩ := rfl
    rw [List.cons_append, List.cons_append, List.append_assoc, scan_of_skip hopen,
      List.cons_append, scan_line hn hr hc, ih hs]
    congr 1
    simp only [List.length_cons, List.length_append]
    omega
  | @block inner body s hb _ ih =>
    have hopen : step ⟨.outside, stack⟩ '/' (some '*') = .skip ⟨.block_comment, stack⟩ := rfl
    rw [List.cons_append, List.cons_append, List.append_assoc, scan_of_skip hopen,
      List.cons_append, List.cons_append, scan_block hb, ih hs]
    congr 1
    simp only [List.length_cons, List.length_append]
    omega
  | @string q body s hb _ ih =>
    rw [List.cons_append, List.append_assoc, scan_of_next (step_outside_quote stack q _),
      List.cons_append, scan_string hb, ih hs]
    congr 1
    simp only [List.length_cons, List.length_append]
    omega
  | @container b items s _ _ ihitems ih =>
    rw [List.cons_append, List.append_assoc, scan_of_next (step_outside_opener stack b _),
      ihitems (fun _ => List.cons_ne_nil b stack), List.cons_append,
      scan_of_next (step_outside_closer (hs rfl) b _), ih hs]
    congr 1
    simp only [List.length_cons, List.length_append]
    omega

theorem scan_topLevel {value : List Char} (h : TopLevel value) (rest : List Char) :
    scan {} 0 (value ++ rest) = .complete value.length := by
  obtain ⟨hl, hi⟩ := h
  rename_i lead items b
  rw [List.append_assoc, scan_tokens hl (fun h => nomatch h), List.cons_append,
    scan_of_next (step_outside_opener [] b _), List.append_assoc,
    scan_tokens hi (fun _ => List.cons_ne_nil b []),
    List.singleton_append, scan_of_complete (step_outside_last b _)]
  congr 1
  simp only [List.length_cons, List.length_append, List.length_nil]
  omega

theorem complete_of_value {value : List Char} (h : TopLevel value) (hb : value <+: buf) :
    complete buf = value := by
  obtain ⟨rest, rfl⟩ := hb
  rw [complete, scan_topLevel h]
  exact List.take_left

theorem complete_of_opened (h : scan {} 0 buf = .opened s) :
    complete buf = buf ++ (lex {} buf).closing := by
  rw [complete, h, lex_of_scan h]

theorem hasValue_of_scan {j : Nat} (hbuf : Beginning buf)
    (h : scan {} 0 buf = .complete j) : HasValue buf := by
  obtain ⟨value, trail, hv, -, hpre⟩ := hbuf
  refine ⟨value, hv, ?_⟩
  obtain hle | hle := List.prefix_or_prefix_of_prefix hpre (List.prefix_append value trail)
  · obtain ⟨more, rfl⟩ := hle
    obtain ⟨pre, rest, rfl, hj, -, -, hmore⟩ := closed_of_scan h
    have hscan := scan_topLevel hv []
    rw [List.append_nil, List.append_assoc, hmore] at hscan
    have hlen := Scanned.complete.inj hscan
    simp only [List.length_append] at hlen
    have hnil : more = [] := List.eq_nil_of_length_eq_zero (by omega)
    rw [hnil, List.append_nil]
  · exact hle

theorem opened_of_not_hasValue (hbuf : Beginning buf) (h : ¬ HasValue buf) :
    ∃ s, scan {} 0 buf = .opened s := by
  cases hs : scan {} 0 buf with
  | complete j => exact absurd (hasValue_of_scan hbuf hs) h
  | opened s => exact ⟨s, rfl⟩

theorem closed_complete_of_value (h : HasValue buf) : Closed (complete buf) := by
  obtain ⟨value, hv, hb⟩ := h
  rw [complete_of_value hv hb]
  have hscan := scan_topLevel hv []
  rw [List.append_nil] at hscan
  obtain ⟨pre, rest, hpre, hj, -, hlex, -⟩ := closed_of_scan hscan
  have hlen := congrArg List.length hpre
  simp only [List.length_append] at hlen
  have hnil : rest = [] := List.eq_nil_of_length_eq_zero (by omega)
  rw [hnil, List.append_nil] at hpre
  rw [hpre]
  exact hlex

theorem topLevel_of_items {items : List Char} (h : Tokens true items) (b : Bracket) :
    TopLevel (b.opener :: (items ++ [b.closer])) :=
  @TopLevel.intro [] items b .nil h

end Agently.Utils.StreamingJSONCompleter
