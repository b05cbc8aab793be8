import Agently.Lib.WeightedSuffix
import Mathlib.Data.Nat.Digits.Defs

/-! # The context window of a session

Source: `core/session/Session.py`, `types/data/prompt.py`, with the default handlers and
automatic resizing. A message given as a dict has no further fields; a single message is a
sequence of one. -/

namespace Agently.ContextWindow

open Agently.Lib

/-- `extra` has each further field with the text its value has in a dump. -/
structure ChatMessage where
  role : List Char
  content : List Char
  extra : List (List Char × List Char) := []
  deriving DecidableEq

section Dump

variable (isPrintable : Char → Bool)

def apostrophe : Char := Char.ofNat 39
def quotation : Char := Char.ofNat 34
def backslash : Char := Char.ofNat 92

def hexText (width n : Nat) : List Char :=
  (List.range width).reverse.map fun k => Nat.digitChar (n / 16 ^ k % 16)

def reprChar (quote c : Char) : List Char :=
  let n := c.toNat
  if c = quote ∨ c = backslash then [backslash, c]
  else if n = 9 then [backslash, 't']
  else if n = 10 then [backslash, 'n']
  else if n = 13 then [backslash, 'r']
  else if isPrintable c then [c]
  else if n < 256 then [backslash, 'x'] ++ hexText 2 n
  else if n < 65536 then [backslash, 'u'] ++ hexText 4 n
  else [backslash, 'U'] ++ hexText 8 n

def reprText (s : List Char) : List Char :=
  let quote := if apostrophe ∈ s ∧ quotation ∉ s then quotation else apostrophe
  quote :: (s.flatMap (reprChar isPrintable quote) ++ [quote])

def modelDump (m : ChatMessage) : List Char :=
  "\x7b'role': ".toList ++ reprText isPrintable m.role ++ ", 'content': ".toList ++
    reprText isPrintable m.content ++
    m.extra.flatMap (fun e => ", ".toList ++ reprText isPrintable e.1 ++ ": ".toList ++ e.2) ++
    "\x7d".toList

def messageLength (m : ChatMessage) : Nat := (modelDump isPrintable m).length

def calculateContextLength (window : List ChatMessage) : Nat :=
  WeightedSuffix.total (messageLength isPrintable) window

def sliceFrom (s : List Char) (start : Int) : List Char :=
  s.drop (if 0 ≤ start then start.toNat else (s.length + start).toNat)

def keepNewest (max_length : Int) : Nat → List ChatMessage → List ChatMessage
  | _, [] => []
  | total_length, m :: rest =>
    if max_length < total_length + messageLength isPrintable m then []
    else m :: keepNewest max_length (total_length + messageLength isPrintable m) rest

/-- `_default_analysis_handler`: whether the strategy is `simple_cut`. A `max_length` of no
integer is `none`. -/
def analyze (max_length : Option Int) (window : List ChatMessage) : Bool :=
  max_length.any fun n : Int => n < (calculateContextLength isPrintable window : Int)

/-- `_simple_cut_resize_handler`: the new window, if there is one. -/
def simpleCut (max_length : Option Int) (window : List ChatMessage) :
    Option (List ChatMessage) :=
  max_length.bind fun n =>
    let kept := (keepNewest isPrintable n 0 window.reverse).reverse
    match kept, window.getLast? with
    | [], some m => some [{ role := m.role, content := sliceFrom m.content (m.content.length - n) }]
    | _, _ => if calculateContextLength isPrintable kept ≤ n then some kept else none

structure Session where
  max_length : Option Int
  full_context : List ChatMessage := []
  context_window : List ChatMessage := []

def resize (s : Session) : Session :=
  if analyze isPrintable s.max_length s.context_window then
    { s with
      context_window := (simpleCut isPrintable s.max_length s.context_window).getD
        s.context_window }
  else s

inductive Operation where
  | add (messages : List ChatMessage)
  | set (messages : List ChatMessage)
  | reset
  | clean

def perform (s : Session) : Operation → Session
  | .add ms => resize isPrintable { s with
      full_context := s.full_context ++ ms
      context_window := s.context_window ++ ms }
  | .set ms => resize isPrintable { s with full_context := ms, context_window := ms }
  | .reset => resize isPrintable { s with full_context := [], context_window := [] }
  | .clean => resize isPrintable { s with context_window := [] }

def run (max_length : Option Int) (ops : List Operation) : Session :=
  ops.foldl (perform isPrintable) { max_length := max_length }

end Dump

/-- The messages since the last `set` or `reset`, and those since a `clean` as well. -/
structure History where
  messages : List ChatMessage := []
  recent : List ChatMessage := []

def History.record (h : History) : Operation → History
  | .add ms => { messages := h.messages ++ ms, recent := h.recent ++ ms }
  | .set ms => { messages := ms, recent := ms }
  | .reset => {}
  | .clean => { h with recent := [] }

def historyOf (ops : List Operation) : History := ops.foldl History.record {}

def lastOf (n : Nat) (m : ChatMessage) : ChatMessage where
  role := m.role
  content := m.content.drop (m.content.length - n)

/-- The newest part of `recent` that is no longer than `n`. -/
structure NewestPart (length : List ChatMessage → Nat) (n : Nat)
    (recent window : List ChatMessage) : Prop where
  suffix : window <:+ recent
  fits : length window ≤ n
  longest : ∀ part, part <:+ recent → length part ≤ n → part.length ≤ window.length

section Windows

variable (isPrintable : Char → Bool) (n : Nat)

def tooLong? (messages : List ChatMessage) : Option ChatMessage :=
  messages.getLast?.filter fun m => n < messageLength isPrintable m

def WindowOf (recent window : List ChatMessage) : Prop :=
  match tooLong? isPrintable n recent with
  | some m => window = [lastOf n m]
  | none => NewestPart (calculateContextLength isPrintable) n recent window

/-- A message fits, or its text is cut where the slice of the source cuts it, and what is left
is still too long. -/
def CutExactly (m : ChatMessage) : Prop :=
  messageLength isPrintable m ≤ n ∨ n ≤ m.content.length ∨
    2 * m.content.length ≤ n ∧ n < messageLength isPrintable { m with extra := [] }

def Operation.CutExactly : Operation → Prop
  | .add ms | .set ms => ∀ m, ms.getLast? = some m → ContextWindow.CutExactly isPrintable n m
  | .reset | .clean => True

end Windows

section Cutting

variable {isPrintable : Char → Bool} {n : Nat} {m : ChatMessage} {ms recent window : List ChatMessage}

theorem length_le_flatMap {f : Char → List Char} (hf : ∀ c, 1 ≤ (f c).length) (s : List Char) :
    s.length ≤ (s.flatMap f).length := by
  induction s with
  | nil => exact Nat.zero_le _
  | cons c s ih =>
    have hc := hf c
    rw [List.flatMap_cons, List.length_append, List.length_cons]
    omega

theorem one_le_reprChar (isPrintable : Char → Bool) (quote c : Char) : 1 ≤ (reprChar isPrintable quote c).length := by
  unfold reprChar
  dsimp only
  split_ifs <;> exact Nat.succ_le_succ (Nat.zero_le _)

theorem content_lt_messageLength (isPrintable : Char → Bool) (m : ChatMessage) :
    m.content.length < messageLength isPrintable m := by
  have hrepr : m.content.length < (reprText isPrintable m.content).length := by
    have hchars := length_le_flatMap (one_le_reprChar isPrintable
      (if apostrophe ∈ m.content ∧ quotation ∉ m.content then quotation else apostrophe)) m.content
    rw [reprText, List.length_cons, List.length_append]
    omega
  obtain ⟨before, after, h⟩ : ∃ before after, modelDump isPrintable m =
      before ++ reprText isPrintable m.content ++ after := ⟨_, _, List.append_assoc _ _ _⟩
  rw [messageLength, h, List.length_append, List.length_append]
  omega

theorem cut_eq_lastOf (h : CutExactly isPrintable n m) (hm : n < messageLength isPrintable m) :
    ({ role := m.role, content := sliceFrom m.content (m.content.length - n) } : ChatMessage) =
      lastOf n m := by
  have hstart : (if (0 : Int) ≤ m.content.length - n then
      ((m.content.length : Int) - n).toNat else (m.content.length + (m.content.length - n : Int)).toNat)
        = m.content.length - n := by
    rcases h with h | h | ⟨h, -⟩ <;> split <;> omega
  rw [sliceFrom, hstart]
  rfl

theorem lastOf_of_le (h : m.content.length ≤ n) : lastOf n m = { m with extra := [] } := by
  rw [lastOf, Nat.sub_eq_zero_of_le h, List.drop_zero]

theorem cutExactly_lastOf (h : CutExactly isPrintable n m) (hm : n < messageLength isPrintable m) :
    CutExactly isPrintable n (lastOf n m) ∧ n < messageLength isPrintable (lastOf n m) := by
  by_cases hlong : n ≤ m.content.length
  · have hlen : (lastOf n m).content.length = n := by
      rw [lastOf, List.length_drop]
      omega
    have hlt := content_lt_messageLength isPrintable (lastOf n m)
    exact ⟨.inr (.inl hlen.ge), by omega⟩
  · rcases h with h | h | ⟨hshort, hbare⟩
    · omega
    · omega
    · rw [lastOf_of_le (by omega)]
      exact ⟨.inr (.inr ⟨hshort, hbare⟩), hbare⟩

theorem lastOf_lastOf : lastOf n (lastOf n m) = lastOf n m := by
  have hlen : (lastOf n m).content.length ≤ n := by
    rw [lastOf, List.length_drop]
    omega
  exact lastOf_of_le hlen

theorem keepNewest_reverse {total_length : Nat} (h : total_length ≤ n)
    (window : List ChatMessage) :
    (keepNewest isPrintable n total_length window.reverse).reverse =
      WeightedSuffix.longest (messageLength isPrintable) (n - total_length) window := by
  induction window using List.reverseRecOn generalizing total_length with
  | nil => rfl
  | append_singleton window m ih =>
    rw [List.reverse_concat, keepNewest, WeightedSuffix.longest_concat]
    by_cases hm : n - total_length < messageLength isPrintable m
    · rw [if_pos hm, if_pos (by omega)]
      rfl
    · rw [if_neg hm, if_neg (by omega), List.reverse_cons, ih (by omega), Nat.sub_sub]

theorem longest_of_tooLong (h : tooLong? isPrintable n window = some m) :
    WeightedSuffix.longest (messageLength isPrintable) n window = [] := by
  obtain ⟨hlast, hm⟩ := Option.filter_eq_some_iff.mp h
  obtain ⟨rest, rfl⟩ := List.getLast?_eq_some_iff.mp hlast
  rw [WeightedSuffix.longest_concat, if_pos (of_decide_eq_true hm)]

theorem eq_nil_of_longest (h : tooLong? isPrintable n window = none)
    (hl : WeightedSuffix.longest (messageLength isPrintable) n window = []) : window = [] := by
  induction window using List.reverseRecOn with
  | nil => rfl
  | append_singleton rest m _ =>
    have hfits : ¬ n < messageLength isPrintable m := by
      simpa [tooLong?, Option.filter] using h
    rw [WeightedSuffix.longest_concat, if_neg hfits] at hl
    simp at hl

theorem resize_window {s : Session} (hs : s.max_length = some (n : Int)) :
    (resize isPrintable s).context_window =
      match tooLong? isPrintable n s.context_window with
      | some m => [{ role := m.role, content := sliceFrom m.content (m.content.length - n) }]
      | none => WeightedSuffix.longest (messageLength isPrintable) n s.context_window := by
  have hkeep : (keepNewest isPrintable n 0 s.context_window.reverse).reverse =
      WeightedSuffix.longest (messageLength isPrintable) n s.context_window :=
    keepNewest_reverse (Nat.zero_le n) s.context_window
  unfold resize
  split
  · simp only [simpleCut, hs, Option.bind_some, hkeep]
    cases hlong : tooLong? isPrintable n s.context_window with
    | some m =>
      rw [longest_of_tooLong hlong, (Option.filter_eq_some_iff.mp hlong).1]
      rfl
    | none =>
      have hfits : WeightedSuffix.total (messageLength isPrintable) (WeightedSuffix.longest
          (messageLength isPrintable) n s.context_window) ≤ n := WeightedSuffix.total_longest
      cases hl : WeightedSuffix.longest (messageLength isPrintable) n s.context_window with
      | nil =>
        rw [eq_nil_of_longest hlong hl]
        rfl
      | cons m rest =>
        rw [hl] at hfits
        dsimp only
        rw [if_pos (by exact_mod_cast hfits)]
        rfl
  · next hno =>
    have hfits : calculateContextLength isPrintable s.context_window ≤ n := by
      simpa [analyze, hs] using hno
    rw [WeightedSuffix.longest_of_le hfits]
    cases hlong : tooLong? isPrintable n s.context_window with
    | none => rfl
    | some m =>
      have hempty := longest_of_tooLong hlong
      rw [WeightedSuffix.longest_of_le hfits] at hempty
      rw [hempty] at hlong
      cases hlong

def windowOf (isPrintable : Char → Bool) (n : Nat) (recent : List ChatMessage) :
    List ChatMessage :=
  match tooLong? isPrintable n recent with
  | some m => [lastOf n m]
  | none => WeightedSuffix.longest (messageLength isPrintable) n recent

theorem windowOf_spec : WindowOf isPrintable n recent (windowOf isPrintable n recent) := by
  unfold WindowOf windowOf
  split
  · rfl
  · exact ⟨WeightedSuffix.longest_suffix, WeightedSuffix.total_longest,
      fun part hp hfits => (WeightedSuffix.suffix_longest hp hfits).length_le⟩

theorem tooLong_append (hms : ms ≠ []) :
    tooLong? isPrintable n (window ++ ms) = tooLong? isPrintable n ms := by
  rw [tooLong?, List.getLast?_append_of_ne_nil _ hms]
  rfl

theorem exact_append (hr : ∀ m, recent.getLast? = some m → CutExactly isPrintable n m)
    (hm : ∀ m, ms.getLast? = some m → CutExactly isPrintable n m) :
    ∀ m, (recent ++ ms).getLast? = some m → CutExactly isPrintable n m := by
  intro m hlast
  by_cases hms : ms = []
  · rw [hms, List.append_nil] at hlast
    exact hr m hlast
  · rw [List.getLast?_append_of_ne_nil _ hms] at hlast
    exact hm m hlast

/-- The window of the recent messages, with more messages after it, is cut as they would be. -/
theorem resize_windowOf {s : Session} (hs : s.max_length = some (n : Int))
    (hw : s.context_window = windowOf isPrintable n recent ++ ms)
    (hexact : ∀ m, recent.getLast? = some m → CutExactly isPrintable n m)
    (hnew : ∀ m, ms.getLast? = some m → CutExactly isPrintable n m) :
    (resize isPrintable s).context_window = windowOf isPrintable n (recent ++ ms) := by
  rw [resize_window hs, hw]
  by_cases hms : ms = []
  · subst hms
    rw [List.append_nil, List.append_nil]
    cases hlong : tooLong? isPrintable n recent with
    | some m =>
      obtain ⟨hlast, hm⟩ := Option.filter_eq_some_iff.mp hlong
      have hcut := hexact m hlast
      obtain ⟨hcut', hm'⟩ := cutExactly_lastOf hcut (of_decide_eq_true hm)
      have hagain : tooLong? isPrintable n [lastOf n m] = some (lastOf n m) := by
        exact Option.filter_some_pos (decide_eq_true hm')
      simp only [windowOf, hlong, hagain]
      rw [cut_eq_lastOf hcut' hm', lastOf_lastOf]
    | none =>
      have hshort : tooLong? isPrintable n
          (WeightedSuffix.longest (messageLength isPrintable) n recent) = none := by
        by_contra hne
        obtain ⟨m, hm⟩ := Option.ne_none_iff_exists'.mp hne
        have hnil := longest_of_tooLong hm
        rw [WeightedSuffix.longest_of_le WeightedSuffix.total_longest] at hnil
        rw [hnil] at hm
        cases hm
      simp only [windowOf, hlong, hshort]
      exact WeightedSuffix.longest_of_le WeightedSuffix.total_longest
  · rw [tooLong_append hms, windowOf.eq_def _ _ (recent ++ ms), tooLong_append hms]
    cases hnewest : tooLong? isPrintable n ms with
    | some m =>
      obtain ⟨hlast, hm⟩ := Option.filter_eq_some_iff.mp hnewest
      exact congrArg (fun x => [x]) (cut_eq_lastOf (hnew m hlast) (of_decide_eq_true hm))
    | none =>
      dsimp only
      rw [← @WeightedSuffix.longest_append _ _ _ recent]
      cases hlong : tooLong? isPrintable n recent with
      | some m =>
        obtain ⟨hlast, hm⟩ := Option.filter_eq_some_iff.mp hlong
        have hm' := (cutExactly_lastOf (hexact m hlast) (of_decide_eq_true hm)).2
        simp only [windowOf, hlong, longest_of_tooLong hlong]
        exact WeightedSuffix.longest_cons_of_lt hm'
      | none => simp only [windowOf, hlong]

theorem resize_fresh {s : Session} (hs : s.max_length = some (n : Int))
    (hw : s.context_window = ms)
    (hnew : ∀ m, ms.getLast? = some m → CutExactly isPrintable n m) :
    (resize isPrintable s).context_window = windowOf isPrintable n ms := by
  have hempty : s.context_window = windowOf isPrintable n [] ++ ms := hw
  exact resize_windowOf hs hempty nofun hnew

theorem resize_full_context (s : Session) :
    (resize isPrintable s).full_context = s.full_context ∧
      (resize isPrintable s).max_length = s.max_length := by
  unfold resize
  split <;> exact ⟨rfl, rfl⟩

structure Agrees (isPrintable : Char → Bool) (n : Nat) (s : Session) (h : History) : Prop where
  limit : s.max_length = some (n : Int)
  full : s.full_context = h.messages
  window : s.context_window = windowOf isPrintable n h.recent
  exact : ∀ m, h.recent.getLast? = some m → CutExactly isPrintable n m

theorem agrees_perform {s : Session} {h : History} {op : Operation}
    (hs : Agrees isPrintable n s h) (hop : op.CutExactly isPrintable n) :
    Agrees isPrintable n (perform isPrintable s op) (h.record op) := by
  cases op with
  | add ms =>
    exact ⟨(resize_full_context _).2.trans hs.limit,
      (resize_full_context _).1.trans (congrArg (· ++ ms) hs.full),
      resize_windowOf hs.limit (congrArg (· ++ ms) hs.window) hs.exact hop,
      exact_append hs.exact hop⟩
  | set ms =>
    exact ⟨(resize_full_context _).2.trans hs.limit, (resize_full_context _).1,
      resize_fresh hs.limit rfl hop, hop⟩
  | reset =>
    exact ⟨(resize_full_context _).2.trans hs.limit, (resize_full_context _).1,
      resize_fresh hs.limit rfl nofun, nofun⟩
  | clean =>
    exact ⟨(resize_full_context _).2.trans hs.limit, (resize_full_context _).1.trans hs.full,
      resize_fresh hs.limit rfl nofun, nofun⟩

theorem agrees_foldl {s : Session} {h : History} {ops : List Operation}
    (hs : Agrees isPrintable n s h) (hops : ∀ op ∈ ops, op.CutExactly isPrintable n) :
    Agrees isPrintable n (ops.foldl (perform isPrintable) s) (ops.foldl History.record h) := by
  induction ops generalizing s h with
  | nil => exact hs
  | cons op ops ih =>
    exact ih (agrees_perform hs (hops op List.mem_cons_self))
      fun o ho => hops o (List.mem_cons_of_mem op ho)

end Cutting

/-- After operations whose newest messages are cut exactly, the window is the newest part of the
recent messages. -/
theorem window_is_newest_part (isPrintable : Char → Bool) (n : Nat) (ops : List Operation)
    (hops : ∀ op ∈ ops, op.CutExactly isPrintable n) :
    (run isPrintable (some n) ops).full_context = (historyOf ops).messages ∧
      WindowOf isPrintable n (historyOf ops).recent (run isPrintable (some n) ops).context_window := by
  have h : Agrees isPrintable n (run isPrintable (some n) ops) (historyOf ops) :=
    agrees_foldl ⟨rfl, rfl, rfl, nofun⟩ hops
  exact ⟨h.full, h.window ▸ windowOf_spec⟩

def greeting : ChatMessage := { role := ['u'], content := List.replicate 20 'a' }

theorem window_is_newest_part_long :
    WindowOf Char.isAlphanum 20 [greeting]
      (run Char.isAlphanum (some 20) [.set [greeting], .add []]).context_window :=
  (window_is_newest_part Char.isAlphanum 20 [.set [greeting], .add []] (by
    intro op hop
    rcases List.mem_cons.mp hop with rfl | hop
    · intro m hm
      cases hm
      exact .inr (.inl (by decide))
    · cases List.mem_singleton.mp hop
      exact nofun)).2

theorem text_cut_too_short :
    ¬ ∀ (isPrintable : Char → Bool) (n : Nat) (ops : List Operation),
      WindowOf isPrintable n (historyOf ops).recent
        (run isPrintable (some n) ops).context_window := by
  intro h
  have hw := h Char.isAlphanum 30 [.add [greeting]]
  have hlong : tooLong? Char.isAlphanum 30 (historyOf [.add [greeting]]).recent =
      some greeting := by decide +kernel
  rw [WindowOf, hlong] at hw
  exact absurd hw (by decide +kernel)

end Agently.ContextWindow
