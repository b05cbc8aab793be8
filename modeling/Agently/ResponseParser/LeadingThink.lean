import Agently.TaskBoard.TaskBoardData

/-! # Leading think blocks

Source: `LeadingThinkEventNormalizer` of
`builtins/plugins/ResponseParser/AgentlyResponseParser.py`. A text is the list of its characters.
The opening tag is looked for in what is pending, the closing tag in each piece alone. -/

namespace Agently.ResponseParser

open Agently.TaskDAGValidation (isSpace)
open Agently.TaskBoard (lowerChar)

abbrev Text := List Char

inductive Mode where
  | unknown
  | reasoning
  | answer
  deriving DecidableEq

inductive Event where
  | reasoning_delta (text : Text)
  | reasoning_done (text : Text)
  | delta (text : Text)
  | done (text : Text)

def openTag : Text := ['<', 't', 'h', 'i', 'n', 'k', '>']

def closeTag : Text := ['<', '/', 't', 'h', 'i', 'n', 'k', '>']

def lstrip (s : Text) : Text := s.dropWhile isSpace

def lower (s : Text) : Text := s.map lowerChar

/-- Whether a literal of a pattern matches under `re.IGNORECASE`. -/
def ignoreCase (literal c : Char) : Bool :=
  lowerChar c == literal ||
    (literal == 'i' && (c == Char.ofNat 0x130 || c == Char.ofNat 0x131))

def matchTag : Text → Text → Option Text
  | [], s => some s
  | _ :: _, [] => none
  | t :: tag, c :: s => if ignoreCase t c then matchTag tag s else none

/-- `_CLOSE_RE.search`: what stands before and after the first match. -/
def search : Text → Option (Text × Text)
  | [] => none
  | c :: s =>
    match matchTag closeTag (c :: s) with
    | some rest => some ([], rest)
    | none => (search s).map fun p => (c :: p.1, p.2)

structure LeadingThinkEventNormalizer where
  mode : Mode := .unknown
  pending : Text := []
  reasoning_buffer : Text := []
  reasoning_done_emitted : Bool := false

namespace LeadingThinkEventNormalizer

def drain_reasoning_pending (n : LeadingThinkEventNormalizer) :
    LeadingThinkEventNormalizer × List Event :=
  match search n.pending with
  | none =>
    if n.pending = [] then (n, [])
    else ({ n with reasoning_buffer := n.reasoning_buffer ++ n.pending, pending := [] },
      [.reasoning_delta n.pending])
  | some (reasoning, after) =>
    let buffer := n.reasoning_buffer ++ reasoning
    let rest := lstrip after
    ({ mode := .answer, pending := [], reasoning_buffer := buffer,
       reasoning_done_emitted := true },
      (if reasoning = [] then [] else [.reasoning_delta reasoning]) ++
      (if n.reasoning_done_emitted then [] else [.reasoning_done buffer]) ++
      (if rest = [] then [] else [.delta rest]))

def feed_delta (n : LeadingThinkEventNormalizer) (chunk : Text) :
    LeadingThinkEventNormalizer × List Event :=
  match n.mode with
  | .answer => (n, if chunk = [] then [] else [.delta chunk])
  | .reasoning => drain_reasoning_pending { n with pending := n.pending ++ chunk }
  | .unknown =>
    let pending := n.pending ++ chunk
    let leading := lstrip pending
    let lowered := lower leading
    if leading = [] then ({ n with pending := pending }, [])
    else if lowered <+: openTag ∧ lowered.length < openTag.length then
      ({ n with pending := pending }, [])
    else if openTag <+: lowered then
      drain_reasoning_pending
        { n with mode := .reasoning, pending := leading.drop openTag.length }
    else ({ n with mode := .answer, pending := [] },
      if pending = [] then [] else [.delta pending])

def strip_leading_think (n : LeadingThinkEventNormalizer) (content : Text) :
    LeadingThinkEventNormalizer × Text :=
  let leading := lstrip content
  if openTag <+: lower leading then
    match search leading with
    | none => (n, content)
    | some (before, after) =>
      let reasoning := before.drop openTag.length
      let n := if reasoning ≠ [] ∧ n.reasoning_buffer = [] then
        { n with reasoning_buffer := reasoning } else n
      let answer := lstrip after
      (n, if answer = [] then content else answer)
  else (n, content)

def feed_done (n : LeadingThinkEventNormalizer) (content : Text) :
    LeadingThinkEventNormalizer × List Event :=
  match strip_leading_think n content with
  | (n, answer) =>
    if n.reasoning_buffer ≠ [] ∧ n.reasoning_done_emitted = false then
      ({ n with reasoning_done_emitted := true },
        [.reasoning_done n.reasoning_buffer, .done answer])
    else (n, [.done answer])

def feed_deltas (n : LeadingThinkEventNormalizer) :
    List Text → LeadingThinkEventNormalizer × List Event
  | [] => (n, [])
  | chunk :: chunks =>
    let fed := feed_delta n chunk
    let rest := feed_deltas fed.1 chunks
    (rest.1, fed.2 ++ rest.2)

end LeadingThinkEventNormalizer

open LeadingThinkEventNormalizer

def events (chunks : List Text) : List Event :=
  let fed := feed_deltas {} chunks
  fed.2 ++ (feed_done fed.1 chunks.flatten).2

def deltaText (es : List Event) : Text :=
  es.flatMap fun | .delta s => s | _ => []

def reasoningText (es : List Event) : Text :=
  es.flatMap fun | .reasoning_delta s => s | _ => []

def reasoningDones (es : List Event) : List Text :=
  es.filterMap fun | .reasoning_done s => some s | _ => none

def dones (es : List Event) : List Text :=
  es.filterMap fun | .done s => some s | _ => none

def thinkBody (content : Text) : Option Text :=
  if openTag <+: lower (lstrip content) then some ((lstrip content).drop openTag.length)
  else none

def reasoningOf (content : Text) : Text :=
  match (thinkBody content).bind search with
  | some (reasoning, _) => reasoning
  | none => []

/-- The answer, the reasoning and its end as the consumer of the events has them. -/
structure Results where
  answer : Text
  deltas : Text
  reasoning : Text
  reasoningDone : List Text

def results (chunks : List Text) : Results where
  answer := (dones (events chunks)).flatten
  deltas := lstrip (deltaText (events chunks))
  reasoning := reasoningText (events chunks)
  reasoningDone := reasoningDones (events chunks)

/-- The think block of the content is separated from its answer, as it would be in one
chunk. -/
structure Separated (chunks : List Text) : Prop where
  one_answer : (dones (events chunks)).length = 1
  deltas : (results chunks).deltas = lstrip (results chunks).answer
  reasoning : (results chunks).reasoning = reasoningOf chunks.flatten
  reasoning_done : (results chunks).reasoningDone = [] ∨
    (results chunks).reasoningDone = [reasoningOf chunks.flatten]
  whole : results chunks = results [chunks.flatten]

def Unopened (content : Text) : Prop :=
  lower (lstrip content) <+: openTag ∧ (lower (lstrip content)).length < openTag.length

/-- No chunk ends within the closing tag that `rest` follows. -/
def Uncut (chunks : List Text) (rest : Text) : Prop :=
  ∀ before after, chunks = before ++ after →
    after.flatten.length ≤ rest.length ∨ rest.length + closeTag.length ≤ after.flatten.length

/-- The content does not end in the opening tag; a block it opens is closed, an answer
follows, and no cut goes through the closing tag. -/
structure Separable (chunks : List Text) : Prop where
  opened : Unopened chunks.flatten → lstrip chunks.flatten = []
  closed : ∀ body, thinkBody chunks.flatten = some body →
    ∃ reasoning rest, search body = some (reasoning, rest) ∧ lstrip rest ≠ [] ∧
      Uncut chunks rest

end Agently.ResponseParser
