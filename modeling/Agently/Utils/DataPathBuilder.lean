import Agently.Utils.Conversions
import Agently.Utils.IntText

/-! # Paths as texts

Source: `utils/DataPathBuilder.py`, `utils/DataLocator.py`, `_parse_path_keys` of
`StreamingJSONParser.py`, `_streaming_path_parts` of `AgentlyResponseParser.py`. A path is the
list of its characters; `none` is a loop that does not end, which an open bracket leads to where
nobody looks for the end of the path. -/

namespace Agently.DataPathBuilder

open Agently.Lib Agently.Utils
open Agently.Utils.IntText

abbrev Text := List Char

/-- `str | int`, a key of a mapping or a position in a list. -/
inductive Key where
  | key (k : String)
  | index (i : Nat)

inductive Style where
  | dot
  | slash
  deriving DecidableEq

def bracketed (s : Text) : Text := '[' :: (s ++ [']'])

def dotPart (first : Bool) : Key → Text
  | .index i => bracketed (natText i)
  | .key k =>
    if k = "*" ∨ k = "[]" ∨ k = "[*]" then bracketed ['*']
    else if first then k.toList else '.' :: k.toList

def build_dot_path : List Key → Text
  | [] => []
  | key :: keys => dotPart true key ++ keys.flatMap (dotPart false)

def keyText : Key → Text
  | .key k => k.toList
  | .index i => natText i

def build_slash_path : List Key → Text
  | [] => []
  | key :: keys => '/' :: ['/'].intercalate ((key :: keys).map keyText)

/-! ### Reading a dot path from left to right

`get_value_by_path`, `convert_dot_to_slash` and `_streaming_path_parts` read a dot path with
the same loop. -/

inductive Segment where
  | name (s : Text)
  | bracket (s : Text)
  | unclosed

def flush (buffer : Text) : List Segment := if buffer = [] then [] else [.name buffer]

def segments (inside : Bool) (buffer : Text) : Text → List Segment
  | [] => if inside then [.unclosed] else flush buffer
  | c :: rest =>
    if inside then
      if c = ']' then .bracket buffer :: segments false [] rest
      else segments true (buffer ++ [c]) rest
    else if c = '[' then flush buffer ++ segments true [] rest
    else if c = '.' then flush buffer ++ segments false [] rest
    else segments false (buffer ++ [c]) rest

def Segment.dotToSlash : Segment → Option Text
  | .name s => some s
  | .bracket s => some (bracketed s)
  | .unclosed => none

def convert_dot_to_slash (dot_path : Text) : Option Text :=
  if dot_path = [] then some ['/']
  else ((segments false [] dot_path).mapM Segment.dotToSlash).map
    fun parts => '/' :: ['/'].intercalate parts

def slashParts (path : Text) : List Text :=
  ((path.dropWhile (· == '/')).rdropWhile (· == '/')).splitOn '/'

def dotParts (first : Bool) : List Text → Text
  | [] => []
  | part :: parts =>
    (if part.head? = some '[' ∧ part.getLast? = some ']' then part
     else if first then part else '.' :: part) ++ dotParts false parts

def convert_slash_to_dot (slash_path : Text) : Text :=
  if slash_path = [] ∨ slash_path = ['/'] then [] else dotParts true (slashParts slash_path)

/-- A remaining key of `resolve`, a text or a number. -/
inductive Step where
  | text (s : Text)
  | number (i : Int)

def Segment.step : Segment → Option Step
  | .name s => some (.text s)
  | .bracket s => some (.text s)
  | .unclosed => none

/-- `int(key)` of a part that is all digits. -/
def slashStep (part : Text) : Except PyError Step :=
  if isdigit part then
    match intOf part with
    | some i => .ok (.number i)
    | none => .error (.builtin .valueError)
  else .ok (.text part)

/-- What a `[*]` collects: the items of lists, and what is not `None`. -/
def collected : List Json → List Json
  | [] => []
  | .arr ys :: rest => ys ++ collected rest
  | .null :: rest => collected rest
  | x :: rest => x :: collected rest

def resolve : List Step → Json → Json
  | [], current => current
  | step :: remaining, current =>
    match step, current with
    | .text ['[', '*', ']'], .arr xs => .arr (collected (xs.map (resolve remaining)))
    | .text s, .obj kvs =>
      if s = ['[', '*', ']'] then .null
      else
        match Dict.get? kvs (String.ofList s) with
        | some v => resolve remaining v
        | none => .null
    | .number i, .arr xs =>
      if 0 ≤ i then
        match xs[i.toNat]? with
        | some v => resolve remaining v
        | none => .null
      else .null
    | _, _ => .null

def get_value_by_path (data : Json) (path : Text) (style : Style) :
    Option (Except PyError Json) :=
  match data with
  | .obj _ | .arr _ =>
    if path = [] then some (.ok .null)
    else
      match style with
      | .dot =>
        ((segments false [] path).mapM Segment.step).map fun keys => .ok (resolve keys data)
      | .slash => some (((slashParts path).mapM slashStep).map fun keys => resolve keys data)
  | _ => some (.error (.raised .typeError "The data parameter must be a mapping or sequence."))

/-- `path_part.split("[", 1)`, with the last character of the index left out. -/
def splitBracket (part : Text) : Option (Text × Text) :=
  if '[' ∈ part then
    some (part.takeWhile (· != '['), (part.dropWhile (· != '[')).tail.dropLast)
  else none

def itemAt (xs : List Json) (index : Int) : Option Json :=
  if 0 ≤ index then xs[index.toNat]?
  else if 0 ≤ index + xs.length then xs[(index + xs.length).toNat]?
  else none

def lookup (key : Text) : Json → Option Json
  | .obj kvs => some ((Dict.get? kvs (String.ofList key)).getD .null)
  | _ => none

def everyItem (values : List Json) : Json :=
  if values.any (fun | .null => true | _ => false) then .null else .arr values

/-- The item at an index, and what `below` finds in it. -/
def indexed (index : Text) (xs : List Json) (below : Json → Json) : Json :=
  match (intOf index).bind (itemAt xs) with
  | some x => below x
  | none => .null

def heldBy (key : Text) (result : Json) : Option Json :=
  if key = [] then some result else lookup key result

/-- `_locate_path_parts` in style `"dot"`, with the default `None`. -/
def locateDotParts : List Text → Json → Json
  | [], result => result
  | part :: remaining, result =>
    match splitBracket part with
    | some (key, index) =>
      match heldBy key result with
      | some (.arr xs) =>
        if index = ['*'] ∨ index = [] then everyItem (xs.map (locateDotParts remaining))
        else indexed index xs (locateDotParts remaining)
      | _ => .null
    | none =>
      match lookup part result with
      | some v => locateDotParts remaining v
      | none => .null

def unbracketed (part : Text) : Text :=
  if part.head? = some '[' ∧ part.getLast? = some ']' then part.tail.dropLast else part

/-- `_locate_path_parts` in style `"slash"`, with the default `None`. -/
def locateSlashParts : List Text → Json → Json
  | [], result => result
  | part :: remaining, result =>
    let part := unbracketed part
    match result with
    | .arr xs =>
      if part = ['*'] ∨ part = [] then everyItem (xs.map (locateSlashParts remaining))
      else indexed part xs (locateSlashParts remaining)
    | result =>
      if part = ['*'] ∨ part = [] then .null
      else
        match lookup part result with
        | some v => locateSlashParts remaining v
        | none => .null

def locate_path_in_dict (original : Json) (path : Text) (style : Style) : Json :=
  if path = [] then original
  else
    match style with
    | .dot => locateDotParts (path.splitOn '.') original
    | .slash => locateSlashParts ((path.splitOn '/').filter (· ≠ [])) original

/-- `re.findall(r"\[(\d+)\]", part)`; `digits` are those since the last opening bracket. -/
def indicesIn (digits : Option Text) : Text → List Nat
  | [] => []
  | c :: rest =>
    match digits with
    | some ds =>
      if (decimal? c).isSome then indicesIn (some (ds ++ [c])) rest
      else if c = ']' ∧ ds ≠ [] then
        ((digitsFrom false 0 ds).getD 0) :: indicesIn none rest
      else indicesIn (if c = '[' then some [] else none) rest
    | none => indicesIn (if c = '[' then some [] else none) rest

def partKeys (part : Text) : List Key :=
  if '[' ∈ part ∧ ']' ∈ part then
    (if part.takeWhile (· != '[') = [] then []
     else [Key.key (String.ofList (part.takeWhile (· != '[')))]) ++
      (indicesIn none part).map Key.index
  else [.key (String.ofList part)]

def parse_path_keys (path : Text) : List Key :=
  if path = [] then [] else (path.splitOn '.').flatMap partKeys

/-- The loop of `_streaming_path_parts` over what it reads; it gives up with no parts. -/
def streamingParts : List Segment → Except PyError (Option (List Key))
  | [] => .ok (some [])
  | .name s :: rest => (streamingParts rest).map fun parts => parts.map (.key (String.ofList s) :: ·)
  | .bracket s :: rest =>
    if isdigit s then
      match intOf s with
      | some i => (streamingParts rest).map fun parts => parts.map (.index i.toNat :: ·)
      | none => .error (.builtin .valueError)
    else .ok none
  | .unclosed :: _ => .ok none

def streaming_path_parts (path : Text) : Except PyError (List Key) :=
  if path = [] ∨ path.head? = some '$' then .ok []
  else (streamingParts (segments false [] path)).map fun parts => parts.getD []

end Agently.DataPathBuilder
