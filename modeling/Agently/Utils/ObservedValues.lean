import Mathlib
import Agently.Lib.Dict
import Agently.Utils.DataPathBuilder

/-! # Values observed in a raw stream

Source: `_observed_complete_values` of `utils/StreamingJSONParser.py`, with `raw_decode` of the
`json` module. A `str` of a document is the list of its code points, since an escape can stand
for a lone surrogate; numbers and literals are kept as texts. -/

namespace Agently.Utils.ObservedValues

open Agently.Lib
open Agently.DataPathBuilder (bracketed)
open Agently.TaskDAGValidation (isSpace)
open Agently.Utils.IntText (natText)

abbrev Text := List Char

abbrev Points := List Nat

def points (s : Text) : Points := s.map Char.toNat

inductive Value where
  /-- A number or a literal. -/
  | word (text : Text)
  | string (s : Points)
  | list (xs : List Value)
  | dict (kvs : List (Points × Value))

def hexDigit? (c : Char) : Option Nat :=
  if c.isDigit then some (c.toNat - '0'.toNat)
  else if 'a'.toNat ≤ c.toNat ∧ c.toNat ≤ 'f'.toNat then some (c.toNat - 'a'.toNat + 10)
  else if 'A'.toNat ≤ c.toNat ∧ c.toNat ≤ 'F'.toNat then some (c.toNat - 'A'.toNat + 10)
  else none

def hex4? (a b c d : Char) : Option Nat := do
  let a ← hexDigit? a
  let b ← hexDigit? b
  let c ← hexDigit? c
  let d ← hexDigit? d
  return ((a * 16 + b) * 16 + c) * 16 + d

/-- What an escaped character other than `u` stands for. -/
def escape? (c : Char) : Option Nat :=
  if c = '"' ∨ c = '\\' ∨ c = '/' then some c.toNat
  else if c = 'b' then some 8
  else if c = 'f' then some 12
  else if c = 'n' then some 10
  else if c = 'r' then some 13
  else if c = 't' then some 9
  else none

def scanUnits : Text → Option (Points × Text)
  | [] => none
  | c :: rest =>
    if c = '"' then some ([], rest)
    else if c = '\\' then
      match rest with
      | [] => none
      | e :: rest =>
        if e = 'u' then
          match rest with
          | a :: b :: c :: d :: rest =>
            match hex4? a b c d, scanUnits rest with
            | some u, some (us, rest) => some (u :: us, rest)
            | _, _ => none
          | _ => none
        else
          match escape? e, scanUnits rest with
          | some u, some (us, rest) => some (u :: us, rest)
          | _, _ => none
    else if c.toNat < 0x20 then none
    else
      match scanUnits rest with
      | some (us, rest) => some (c.toNat :: us, rest)
      | none => none

def joinPairs : Points → Points
  | [] => []
  | [u] => [u]
  | u :: v :: rest =>
    if 0xD800 ≤ u ∧ u ≤ 0xDBFF ∧ 0xDC00 ≤ v ∧ v ≤ 0xDFFF then
      (0x10000 + (u - 0xD800) * 0x400 + (v - 0xDC00)) :: joinPairs rest
    else u :: joinPairs (v :: rest)

def scanstring (text : Text) : Option (Points × Text) :=
  (scanUnits text).map fun r => (joinPairs r.1, r.2)

def scanDigits (text : Text) : Text × Text :=
  (text.takeWhile Char.isDigit, text.dropWhile Char.isDigit)

def scanWhole : Text → Option (Text × Text)
  | [] => none
  | c :: rest =>
    if c = '0' then some (['0'], rest)
    else if c.isDigit then some (c :: (scanDigits rest).1, (scanDigits rest).2)
    else none

def scanFraction : Text → Text × Text
  | [] => ([], [])
  | c :: rest =>
    if c = '.' ∧ (scanDigits rest).1 ≠ [] then ('.' :: (scanDigits rest).1, (scanDigits rest).2)
    else ([], c :: rest)

def scanSign : Text → Text × Text
  | [] => ([], [])
  | c :: rest => if c = '+' ∨ c = '-' then ([c], rest) else ([], c :: rest)

def scanExponent : Text → Text × Text
  | [] => ([], [])
  | c :: rest =>
    if (c = 'e' ∨ c = 'E') ∧ (scanDigits (scanSign rest).2).1 ≠ [] then
      (c :: ((scanSign rest).1 ++ (scanDigits (scanSign rest).2).1),
        (scanDigits (scanSign rest).2).2)
    else ([], c :: rest)

/-- The number of digits that `int()` takes. -/
def int_max_str_digits : Nat := 4300

/-- The number after its sign; an integer with too many digits is a `ValueError`. -/
def scanUnsigned (text : Text) : Option (Text × Text) :=
  match scanWhole text with
  | none => none
  | some (whole, rest) =>
    let fraction := scanFraction rest
    let exponent := scanExponent fraction.2
    if fraction.1 = [] ∧ exponent.1 = [] ∧ int_max_str_digits < whole.length then none
    else some (whole ++ (fraction.1 ++ exponent.1), exponent.2)

def scanNumber : Text → Option (Text × Text)
  | [] => none
  | c :: rest =>
    if c = '-' then (scanUnsigned rest).map fun r => ('-' :: r.1, r.2)
    else scanUnsigned (c :: rest)

def constants : List (Text × Bool) :=
  [("null".toList, false), ("true".toList, false), ("false".toList, false), ("NaN".toList, true),
   ("Infinity".toList, true), ("-Infinity".toList, true)]

/-- `raw_decode` where no mapping and no list starts: the value, whether it is a number, and
what is left of the text. -/
def raw_decode : Text → Option (Value × Bool × Text)
  | [] => none
  | c :: rest =>
    if c = '"' then (scanstring rest).map fun r => (.string r.1, false, r.2)
    else
      match constants.find? fun k => k.1.isPrefixOf (c :: rest) with
      | some (k, number) => some (.word k, number, (c :: rest).drop k.length)
      | none => (scanNumber (c :: rest)).map fun r => (.word r.1, true, r.2)

/-- `raw_decode` of a key; what is no string is no key. -/
def decodeKey : Text → Option (Points × Text)
  | [] => none
  | c :: rest => if c = '"' then scanstring rest else none

inductive Part where
  | key (k : Points)
  | index (i : Nat)

def dotPart (first : Bool) : Part → Points
  | .index i => points (bracketed (natText i))
  | .key k =>
    if k = points ['*'] ∨ k = points ['[', ']'] ∨ k = points ['[', '*', ']'] then
      points ['[', '*', ']']
    else if first then k else '.'.toNat :: k

def build_dot_path : List Part → Points
  | [] => []
  | part :: parts => dotPart true part ++ parts.flatMap (dotPart false)

abbrev Report := Points × Value

def report (parts : List Part) (value : Value) : List Report :=
  if build_dot_path parts = [] then [] else [(build_dot_path parts, value)]

abbrev Parsed := List Report × Option (Value × Text)

def Parsed.after (reports : List Report) (p : Parsed) : Parsed := (reports ++ p.1, p.2)

def bounded (number : Bool) (rest : Text) : Bool :=
  match rest.dropWhile isSpace with
  | [] => !number
  | c :: _ => c ∈ [',', ']', '}']

def parse_scalar (parts : List Part) (text : Text) : Parsed :=
  match raw_decode text with
  | none => ([], none)
  | some (value, number, rest) =>
    if bounded number rest then (report parts value, some (value, rest)) else ([], none)

mutual

def parse_value : Nat → List Part → Text → Parsed
  | 0, _, _ => ([], none)
  | fuel + 1, parts, text =>
    match text.dropWhile isSpace with
    | [] => ([], none)
    | c :: rest =>
      if c = '{' then
        match rest.dropWhile isSpace with
        | '}' :: rest => (report parts (.dict []), some (.dict [], rest))
        | cursor => parse_members fuel parts [] cursor
      else if c = '[' then
        match rest.dropWhile isSpace with
        | ']' :: rest => (report parts (.list []), some (.list [], rest))
        | cursor => parse_items fuel parts 0 [] cursor
      else parse_scalar parts (c :: rest)

def parse_members : Nat → List Part → Dict Points Value → Text → Parsed
  | 0, _, _, _ => ([], none)
  | fuel + 1, parts, value, cursor =>
    match decodeKey cursor with
    | none => ([], none)
    | some (key, key_end) =>
      match key_end.dropWhile isSpace with
      | ':' :: rest =>
        match parse_value fuel (parts ++ [.key key]) rest with
        | (reports, none) => (reports, none)
        | (reports, some (child, cursor)) =>
          match cursor.dropWhile isSpace with
          | ',' :: rest =>
            (parse_members fuel parts (Dict.set value key child)
              (rest.dropWhile isSpace)).after reports
          | '}' :: rest =>
            (reports ++ report parts (.dict (Dict.set value key child)),
              some (.dict (Dict.set value key child), rest))
          | _ => (reports, none)
      | _ => ([], none)

def parse_items : Nat → List Part → Nat → List Value → Text → Parsed
  | 0, _, _, _, _ => ([], none)
  | fuel + 1, parts, item_index, value_list, cursor =>
    match parse_value fuel (parts ++ [.index item_index]) cursor with
    | (reports, none) => (reports, none)
    | (reports, some (child, cursor)) =>
      match cursor.dropWhile isSpace with
      | ',' :: rest =>
        (parse_items fuel parts (item_index + 1) (value_list ++ [child])
          (rest.dropWhile isSpace)).after reports
      | ']' :: rest =>
        (reports ++ report parts (.list (value_list ++ [child])),
          some (.list (value_list ++ [child]), rest))
      | _ => (reports, none)

end

def started (text : Text) : Text := text.dropWhile fun c => c != '{' && c != '['

/-- `_observed_complete_values`; no call needs more fuel than the text gives. -/
def observed_complete_values (text : Text) : List Report :=
  (parse_value (2 * (started text).length + 1) [] (started text)).1

end Agently.Utils.ObservedValues
