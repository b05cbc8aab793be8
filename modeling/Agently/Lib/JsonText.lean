import Mathlib.Data.List.Basic

/-! # JSON texts

A tree is a JSON value as it is written, with its white space, the literal text of its numbers
and the bodies of its strings. `Valid` is the grammar of RFC 8259. -/

namespace Agently.Lib.JsonText

abbrev Text := List Char

mutual

inductive Tree where
  /-- A number, `true`, `false` or `null`. -/
  | word (text : Text)
  | string (body : Text)
  | array (gap : Text) (items : Items)
  | object (gap : Text) (members : Members)

inductive Items where
  | nil
  | cons (before : Text) (value : Tree) (after : Text) (rest : Items)

inductive Members where
  | nil
  | cons (before key after lead : Text) (value : Tree) (trail : Text) (rest : Members)

end

def quoted (body : Text) : Text := '"' :: (body ++ ['"'])

mutual

def Tree.text : Tree → Text
  | .word text => text
  | .string body => quoted body
  | .array gap items => '[' :: (gap ++ (items.text ++ [']']))
  | .object gap members => '{' :: (gap ++ (members.text ++ ['}']))

def Items.text : Items → Text
  | .nil => []
  | .cons before value after rest => before ++ (value.text ++ (after ++ rest.more))

def Items.more : Items → Text
  | .nil => []
  | .cons before value after rest => ',' :: (before ++ (value.text ++ (after ++ rest.more)))

def Members.text : Members → Text
  | .nil => []
  | .cons before key after lead value trail rest =>
    before ++ (quoted key ++ (after ++ ':' :: (lead ++ (value.text ++ (trail ++ rest.more)))))

def Members.more : Members → Text
  | .nil => []
  | .cons before key after lead value trail rest =>
    ',' :: (before ++
      (quoted key ++ (after ++ ':' :: (lead ++ (value.text ++ (trail ++ rest.more))))))

end

def Blank (s : Text) : Prop := ∀ c ∈ s, c = ' ' ∨ c = '\t' ∨ c = '\n' ∨ c = '\r'

def Digits (s : Text) : Prop := s ≠ [] ∧ ∀ c ∈ s, c.isDigit = true

structure IsNumber (sign whole fraction exponent : Text) : Prop where
  sign : sign = [] ∨ sign = ['-']
  whole : whole = ['0'] ∨ Digits whole ∧ whole.head? ≠ some '0'
  fraction : fraction = [] ∨ ∃ ds, fraction = '.' :: ds ∧ Digits ds
  exponent : exponent = [] ∨ ∃ e s ds, exponent = e :: (s ++ ds) ∧ (e = 'e' ∨ e = 'E') ∧
    (s = [] ∨ s = ['+'] ∨ s = ['-']) ∧ Digits ds

inductive Word : Text → Prop
  | null : Word "null".toList
  | true : Word "true".toList
  | false : Word "false".toList
  | number {sign whole fraction exponent : Text} : IsNumber sign whole fraction exponent →
      Word (sign ++ (whole ++ (fraction ++ exponent)))

inductive Body : Text → Prop
  | nil : Body []
  | char {c : Char} {s : Text} : c ≠ '"' → c ≠ '\\' → 0x20 ≤ c.toNat → Body s → Body (c :: s)
  | escape {c : Char} {s : Text} : c ∈ "\"\\/bfnrt".toList → Body s → Body ('\\' :: c :: s)
  | unicode {a b c d : Char} {s : Text} : (∀ x ∈ [a, b, c, d], x.isDigit = Bool.true ∨
      x ∈ "abcdefABCDEF".toList) → Body s → Body ('\\' :: 'u' :: a :: b :: c :: d :: s)

mutual

def Tree.Valid : Tree → Prop
  | .word text => Word text
  | .string body => Body body
  | .array gap items => Blank gap ∧ items.Valid
  | .object gap members => Blank gap ∧ members.Valid

def Items.Valid : Items → Prop
  | .nil => True
  | .cons before value after rest => Blank before ∧ value.Valid ∧ Blank after ∧ rest.Valid

def Members.Valid : Members → Prop
  | .nil => True
  | .cons before key after lead value trail rest =>
    Blank before ∧ Body key ∧ Blank after ∧ Blank lead ∧ value.Valid ∧ Blank trail ∧ rest.Valid

end

structure Document where
  lead : Text
  root : Tree
  trail : Text

def Document.text (d : Document) : Text := d.lead ++ (d.root.text ++ d.trail)

structure Document.Valid (d : Document) : Prop where
  lead : Blank d.lead
  root : d.root.Valid
  trail : Blank d.trail

end Agently.Lib.JsonText
