import Bindery.Json.Decode

/-! # Encoding values as JSON

An encoder gives a tree without blanks; its text is the tree's source. -/

namespace Bindery.Json

open Utf8 Text

def hexDigit (n : Nat) : Char := if n < 10 then Char.ofNat (48 + n) else Char.ofNat (87 + n)

/-- A character inside a string: quotes, backslashes and controls have escapes. -/
def escapeChar (c : Char) : List Char :=
  if c = '"' then ['\\', '"']
  else if c = '\\' then ['\\', '\\']
  else if c = '\x08' then ['\\', 'b']
  else if c = '\x0c' then ['\\', 'f']
  else if c = '\n' then ['\\', 'n']
  else if c = '\r' then ['\\', 'r']
  else if c = '\t' then ['\\', 't']
  else if c < ' ' then ['\\', 'u', '0', '0', hexDigit (c.toNat / 16), hexDigit (c.toNat % 16)]
  else [c]

def escape (s : String) : Received := (s.toList.flatMap escapeChar).map some

namespace Tree

/-- The characters of a tree's source; a tree that was encoded has no others. -/
def text (t : Tree) : String := String.ofList (t.source.filterMap id)

def bytes (t : Tree) : List UInt8 := Utf8.encode t.text

def ofString (s : String) : Tree := .string (escape s)

def ofInt (i : Int) : Tree := .number (decimalChars i)

def ofItems : List Tree → Items
  | [] => .stop (.closed [])
  | t :: ts => .item [] t [] (ofItems ts)

def ofList (ts : List Tree) : Tree := .array (ofItems ts)

def ofMembers : List (String × Tree) → Members
  | [] => .stop (.closed [])
  | (k, t) :: ms => .member [] (escape k) [] [] t [] (ofMembers ms)

def ofEntries (ms : List (String × Tree)) : Tree := .object (ofMembers ms)

def ofOption {α : Type} (f : α → Tree) : Option α → Tree
  | none => .null
  | some a => f a

end Tree

/-- Why a value has no JSON form. -/
inductive EncodeError where
  | keyNotText
deriving DecidableEq, Repr

def EncodeError.message : EncodeError → String
  | .keyNotText => "key must be a string"

/-- The text of a key: a text itself, or what stands for a number or a truth value. -/
def keyText? : Tree → Option Received
  | .string content => some content
  | .number digits => some (digits.map some)
  | .bool b => some ((if b then "true" else "false").toList.map some)
  | _ => none

def membersOfKeys : List (Tree × Tree) → Except EncodeError Members
  | [] => .ok (.stop (.closed []))
  | (k, t) :: rest =>
    match keyText? k with
    | some key => (.member [] key [] [] t []) <$> membersOfKeys rest
    | none => .error .keyNotText

/-- An object whose keys are given by their own encodings. -/
def Tree.ofKeyed (entries : List (Tree × Tree)) : Except EncodeError Tree :=
  .object <$> membersOfKeys entries

/-- A value kept as the text that it was received in. -/
structure RawText where
  tree : Tree
deriving Repr, Inhabited

namespace RawText

/-- Any well-formed value whose text has no stray byte. -/
def decode : Decoder RawText
  | _, t =>
    if t.isWhole && (whole? t.source).isSome then .ok ⟨t⟩ else .error .malformed

def encode (r : RawText) : Tree := r.tree

def text (r : RawText) : String := r.tree.text

/-- Decodes the kept text. -/
def decodeWith {α : Type} (d : Decoder α) (r : RawText) : Except DecodeError α := d.runText r.text

end RawText
end Bindery.Json
