import Bindery.Dict
import Bindery.Json.Number
import Bindery.Json.Tree
import Bindery.Text.Quoted

/-! # Decoding JSON into typed values

A decoder walks a tree from left to right and stops at the first thing that is wrong, be it a
value of another kind than the one wanted or a broken place of the text. Its first argument is
the number of arrays and objects that it may still enter. -/

namespace Bindery.Json

open Text Utf8

/-! ## Errors -/

/-- What stands where something else was wanted. -/
inductive Found where
  | null
  | bool (b : Bool)
  | whole (i : Int)
  | double (x : Decimal.Binary64)
  | text (s : String)
  | sequence
  | map
deriving DecidableEq, Repr

/-- How well-formed JSON can fail to be the wanted value. -/
inductive Mismatch where
  | wrongType (found : Found) (expected : String)
  | wrongValue (found : Found) (expected : String)
  /-- An array ends where a field without a default should stand. -/
  | wrongLength (length : Nat) (name : String) (fields : Nat)
  | missingField (name : String)
  | duplicateField (name : String)
  /-- No alternative of a choice fits. -/
  | noAlternative (name : String)
deriving DecidableEq, Repr

inductive DecodeError where
  /-- The text is not JSON, or is cut off, or nests too deep. -/
  | malformed
  | mismatch (m : Mismatch)
deriving DecidableEq, Repr

def Found.describe : Found → String
  | .null => "null"
  | .bool true => "boolean \x60true\x60"
  | .bool false => "boolean \x60false\x60"
  | .whole i => "integer \x60" ++ decimal i ++ "\x60"
  | .double x => "floating point \x60" ++ String.ofList x.jsonChars ++ "\x60"
  | .text s => "string " ++ quoted s
  | .sequence => "sequence"
  | .map => "map"

def countedElements (n : Nat) : String :=
  decimal n ++ (if n = 1 then " element" else " elements")

def Mismatch.message : Mismatch → String
  | .wrongType f e => "invalid type: " ++ f.describe ++ ", expected " ++ e
  | .wrongValue f e => "invalid value: " ++ f.describe ++ ", expected " ++ e
  | .wrongLength n name k =>
    "invalid length " ++ decimal n ++ ", expected struct " ++ name ++ " with " ++ countedElements k
  | .missingField name => "missing field \x60" ++ name ++ "\x60"
  | .duplicateField name => "duplicate field \x60" ++ name ++ "\x60"
  | .noAlternative name => "data did not match any variant of untagged enum " ++ name

/-- A malformed text has no wording of its own. -/
def DecodeError.message : DecodeError → String
  | .malformed => "malformed JSON"
  | .mismatch m => m.message

/-! ## Strings -/

def hexValue (c : Char) : Nat :=
  if c.isDigit then c.toNat - '0'.toNat
  else if 'a' ≤ c then c.toNat - 'a'.toNat + 10
  else c.toNat - 'A'.toNat + 10

def hex4 (a b c d : Char) : Nat :=
  ((hexValue a * 16 + hexValue b) * 16 + hexValue c) * 16 + hexValue d

def simpleEscape : Char → Char
  | 'b' => '\x08'
  | 'f' => '\x0c'
  | 'n' => '\n'
  | 'r' => '\r'
  | 't' => '\t'
  | c => c

def isHighSurrogate (n : Nat) : Bool := 0xd800 ≤ n && n ≤ 0xdbff

def isLowSurrogate (n : Nat) : Bool := 0xdc00 ≤ n && n ≤ 0xdfff

/-- The character that the text behind a backslash stands for, and how much of the text belongs to it.
Half of a surrogate pair stands for none. -/
def escaped? : Received → Option (Char × Nat)
  | some 'u' :: some a :: some b :: some c :: some d :: s =>
    let n := hex4 a b c d
    if isHighSurrogate n then
      match s with
      | some '\\' :: some 'u' :: some e :: some f :: some g :: some h :: _ =>
        let m := hex4 e f g h
        if isLowSurrogate m then
          (scalar? (0x10000 + (n - 0xd800) * 0x400 + (m - 0xdc00))).map (·, 11)
        else none
      | _ => none
    else (scalar? n).map (·, 5)
  | some e :: _ => some (simpleEscape e, 1)
  | _ => some ('\\', 0)

/-- Reads on after the rest of an escape, the characters before it reversed in `acc`. -/
def unescapeAfter (acc : List Char) : Nat → Received → Option (List Char)
  | _, [] => some acc.reverse
  | n + 1, _ :: s => unescapeAfter acc n s
  | 0, none :: _ => none
  | 0, some c :: s =>
    if c = '\\' then
      match escaped? s with
      | some (x, n) => unescapeAfter (x :: acc) n s
      | none => none
    else unescapeAfter (c :: acc) 0 s

/-- The characters that the content of a string stands for. There are none when a byte is part of no
character or half of a surrogate pair stands alone. -/
def unescape (content : Received) : Option (List Char) := unescapeAfter [] 0 content

/-- The text that the content of a string stands for. -/
def stringText (content : Received) : Except DecodeError String :=
  match unescape content with
  | some cs => .ok (String.ofList cs)
  | none => .error .malformed

def numberValue (text : List Char) : Except DecodeError Number :=
  match Number.ofText? text with
  | some n => .ok n
  | none => .error .malformed

/-! ## Decoders -/

abbrev Decoder (α : Type) := Nat → Tree → Except DecodeError α

def fail {α : Type} (m : Mismatch) : Except DecodeError α := .error (.mismatch m)

def foundNumber : Number → Found
  | .whole i => .whole i
  | .double x => .double x

/-- Refuses a value of another kind, after reading as much of it as tells what it is. -/
def wrongType {α : Type} (expected : String) : Tree → Except DecodeError α
  | .null => fail (.wrongType .null expected)
  | .bool b => fail (.wrongType (.bool b) expected)
  | .number text => do fail (.wrongType (foundNumber (← numberValue text)) expected)
  | .string content => do fail (.wrongType (.text (← stringText content)) expected)
  | .array _ => fail (.wrongType .sequence expected)
  | .object _ => fail (.wrongType .map expected)
  | .broken => .error .malformed

namespace Decoder

def string : Decoder String
  | _, .string content => stringText content
  | _, t => wrongType "a string" t

def bool : Decoder Bool
  | _, .bool b => .ok b
  | _, t => wrongType "a boolean" t

/-- A number without fraction and exponent within a range. -/
def integer (range : IntegerRange) (name : String) : Decoder Int
  | _, .number text => do
    match ← numberValue text with
    | .whole i =>
      if range.contains i then .ok i else fail (.wrongValue (.whole i) name)
    | .double x => fail (.wrongType (.double x) name)
  | _, t => wrongType name t

def i32 : Decoder Int := integer (.signed 32) "i32"

def i64 : Decoder Int := integer (.signed 64) "i64"

def u64 : Decoder Int := integer (.unsigned 64) "u64"

def u32 : Decoder UInt32 := fun n t => (UInt32.ofNat ·.toNat) <$> integer (.unsigned 32) "u32" n t

def u8 : Decoder UInt8 := fun n t => (UInt8.ofNat ·.toNat) <$> integer (.unsigned 8) "u8" n t

/-- A number, rounded to a double. -/
def double : Decoder Decimal.Binary64
  | _, .number text => do
    match ← numberValue text with
    | .whole i => .ok (Decimal.Binary64.ofInt i)
    | .double x => .ok x
  | _, t => wrongType "f64" t

/-- `null` is the absence of a value. -/
def option {α : Type} (d : Decoder α) : Decoder (Option α)
  | _, .null => .ok none
  | n, t => some <$> d n t

def map {α β : Type} (f : α → β) (d : Decoder α) : Decoder β := fun n t => f <$> d n t

/-- Any value, unread; the text must be well-formed. -/
def skip : Decoder Unit
  | _, t => if t.isWhole then .ok () else .error .malformed

/-- Enters an array or object if the nesting still allows it. -/
def enter {α : Type} (n : Nat) (inside : Nat → Except DecodeError α) : Except DecodeError α :=
  match n with
  | 0 => .error .malformed
  | n + 1 => inside n

def items {α : Type} (d : Tree → Except DecodeError α) : Items → Except DecodeError (List α)
  | .stop (.closed _) => .ok []
  | .stop (.broken _) => .error .malformed
  | .item _ value _ rest => do
    let x ← d value
    let xs ← items d rest
    return x :: xs

def list {α : Type} (d : Decoder α) : Decoder (List α)
  | n, .array its => enter n fun n => items (d n) its
  | _, t => wrongType "a sequence" t

/-- A key, given the characters between its quotes and whether its closing quote was found. -/
abbrev KeyDecoder (κ : Type) := Received → Bool → Except DecodeError κ

def textKey : KeyDecoder String
  | content, true => stringText content
  | _, false => .error .malformed

/-- Members in the order of the text. -/
def members {κ α : Type} (key : KeyDecoder κ) (d : Tree → Except DecodeError α) :
    Members → Except DecodeError (List (κ × α))
  | .stop (.closed _) => .ok []
  | .stop (.broken none) => .error .malformed
  | .stop (.broken (some part)) => do
    let _ ← key part false
    .error .malformed
  | .member _ content _ _ value _ rest => do
    let k ← key content true
    let x ← d value
    let xs ← members key d rest
    return (k, x) :: xs

/-- A map; of two members with one key the later counts. -/
def dict {κ α : Type} [LT κ] [DecidableLT κ] [KeyOrder κ]
    (key : KeyDecoder κ) (d : Decoder α) : Decoder (Dict κ α)
  | n, .object ms => enter n fun n => Dict.ofList <$> members key (d n) ms
  | _, t => wrongType "a map" t

def textDict {α : Type} (d : Decoder α) : Decoder (TextDict α) := dict textKey d

/-- A whole number in quotes: the key must consist of a JSON number and nothing else. The value
of the number counts before what follows it. -/
def integerKey (range : IntegerRange) (name : String) : KeyDecoder Int
  | content, closed =>
    match readNumber content with
    | none => .error .malformed
    | some (text, rest) => do
      let i ← integer range name 0 (.number text)
      if closed && rest.isEmpty then .ok i else .error .malformed

/-! ## Structures

A structure stands in a text as an object, in which unknown members are passed over, or as an
array with its fields in the order of their declaration. -/

/-- What the absence of a field means. -/
inductive Absence where
  /-- Nothing may stand for the field. -/
  | forbidden
  /-- An object may leave the field out. -/
  | inObject
  /-- An object may leave the field out, an array may end before it. -/
  | anywhere
deriving DecidableEq, Repr

/-- A field of a structure under construction. -/
structure Field (σ : Type) where
  name : String
  aliases : List String := []
  absence : Absence
  read : Nat → Tree → Except DecodeError (σ → σ)

namespace Field

variable {σ α : Type}

def hasName (f : Field σ) (name : String) : Bool := name == f.name || f.aliases.contains name

def required (name : String) (d : Decoder α) (set : α → σ → σ) : Field σ :=
  ⟨name, [], .forbidden, fun n t => set <$> d n t⟩

def optional (name : String) (d : Decoder α) (set : Option α → σ → σ) : Field σ :=
  ⟨name, [], .inObject, fun n t => set <$> d.option n t⟩

def defaulted (name : String) (d : Decoder α) (set : α → σ → σ) : Field σ :=
  ⟨name, [], .anywhere, fun n t => set <$> d n t⟩

end Field

variable {σ : Type}

/-- The first field that the seen names leave open and whose absence is forbidden. -/
def missing? (fields : List (Field σ)) (seen : List String) : Option String :=
  (fields.find? fun f => f.absence == .forbidden && !seen.contains f.name).map Field.name

/-- Reads the members of a structure into it. A known field counts as seen before its value. -/
def fromMembers (fields : List (Field σ)) (n : Nat) (seen : List String) (acc : σ) :
    Members → Except DecodeError σ
  | .stop (.closed _) =>
    match missing? fields seen with
    | some name => fail (.missingField name)
    | none => .ok acc
  | .stop (.broken _) => .error .malformed
  | .member _ content _ _ value _ rest => do
    let key ← stringText content
    match fields.find? (·.hasName key) with
    | none => do
      skip n value
      fromMembers fields n seen acc rest
    | some f =>
      if seen.contains f.name then fail (.duplicateField f.name)
      else do
        let set ← f.read n value
        fromMembers fields n (f.name :: seen) (set acc) rest

/-- Reads the items of an array into the fields that are left, the first of which is the
`index`-th of `count`. -/
def fromItems (name : String) (count n : Nat) (index : Nat) (acc : σ) :
    List (Field σ) → Items → Except DecodeError σ
  | [], .stop (.closed _) => .ok acc
  | [], _ => .error .malformed
  | _ :: _, .stop (.broken _) => .error .malformed
  | f :: fs, .stop (.closed gap) =>
    if f.absence == .anywhere then fromItems name count n (index + 1) acc fs (.stop (.closed gap))
    else fail (.wrongLength index name count)
  | f :: fs, .item _ value _ rest => do
    let set ← f.read n value
    fromItems name count n (index + 1) (set acc) fs rest

/-- A structure that starts from `init`; what `init` has in a field whose absence is forbidden
does not survive. -/
def struct (name : String) (init : σ) (fields : List (Field σ)) : Decoder σ
  | n, .object ms => enter n fun n => fromMembers fields n [] init ms
  | n, .array its => enter n fun n => fromItems name fields.length n 0 init fields its
  | _, t => wrongType ("struct " ++ name) t

/-! ## Choices -/

mutual

/-- The value can be held as it is, whatever its kind. -/
def holds : Nat → Tree → Bool
  | _, .null | _, .bool _ => true
  | _, .number text => (numberValue text).isOk
  | _, .string content => (stringText content).isOk
  | 0, .array _ | 0, .object _ | _, .broken => false
  | n + 1, .array its => holdsItems n its
  | n + 1, .object ms => holdsMembers n ms

def holdsItems : Nat → Items → Bool
  | _, .stop (.closed _) => true
  | _, .stop (.broken _) => false
  | n, .item _ value _ rest => holds n value && holdsItems n rest

def holdsMembers : Nat → Members → Bool
  | _, .stop (.closed _) => true
  | _, .stop (.broken _) => false
  | n, .member _ content _ _ value _ rest =>
    (stringText content).isOk && holds n value && holdsMembers n rest

end

/-- The first alternative that fits. The value is read whole before any is tried. -/
def choice {α : Type} (name : String) (alternatives : List (Decoder α)) : Decoder α
  | n, t =>
    if holds n t then
      match alternatives.findSome? fun d => (d n t).toOption with
      | some x => .ok x
      | none => fail (.noAlternative name)
    else .error .malformed

/-! ## Texts -/

/-- The nesting that a text may have where it is decoded. -/
def nesting : Nat := 127

/-- Decodes a text that holds one value and nothing else but blanks. -/
def run {α : Type} (d : Decoder α) (s : Received) : Except DecodeError α := do
  let (tree, ended) := read s
  let x ← d nesting tree
  if ended then return x else .error .malformed

def runText {α : Type} (d : Decoder α) (s : String) : Except DecodeError α := d.run (chars s)

def runBytes {α : Type} (d : Decoder α) (bytes : List UInt8) : Except DecodeError α :=
  d.run (received bytes)

end Decoder
end Bindery.Json
