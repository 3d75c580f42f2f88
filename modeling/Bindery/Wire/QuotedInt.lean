import Bindery.Text.Blank
import Bindery.Wire

/-! # 64-bit integers in quotes

Readers of JSON that take numbers for doubles lose digits above `2 ^ 53`, so 64-bit integers
travel as decimal text between quotes. Bare numbers are read as well. -/

namespace Bindery

open Json Text

/-- A signed 64-bit integer. -/
structure QuotedInt where
  val : Int
  inRange : (IntegerRange.signed 64).contains val = true
deriving DecidableEq, Repr

namespace QuotedInt

def range : IntegerRange := .signed 64

def ofInt? (i : Int) : Option QuotedInt :=
  if h : range.contains i then some ⟨i, h⟩ else none

instance : Inhabited QuotedInt := ⟨⟨0, by decide⟩⟩

def zero : QuotedInt := ⟨0, by decide⟩

instance : LT QuotedInt := ⟨fun a b => a.val < b.val⟩

instance : DecidableLT QuotedInt := fun a b => inferInstanceAs (Decidable (a.val < b.val))

instance : KeyOrder QuotedInt := ⟨fun h k => Int.lt_trans h k⟩

/-! ## Arithmetic -/

/-- The operation whose result does not fit 64 bits. -/
inductive Overflow where
  | add
  | subtract
  | multiply
  | negate
deriving DecidableEq, Repr

def Overflow.message : Overflow → String
  | .add => "attempt to add with overflow"
  | .subtract => "attempt to subtract with overflow"
  | .multiply => "attempt to multiply with overflow"
  | .negate => "attempt to negate with overflow"

def checked (o : Overflow) (i : Int) : Except Overflow QuotedInt :=
  match ofInt? i with
  | some q => .ok q
  | none => .error o

def add (a b : QuotedInt) : Except Overflow QuotedInt := checked .add (a.val + b.val)

def sub (a b : QuotedInt) : Except Overflow QuotedInt := checked .subtract (a.val - b.val)

def mul (a b : QuotedInt) : Except Overflow QuotedInt := checked .multiply (a.val * b.val)

def neg (a : QuotedInt) : Except Overflow QuotedInt := checked .negate (-a.val)

/-! ## Text -/

/-- Reads a signed number, quotes at both ends dropped. -/
def ofText (s : String) : Except IntegerFault QuotedInt :=
  match readInteger range (trimChar '"' s.toList) with
  | .error f => .error f
  | .ok i =>
    match ofInt? i with
    | some q => .ok q
    | none => .error .tooLarge

def text (q : QuotedInt) : String := decimal q.val

instance : Shown QuotedInt := ⟨fun l q => l.integer q.val⟩

def debug (q : QuotedInt) : String := "Int64(" ++ q.text ++ ")"

/-! ## Wire form -/

def expected : String := "a 64-bit integer or a quoted decimal string"

def ofString (s : String) : Except DecodeError QuotedInt :=
  match ofText s with
  | .ok q => .ok q
  | .error _ => Json.fail (.wrongValue (.text s) expected)

def decode : Decoder QuotedInt
  | _, .number text => do
    match ← numberValue text with
    | .whole i =>
      match ofInt? i with
      | some q => .ok q
      | none => Json.fail (.wrongValue (.whole i) expected)
    | .double x => Json.fail (.wrongType (.double x) expected)
  | _, .string content => do ofString (← stringText content)
  | 0, .array _ | 0, .object _ => .error .malformed
  | _, t => wrongType expected t

def encode (q : QuotedInt) : Tree := .ofString q.text

instance : Wire QuotedInt := ⟨encode, decode⟩

/-- A key follows the rule for strings. -/
def key : Decoder.KeyDecoder QuotedInt := fun content closed => do
  ofString (← Decoder.textKey content closed)

instance {α : Type} [Wire α] : Wire (Dict QuotedInt α) :=
  ⟨Wire.encodeDict text, .dict key Wire.decode⟩

end QuotedInt
end Bindery
