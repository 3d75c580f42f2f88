/-! # Whole numbers written with digits -/

namespace Bindery.Text

/-- Why a text is not a whole number of the wanted range. -/
inductive IntegerFault where
  | empty
  | invalidDigit
  | tooLarge
  | tooSmall
deriving DecidableEq, Repr

def IntegerFault.message : IntegerFault → String
  | .empty => "cannot parse integer from empty string"
  | .invalidDigit => "invalid digit found in string"
  | .tooLarge => "number too large to fit in target type"
  | .tooSmall => "number too small to fit in target type"

/-- A range of whole numbers, both ends included. -/
structure IntegerRange where
  least : Int
  greatest : Int
deriving DecidableEq, Repr

namespace IntegerRange

def contains (r : IntegerRange) (i : Int) : Bool := r.least ≤ i && i ≤ r.greatest

def signed (bits : Nat) : IntegerRange := ⟨-Int.ofNat (Nat.pow 2 (bits - 1)), Int.ofNat (Nat.pow 2 (bits - 1)) - 1⟩

def unsigned (bits : Nat) : IntegerRange := ⟨0, Int.ofNat (Nat.pow 2 bits) - 1⟩

end IntegerRange

def digitValue (c : Char) : Nat := c.toNat - '0'.toNat

/-- Reads digits on from a partial value; the first digit that leaves the range or character
that is no digit decides the fault. -/
def accumulate (range : IntegerRange) (sign : Int) : Int → List Char → Except IntegerFault Int
  | acc, [] => .ok acc
  | acc, c :: cs =>
    if c.isDigit then
      let next := acc * 10 + sign * digitValue c
      if range.greatest < next then .error .tooLarge
      else if next < range.least then .error .tooSmall
      else accumulate range sign next cs
    else .error .invalidDigit

/-- One optional sign and at least one digit. A range without negative numbers admits no
minus sign. -/
def readInteger (range : IntegerRange) : List Char → Except IntegerFault Int
  | [] => .error .empty
  | ['+'] | ['-'] => .error .invalidDigit
  | '+' :: cs => accumulate range 1 0 cs
  | '-' :: cs =>
    if range.least < 0 then accumulate range (-1) 0 cs else .error .invalidDigit
  | cs => accumulate range 1 0 cs

def readInteger? (range : IntegerRange) (s : String) : Option Int :=
  (readInteger range s.toList).toOption

/-- The digits of a number, most significant first. -/
def decimalDigits (n : Nat) : List Char := Nat.toDigits 10 n

/-- A minus sign where one is needed, then digits without leading zeros. -/
def decimalChars (i : Int) : List Char :=
  if i < 0 then '-' :: decimalDigits i.natAbs else decimalDigits i.natAbs

def decimal (i : Int) : String := String.ofList (decimalChars i)

end Bindery.Text
