import Bindery.Decimal.Notation
import Bindery.Text.Integer

/-! # The value of a JSON number -/

namespace Bindery.Json

open Decimal Text

/-- A number without fraction and exponent is whole if it fits 64 bits, signed or not; every
other number is a double. -/
inductive Number where
  | whole (i : Int)
  | double (x : Binary64)
deriving DecidableEq, Repr, Inhabited

namespace Number

/-- The greatest significand that is read without loss. -/
def maxSignificand : Nat := Nat.pow 2 64 - 1

/-- Takes digits into a significand as long as it stays within 64 bits; the rest is left. -/
def takeIn (significand : Nat) : List Char → Nat × List Char
  | [] => (significand, [])
  | d :: ds =>
    let next := significand * 10 + digitValue d
    if next ≤ maxSignificand then takeIn next ds else (significand, d :: ds)

def naturalOf (ds : List Char) : Nat := ds.foldl (fun n d => n * 10 + digitValue d) 0

def exponentOf : List Char → Int
  | [] => 0
  | _ :: '-' :: ds => -(naturalOf ds : Int)
  | _ :: '+' :: ds => naturalOf ds
  | _ :: ds => naturalOf ds

/-- The value of a number text; nothing when it lies beyond the greatest double. Digits of the
whole part that no longer fit the significand count as powers of ten, and digits of the
fraction that no longer fit are dropped. -/
def ofText? (text : List Char) : Option Number :=
  let negative := text.head? == some '-'
  let text := if negative then text.drop 1 else text
  let whole := text.takeWhile Char.isDigit
  let rest := text.dropWhile Char.isDigit
  let (significand, left) := takeIn 0 whole
  if rest.isEmpty && left.isEmpty && !(negative && (significand == 0 || Nat.pow 2 63 < significand)) then
    some (.whole (if negative then -(significand : Int) else significand))
  else
    let fraction := (dropPoint rest).takeWhile Char.isDigit
    let exponent := (dropPoint rest).dropWhile Char.isDigit
    let (significand, dropped) := takeIn significand fraction
    let scale : Int := (left.length : Int) - ((fraction.length - dropped.length : Nat) : Int)
    (Binary64.ofDecimal negative significand (scale + exponentOf exponent)).map .double
where
  dropPoint : List Char → List Char
    | '.' :: ds => ds
    | ds => ds

def chars : Number → List Char
  | .whole i => decimalChars i
  | .double x => x.jsonChars

end Number
end Bindery.Json
