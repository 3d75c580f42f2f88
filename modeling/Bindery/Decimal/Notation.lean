import Bindery.Decimal.Shortest
import Bindery.Text.Integer

/-! # Doubles as text -/

namespace Bindery.Decimal

open Text

def digitChar (d : Nat) : Char := Char.ofNat ('0'.toNat + d)

def digitChars (ds : List Nat) : List Char := ds.map digitChar

def zeros (n : Nat) : List Char := List.replicate n '0'

namespace Digits

/-- The digits before the decimal point, at least one. -/
def whole (d : Digits) : List Char :=
  if d.point ≤ 0 then ['0']
  else
    let n := d.point.toNat
    digitChars (d.digits.take n) ++ zeros (n - d.digits.length)

/-- The digits after the decimal point. -/
def fraction (d : Digits) : List Char :=
  if d.point ≤ 0 then zeros (-d.point).toNat ++ digitChars d.digits
  else digitChars (d.digits.drop d.point.toNat)

/-- Positional digits; the point stands only before a fraction. -/
def positional (d : Digits) : List Char :=
  match d.fraction with
  | [] => d.whole
  | f => d.whole ++ '.' :: f

/-- One digit before the point and a signed power of ten. -/
def scientific (d : Digits) : List Char :=
  let e := d.point - 1
  let mantissa := match d.digits with
    | [] => ['0']
    | [x] => [digitChar x]
    | x :: xs => digitChar x :: '.' :: digitChars xs
  mantissa ++ 'e' :: (if e < 0 then '-' else '+') :: decimalDigits e.natAbs

end Digits

namespace Binary64

def signChars (x : Binary64) : List Char := if x.negative then ['-'] else []

/-- The absolute value without an exponent, with the fewest digits. -/
def plainMagnitude (x : Binary64) : List Char :=
  if x.isZero then ['0'] else x.shortest.positional

/-- The absolute value with a fixed number of places; a half goes to the even neighbour. -/
def fixedMagnitude (x : Binary64) (places : Nat) : List Char :=
  let (num, den) := x.magnitude
  let ds := decimalDigits (roundQuotient (num * Nat.pow 10 places) den)
  let padded := zeros (places + 1 - ds.length) ++ ds
  let cut := padded.length - places
  if places = 0 then padded else padded.take cut ++ '.' :: padded.drop cut

/-- The written form in a JSON text: always a fraction or an exponent, and an exponent from
`10 ^ 16` on and below `10 ^ -5`. -/
def jsonChars (x : Binary64) : List Char :=
  x.signChars ++
    if x.isZero then ['0', '.', '0'] else
    let d := x.shortest
    if d.point - 1 < -5 || 15 < d.point - 1 then d.scientific
    else match d.fraction with
      | [] => d.whole ++ ['.', '0']
      | f => d.whole ++ '.' :: f

end Binary64
end Bindery.Decimal
