/-! # Double-precision numbers, exactly

A finite double is a sign and a whole multiple of a power of two. Every operation computes the
exact result and rounds once, to the nearest double and of two nearest to the one with the even
multiple. -/

namespace Bindery.Decimal

/-- The whole number nearest to a quotient; a half goes to the even neighbour. -/
def roundQuotient (num den : Nat) : Nat :=
  let q := num / den
  let r := num % den
  if 2 * r > den || (2 * r == den && q % 2 == 1) then q + 1 else q

/-- A finite double: `mantissa * 2 ^ exponent` under its sign, with a mantissa below `2 ^ 53`,
an exponent of at least `-1074`, and a mantissa of at least `2 ^ 52` unless the exponent is the
least. -/
structure Binary64 where
  negative : Bool
  mantissa : Nat
  exponent : Int
deriving DecidableEq, Repr, Inhabited

namespace Binary64

def zero (negative : Bool) : Binary64 := ⟨negative, 0, -1074⟩

def isZero (x : Binary64) : Bool := x.mantissa == 0

def neg (x : Binary64) : Binary64 := { x with negative := !x.negative }

/-- The exponent of the doubles around a quotient: with it the quotient has 53 binary digits
before the point. -/
def scaleOf (num den : Nat) : Int :=
  let d : Int := (num.log2 : Int) - (den.log2 : Int)
  let below : Bool :=
    if 0 ≤ d then num < den * Nat.pow 2 d.toNat else num * Nat.pow 2 (-d).toNat < den
  max (if below then d - 53 else d - 52) (-1074)

/-- The double nearest to a quotient, or nothing when it lies beyond the greatest one. -/
def ofQuotient (negative : Bool) (num den : Nat) : Option Binary64 :=
  if num = 0 then some (zero negative) else
  let e := scaleOf num den
  let m :=
    if 0 ≤ e then roundQuotient num (den * Nat.pow 2 e.toNat)
    else roundQuotient (num * Nat.pow 2 (-e).toNat) den
  let x : Binary64 := if m = Nat.pow 2 53 then ⟨negative, Nat.pow 2 52, e + 1⟩ else ⟨negative, m, e⟩
  if 971 < x.exponent then none else some x

def ofNat (n : Nat) : Option Binary64 := ofQuotient false n 1

/-- The double nearest to a whole number; every number of at most 64 binary digits has one. -/
def ofInt (i : Int) : Binary64 :=
  (ofQuotient (i < 0) i.natAbs 1).getD (zero false)

/-- The absolute value as a quotient of whole numbers. -/
def magnitude (x : Binary64) : Nat × Nat :=
  if 0 ≤ x.exponent then (x.mantissa * Nat.pow 2 x.exponent.toNat, 1)
  else (x.mantissa, Nat.pow 2 (-x.exponent).toNat)

def mul (x y : Binary64) : Option Binary64 :=
  let (a, b) := x.magnitude
  let (c, d) := y.magnitude
  ofQuotient (x.negative != y.negative) (a * c) (b * d)

def div (x y : Binary64) : Option Binary64 :=
  let (a, b) := x.magnitude
  let (c, d) := y.magnitude
  ofQuotient (x.negative != y.negative) (a * d) (b * c)

/-- The double nearest to a power of ten; the exponent is at most 308. -/
def pow10 (k : Nat) : Binary64 := (ofNat (Nat.pow 10 k)).getD (zero false)

/-- A decimal significand times a power of ten. The significand and the power are rounded
before they meet, and a power below `10 ^ -308` is applied in two steps, so the result need
not be the double nearest to the decimal. -/
def ofDecimal (negative : Bool) (significand : Nat) (exponent : Int) : Option Binary64 :=
  let f := (ofNat significand).getD (zero false)
  let signed (x : Binary64) : Binary64 := { x with negative }
  if f.isZero then some (zero negative)
  else if 308 < exponent then none
  else if 0 ≤ exponent then (f.mul (pow10 exponent.toNat)).map signed
  else if -308 ≤ exponent then (f.div (pow10 (-exponent).toNat)).map signed
  else if -616 ≤ exponent then
    (f.div (pow10 308)).bind fun g => (g.div (pow10 (-exponent - 308).toNat)).map signed
  else some (zero negative)

end Binary64
end Bindery.Decimal
