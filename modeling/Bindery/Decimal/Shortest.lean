import Bindery.Decimal.Binary64

/-! # The shortest decimal that reads back as a given double -/

namespace Bindery.Decimal

/-- The digits of a positive decimal `0.d₁d₂… * 10 ^ point`, with `d₁` not zero. -/
structure Digits where
  digits : List Nat
  point : Int
deriving DecidableEq, Repr

/-- The digits of a number, most significant first. -/
def digitsOf (n : Nat) : List Nat := (Nat.toDigits 10 n).map fun c => c.toNat - '0'.toNat

namespace Binary64

/-- The ends of the interval of reals that round to a positive double, and the double between
them: `(low, value, high)` in units of `2 ^ (exponent - 2)`. -/
def interval (x : Binary64) : Nat × Nat × Nat :=
  let v := 4 * x.mantissa
  let low := if x.mantissa = Nat.pow 2 52 ∧ -1074 < x.exponent then v - 1 else v - 2
  (low, v, v + 2)

/-- Whether a real between the ends, given in the grid's units as a quotient, rounds to the
double: the ends do exactly when the mantissa is even. -/
def rounds (x : Binary64) (num den : Nat) : Bool :=
  let (low, _, high) := x.interval
  if x.mantissa % 2 = 0 then low * den ≤ num && num ≤ high * den
  else low * den < num && num < high * den

/-- The decimals of a given grid that may read back as a positive double: the neighbours of the
double among the multiples of `10 ^ k`, the nearer first. -/
def candidates (x : Binary64) (k : Int) : List Nat :=
  let e := x.exponent - 2
  let num := 4 * x.mantissa * (if 0 ≤ e then Nat.pow 2 e.toNat else 1) * (if k < 0 then Nat.pow 10 (-k).toNat else 1)
  let den := (if e < 0 then Nat.pow 2 (-e).toNat else 1) * (if 0 ≤ k then Nat.pow 10 k.toNat else 1)
  let q := num / den
  let r := num % den
  if 2 * r < den || (2 * r == den && q % 2 == 0) then [q, q + 1] else [q + 1, q]

/-- Whether the multiple `n` of `10 ^ k` rounds to the double. -/
def readsBack (x : Binary64) (n : Nat) (k : Int) : Bool :=
  let e := x.exponent - 2
  let num := n * (if 0 ≤ k then Nat.pow 10 k.toNat else 1) * (if e < 0 then Nat.pow 2 (-e).toNat else 1)
  let den := (if k < 0 then Nat.pow 10 (-k).toNat else 1) * (if 0 ≤ e then Nat.pow 2 e.toNat else 1)
  x.rounds num den

/-- The least power of ten above the absolute value of a double that is not zero. -/
def decade (x : Binary64) : Int :=
  let (num, den) := x.magnitude
  let below (p : Int) : Bool :=
    if 0 ≤ p then num < den * Nat.pow 10 p.toNat else num * Nat.pow 10 (-p).toNat < den
  let guess : Int := ((num.log2 : Int) - (den.log2 : Int)) * 30103 / 100000
  if below (guess - 1) then guess - 1
  else if below guess then guess
  else if below (guess + 1) then guess + 1
  else guess + 2

/-- Tries ever finer grids, `left` of them after the first, for a decimal that reads back. -/
def search (x : Binary64) (top : Int) : (left : Nat) → (count : Nat) → Nat × Int
  | 0, count => ((x.candidates (top - count)).headD 0, top - count)
  | left + 1, count =>
    let k := top - count
    match (x.candidates k).find? fun n => n != 0 && x.readsBack n k with
    | some n => (n, k)
    | none => search x top left (count + 1)

def dropTrailingZeros (ds : List Nat) : List Nat := (ds.reverse.dropWhile (· == 0)).reverse

/-- The decimal with the fewest digits that rounds to the double, the nearest of these; seventeen
digits are always enough. -/
def shortest (x : Binary64) : Digits :=
  let (n, k) := x.search x.decade 16 1
  let ds := digitsOf n
  ⟨dropTrailingZeros ds, k + ds.length⟩

end Binary64
end Bindery.Decimal
