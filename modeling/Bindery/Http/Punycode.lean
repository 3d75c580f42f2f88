import Bindery.Text.Integer

/-! # Labels of international names in seven bits

The characters of seven bits come first. What follows tells the others in increasing order: each
number is the distance that the next one lies ahead, counted over all places where a character
could be put in. -/

namespace Bindery.Http.Punycode

/-- How the threshold between small and great digits moves. -/
def reduce (delta : Nat) (k : Nat) : Nat × Nat :=
  if 455 < delta then reduce (delta / 35) (k + 36) else (delta, k)
termination_by delta
decreasing_by omega

/-- The bias for the next number after one that has been written. -/
def adapt (delta points : Nat) (first : Bool) : Nat :=
  let delta := if first then delta / 700 else delta / 2
  let (delta, k) := reduce (delta + delta / points) 0
  k + 36 * delta / (delta + 38)

def digit (d : Nat) : Char := if d < 26 then Char.ofNat (97 + d) else Char.ofNat (22 + d)

/-- The greatest last digit at a place. -/
def threshold (bias k : Nat) : Nat := min 26 (max 1 (k - bias))

theorem threshold_pos (bias k : Nat) : 0 < threshold bias k := by
  simp only [threshold]
  omega

/-- A number in digits whose weights depend on the bias, the lowest digit first. -/
def digits (bias k q : Nat) : List Char :=
  let t := threshold bias k
  if q < t then [digit q]
  else digit (t + (q - t) % (36 - t)) :: digits bias (k + 36) ((q - t) / (36 - t))
termination_by q
decreasing_by
  have pos := threshold_pos bias k
  calc (q - threshold bias k) / (36 - threshold bias k)
    _ ≤ q - threshold bias k := Nat.div_le_self ..
    _ < q := by omega

structure State where
  delta : Nat := 0
  bias : Nat := 72
  /-- The characters that have been told. -/
  handled : Nat
  out : List Char

/-- Goes over one character of the label while the places of `n` are told. -/
def pass (basic n : Nat) (s : State) (c : Char) : State :=
  if c.toNat < n then { s with delta := s.delta + 1 }
  else if c.toNat = n then
    { delta := 0
      bias := adapt s.delta (s.handled + 1) (s.handled == basic)
      handled := s.handled + 1
      out := s.out ++ digits s.bias 36 s.delta }
  else s

/-- Tells the places of each of the numbers, which stand in increasing order; `n` is the least
that has not been told. -/
def tell (label : List Char) (basic : Nat) : Nat → State → List Nat → State
  | _, s, [] => s
  | n, s, m :: ms =>
    let s := { s with delta := s.delta + (m - n) * (s.handled + 1) }
    let s := label.foldl (pass basic m) s
    tell label basic (m + 1) { s with delta := s.delta + 1 } ms

def encode (label : List Char) : List Char :=
  let basic := label.filter (· < '\x80')
  let others := ((label.filter ('\x80' ≤ ·)).map Char.toNat).mergeSort (· ≤ ·)
  let out := if basic.isEmpty then [] else basic ++ ['-']
  (tell label basic.length 128 { handled := basic.length, out } others.eraseDups).out

end Bindery.Http.Punycode
