import Bindery.Decimal.Notation

/-! # Fitting a value into a column

A layout says how wide a value is to stand, on which side the filling goes, whether a sign is
always written and how many places or characters are kept. -/

namespace Bindery.Text

open Decimal

inductive Alignment where
  | left
  | center
  | right
deriving DecidableEq, Repr

structure Layout where
  fill : Char := ' '
  alignment : Option Alignment := none
  plus : Bool := false
  zeroPadded : Bool := false
  width : Option Nat := none
  precision : Option Nat := none
deriving DecidableEq, Repr

namespace Layout

def alignmentOf? : Char → Option Alignment
  | '<' => some .left
  | '^' => some .center
  | '>' => some .right
  | _ => none

/-- Reads the filling and the alignment. -/
def readAlignment (l : Layout) : List Char → Layout × List Char
  | f :: a :: rest =>
    match alignmentOf? a with
    | some al => ({ l with fill := f, alignment := some al }, rest)
    | none =>
      match alignmentOf? f with
      | some al => ({ l with alignment := some al }, a :: rest)
      | none => (l, f :: a :: rest)
  | [a] =>
    match alignmentOf? a with
    | some al => ({ l with alignment := some al }, [])
    | none => (l, [a])
  | [] => (l, [])

def readSign (l : Layout) : List Char → Layout × List Char
  | '+' :: rest => ({ l with plus := true }, rest)
  | cs => (l, cs)

def readZero (l : Layout) : List Char → Layout × List Char
  | '0' :: rest => ({ l with zeroPadded := true }, rest)
  | cs => (l, cs)

def naturalOf? (ds : List Char) : Option Nat :=
  if ds.isEmpty then none else some (ds.foldl (fun n d => n * 10 + digitValue d) 0)

def readWidth (l : Layout) (cs : List Char) : Layout × List Char :=
  ({ l with width := naturalOf? (cs.takeWhile Char.isDigit) }, cs.dropWhile Char.isDigit)

def readPrecision (l : Layout) : List Char → Layout × List Char
  | '.' :: rest =>
    ({ l with precision := naturalOf? (rest.takeWhile Char.isDigit) }, rest.dropWhile Char.isDigit)
  | cs => (l, cs)

/-- Reads `fill`, alignment, sign, zero, width and precision in this order, each optional. -/
def read? (cs : List Char) : Option Layout :=
  let (l, cs) := readAlignment {} cs
  let (l, cs) := readSign l cs
  let (l, cs) := readZero l cs
  let (l, cs) := readWidth l cs
  let (l, cs) := readPrecision l cs
  if cs.isEmpty then some l else none

/-- Fills up to the width on the side that the alignment leaves free. -/
def pad (l : Layout) (default : Alignment) (cs : List Char) : List Char :=
  let missing := l.width.getD 0 - cs.length
  match l.alignment.getD default with
  | .left => cs ++ List.replicate missing l.fill
  | .right => List.replicate missing l.fill ++ cs
  | .center =>
    List.replicate (missing / 2) l.fill ++ cs ++ List.replicate (missing - missing / 2) l.fill

/-- Text keeps as many characters as the precision allows and leans left. -/
def text (l : Layout) (cs : List Char) : List Char :=
  l.pad .left (match l.precision with
    | some n => cs.take n
    | none => cs)

/-- A number leans right; zeros stand between its sign and its digits. -/
def signed (l : Layout) (negative : Bool) (magnitude : List Char) : List Char :=
  let sign := if negative then ['-'] else if l.plus then ['+'] else []
  if l.zeroPadded then
    sign ++ List.replicate (l.width.getD 0 - sign.length - magnitude.length) '0' ++ magnitude
  else l.pad .right (sign ++ magnitude)

def integer (l : Layout) (i : Int) : List Char := l.signed (i < 0) (decimalDigits i.natAbs)

def double (l : Layout) (x : Binary64) : List Char :=
  l.signed x.negative (match l.precision with
    | some n => x.fixedMagnitude n
    | none => x.plainMagnitude)

end Layout
end Bindery.Text
