import Bindery.Text.Integer
import Bindery.Text.Blank
import Bindery.Text.Utf8
import Bindery.Http.Percent
import Bindery.Toml.Value

/-! # Numbers, dates, times and texts of TOML -/

namespace Bindery.Toml

open Text

/-- Takes something from the front of a text. -/
abbrev Reader (α : Type) := List Char → Option (α × List Char)

/-! ## Numbers -/

/-- Digits with single underscores between them. -/
def underscored? (isDigit : Char → Bool) (cs : List Char) : Option (List Char) :=
  let groups := splitAt '_' cs
  if groups.all fun g => !g.isEmpty && g.all isDigit then some groups.flatten else none

/-- A number of the given base, within 64 bits. -/
def based? (base : Nat) (cs : List Char) : Option Value := do
  let isDigit (c : Char) := (Http.hexDigit? c).any (· < base)
  let digits ← underscored? isDigit cs
  let n := digits.foldl (fun n c => n * base + (Http.hexDigit? c).getD 0) 0
  if n < Nat.pow 2 63 then some (.integer n) else none

def splitSign : List Char → List Char × List Char
  | '+' :: cs => (['+'], cs)
  | '-' :: cs => (['-'], cs)
  | cs => ([], cs)

/-- The whole part of a number has no zero before other digits. -/
def wholePart? (cs : List Char) : Option (List Char) :=
  match underscored? Char.isDigit cs with
  | some ('0' :: _ :: _) => none
  | digits => digits

def decimal? (cs : List Char) : Option Value := do
  let (sign, rest) := splitSign cs
  let digits ← wholePart? rest
  (readInteger (.signed 64) (sign ++ digits)).toOption.map .integer

def integer? : List Char → Option Value
  | '0' :: 'x' :: cs => based? 16 cs
  | '0' :: 'o' :: cs => based? 8 cs
  | '0' :: 'b' :: cs => based? 2 cs
  | cs => decimal? cs

/-- What stands behind the sign of an exponent. -/
def isExponent (cs : List Char) : Bool := (underscored? Char.isDigit (splitSign cs).2).isSome

/-- Splits at the first character that a test finds. -/
def breakAt (p : Char → Bool) (cs : List Char) : List Char × Option (List Char) :=
  match cs.span (!p ·) with
  | (front, []) => (front, none)
  | (front, _ :: back) => (front, some back)

/-- A fraction, an exponent or both behind a whole number, or a word for what is none. -/
def isFloat (cs : List Char) : Bool :=
  let (_, rest) := splitSign cs
  if rest = "inf".toList ∨ rest = "nan".toList then true
  else
    let (mantissa, exponent) := breakAt (fun c => c == 'e' || c == 'E') rest
    let (whole, fraction) := breakAt (· == '.') mantissa
    (wholePart? whole).isSome && fraction.all (fun f => (underscored? Char.isDigit f).isSome) &&
      exponent.all isExponent && (fraction.isSome || exponent.isSome)

/-! ## Dates and times -/

/-- A number of exactly so many digits between two bounds. -/
def fixed? (digits least greatest : Nat) (cs : List Char) : Option (Nat × List Char) :=
  let front := cs.take digits
  let n := front.foldl (fun n c => n * 10 + digitValue c) 0
  if front.length = digits && front.all Char.isDigit && least ≤ n && n ≤ greatest then
    some (n, cs.drop digits)
  else none

def literal? (c : Char) : List Char → Option (List Char)
  | d :: rest => if d = c then some rest else none
  | [] => none

def isLeapYear (y : Nat) : Bool := y % 4 == 0 && (y % 100 != 0 || y % 400 == 0)

def daysIn (year month : Nat) : Nat :=
  if month = 2 then (if isLeapYear year then 29 else 28)
  else if month = 4 ∨ month = 6 ∨ month = 9 ∨ month = 11 then 30
  else 31

/-- What is left of a text behind a date. -/
def afterDate? (cs : List Char) : Option (List Char) := do
  let (year, cs) ← fixed? 4 0 9999 cs
  let (month, cs) ← fixed? 2 1 12 (← literal? '-' cs)
  let (_, cs) ← fixed? 2 1 (daysIn year month) (← literal? '-' cs)
  return cs

/-- What is left of a text behind the fraction of a second. -/
def afterFraction? : List Char → Option (List Char)
  | '.' :: cs => if (cs.takeWhile Char.isDigit).isEmpty then none else some (cs.dropWhile Char.isDigit)
  | cs => some cs

/-- What is left of a text behind a time of day. A minute may have a leap second. -/
def afterTime? (cs : List Char) : Option (List Char) := do
  let (_, cs) ← fixed? 2 0 23 cs
  let (_, cs) ← fixed? 2 0 59 (← literal? ':' cs)
  let (_, cs) ← fixed? 2 0 60 (← literal? ':' cs)
  afterFraction? cs

def isOffset : List Char → Bool
  | [] | ['Z'] | ['z'] => true
  | c :: cs =>
    (c == '+' || c == '-') &&
      match (fixed? 2 0 23 cs).bind fun r => (literal? ':' r.2).bind (fixed? 2 0 59) with
      | some (_, []) => true
      | _ => false

/-- A time of day with its distance from the prime meridian. -/
def isOffsetTime (cs : List Char) : Bool := (afterTime? cs).any isOffset

def isDate (cs : List Char) : Bool := afterDate? cs == some []

/-- A date and a time with the letter between them, or one of the two. -/
def isDatetime (cs : List Char) : Bool :=
  afterTime? cs == some [] ||
    match afterDate? cs with
    | some [] => true
    | some (c :: rest) => (c == 'T' || c == 't') && isOffsetTime rest
    | none => false

/-! ## Words -/

/-- The value of a word without quotes. -/
def ofWord? (cs : List Char) : Option Value :=
  if cs = "true".toList then some (.boolean true)
  else if cs = "false".toList then some (.boolean false)
  else if isDatetime cs then some (.datetime cs)
  else if isFloat cs then some (.float cs)
  else integer? cs

def isWordEnd (c : Char) : Bool := " \t\n\r,#]\x7d".toList.contains c

/-- Reads a word. A date may have a time behind a space. -/
def word : Reader Value := fun cs =>
  let (w, rest) := cs.span (!isWordEnd ·)
  match isDate w, rest with
  | true, ' ' :: more =>
    let (t, rest') := more.span (!isWordEnd ·)
    if isOffsetTime t then some (.datetime (w ++ ' ' :: t), rest') else (ofWord? w).map (·, rest)
  | _, _ => (ofWord? w).map (·, rest)

/-! ## Texts -/

/-- Controls but tabs may stand in no text. -/
def isTextChar (c : Char) : Bool := c == '\t' || (' ' ≤ c && c ≠ '\x7f')

/-- A character by its number in hexadecimal digits. -/
def scalarEscape (digits : Nat) (cs : List Char) : Option (Char × List Char) := do
  let front := cs.take digits
  let ns ← front.mapM Http.hexDigit?
  if ns.length ≠ digits then none
  let c ← Utf8.scalar? (ns.foldl (fun n d => n * 16 + d) 0)
  return (c, cs.drop digits)

/-- What an escape behind its backslash stands for. -/
def escape : Reader Char
  | 'b' :: cs => some ('\x08', cs)
  | 't' :: cs => some ('\t', cs)
  | 'n' :: cs => some ('\n', cs)
  | 'f' :: cs => some ('\x0c', cs)
  | 'r' :: cs => some ('\r', cs)
  | '"' :: cs => some ('"', cs)
  | '\\' :: cs => some ('\\', cs)
  | 'u' :: cs => scalarEscape 4 cs
  | 'U' :: cs => scalarEscape 8 cs
  | _ => none

/-- A text on one line up to its quote. The first argument is at least as great as the number of
characters. -/
def basic : Nat → List Char → Reader (List Char)
  | 0, _, _ | _, _, [] => none
  | _ + 1, acc, '"' :: cs => some (acc.reverse, cs)
  | n + 1, acc, '\\' :: cs =>
    match escape cs with
    | some (c, rest) => basic n (c :: acc) rest
    | none => none
  | n + 1, acc, c :: cs => if isTextChar c then basic n (c :: acc) cs else none

/-- A text on one line without escapes, up to its quote. -/
def verbatim (acc : List Char) : Reader (List Char)
  | [] => none
  | '\x27' :: cs => some (acc.reverse, cs)
  | c :: cs => if isTextChar c then verbatim (c :: acc) cs else none

/-- Skips blanks, at least one line end among them. -/
def lineJoin? (cs : List Char) : Option (List Char) :=
  let isBlank (c : Char) := c == ' ' || c == '\t'
  match cs.dropWhile isBlank with
  | '\n' :: rest => some (skip rest)
  | '\r' :: '\n' :: rest => some (skip rest)
  | _ => none
where
  skip : List Char → List Char
    | ' ' :: rest | '\t' :: rest | '\n' :: rest => skip rest
    | '\r' :: '\n' :: rest => skip rest
    | rest => rest

/-- The quotes at the front of a text, at most five of which can belong together: three that end
it and two that stand before them. -/
def closing? (quote : Char) (cs : List Char) : Option (Nat × List Char) :=
  let n := (cs.takeWhile (· == quote)).length
  if n < 3 then none else some (min n 5 - 3, cs.drop (min n 5))

/-- A text over several lines up to its quotes. -/
def multiline (escapes : Bool) (quote : Char) : Nat → List Char → Reader (List Char)
  | 0, _, _ | _, _, [] => none
  | n + 1, acc, c :: cs =>
    if c = quote then
      match closing? quote (c :: cs) with
      | some (inner, rest) => some (acc.reverse ++ List.replicate inner quote, rest)
      | none => multiline escapes quote n (c :: acc) cs
    else if c = '\n' then multiline escapes quote n ('\n' :: acc) cs
    else if c = '\r' then
      match cs with
      | '\n' :: rest => multiline escapes quote n ('\n' :: acc) rest
      | _ => none
    else if escapes && c = '\\' then
      match escape cs, lineJoin? cs with
      | some (d, rest), _ => multiline escapes quote n (d :: acc) rest
      | none, some rest => multiline escapes quote n acc rest
      | none, none => none
    else if isTextChar c then multiline escapes quote n (c :: acc) cs
    else none

/-- A line end right behind the opening quotes is no part of the text. -/
def dropFirstLineEnd : List Char → List Char
  | '\n' :: cs => cs
  | '\r' :: '\n' :: cs => cs
  | cs => cs

/-- Reads a text on one line. -/
def lineText : Reader String
  | '"' :: cs => (basic (cs.length + 1) [] cs).map fun r => (String.ofList r.1, r.2)
  | '\x27' :: cs => (verbatim [] cs).map fun r => (String.ofList r.1, r.2)
  | _ => none

/-- Reads a text of any kind. -/
def text : Reader String := fun cs =>
  let read (escapes : Bool) (quote : Char) (cs : List Char) :=
    (multiline escapes quote (cs.length + 1) [] (dropFirstLineEnd cs)).map fun r =>
      (String.ofList r.1, r.2)
  match cs with
  | '"' :: '"' :: '"' :: rest => read true '"' rest
  | '\x27' :: '\x27' :: '\x27' :: rest => read false '\x27' rest
  | _ => lineText cs

end Bindery.Toml
