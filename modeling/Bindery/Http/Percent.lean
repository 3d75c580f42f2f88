import Bindery.Text.Utf8

/-! # Percent encoding

A byte that may not stand as it is becomes a percent sign and two hexadecimal digits. -/

namespace Bindery.Http

def upperHexDigit (n : Nat) : Char := if n < 10 then Char.ofNat (48 + n) else Char.ofNat (55 + n)

def percentByte (b : UInt8) : List Char :=
  ['%', upperHexDigit (b.toNat / 16), upperHexDigit (b.toNat % 16)]

/-- Encodes the bytes of every character that is not kept. -/
def percentEncode (kept : Char → Bool) (cs : List Char) : List Char :=
  cs.flatMap fun c => if kept c then [c] else (Utf8.encodeChars [c]).flatMap percentByte

/-- The value of a hexadecimal digit in either case. -/
def hexDigit? (c : Char) : Option Nat :=
  if c.isDigit then some (c.toNat - 48)
  else if 'a' ≤ c ∧ c ≤ 'f' then some (c.toNat - 87)
  else if 'A' ≤ c ∧ c ≤ 'F' then some (c.toNat - 55)
  else none

/-- The bytes of a text in which encoded bytes are decoded; a percent sign without two digits
stands for itself. -/
def percentDecode : List Char → List UInt8
  | [] => []
  | '%' :: a :: b :: rest =>
    match hexDigit? a, hexDigit? b with
    | some x, some y => UInt8.ofNat (x * 16 + y) :: percentDecode rest
    | _, _ => Utf8.encodeChars ['%'] ++ percentDecode (a :: b :: rest)
  | c :: rest => Utf8.encodeChars [c] ++ percentDecode rest

/-! ## What is kept -/

/-- The printable characters of seven bits, the space included. -/
def isPlain (c : Char) : Bool := ' ' ≤ c && c < '\x7f'

def keptInFragment (c : Char) : Bool := isPlain c && !(" \"<>`".toList.contains c)

def keptInPath (c : Char) : Bool := keptInFragment c && !("#?\x7b\x7d".toList.contains c)

/-- In a single segment of a path. -/
def keptInSegment (c : Char) : Bool := keptInPath c && !("/%".toList.contains c)

def keptInUserinfo (c : Char) : Bool := keptInPath c && !("/:;=@[\\]^|".toList.contains c)

def keptInQuery (c : Char) : Bool := isPlain c && !(" \"#<>".toList.contains c)

end Bindery.Http
