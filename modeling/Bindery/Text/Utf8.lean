/-! # Characters and the bytes that carry them -/

namespace Bindery.Utf8

/-- A text as it was received: its characters, and `none` for each byte that is part of no
character. -/
abbrev Received := List (Option Char)

def scalar? (n : Nat) : Option Char :=
  if h : n.isValidChar then some (Char.ofNatAux n h) else none

def isTail (b : UInt8) : Bool := 0x80 ≤ b && b ≤ 0xbf

/-- The payload of a byte that continues a character. -/
def tailBits (b : UInt8) : Nat := b.toNat - 0x80

/-- The character that begins the bytes and the number of bytes that continue it. Every
character has one form only: the shortest. -/
def first? : List UInt8 → Option (Char × Nat)
  | [] => none
  | a :: rest =>
    if a < 0x80 then (scalar? a.toNat).map (·, 0)
    else if 0xc2 ≤ a && a ≤ 0xdf then
      match rest with
      | b :: _ =>
        if isTail b then (scalar? ((a.toNat - 0xc0) * 0x40 + tailBits b)).map (·, 1) else none
      | _ => none
    else if 0xe0 ≤ a && a ≤ 0xef then
      match rest with
      | b :: c :: _ =>
        let n := (a.toNat - 0xe0) * 0x1000 + tailBits b * 0x40 + tailBits c
        if isTail b && isTail c && 0x800 ≤ n then (scalar? n).map (·, 2) else none
      | _ => none
    else if 0xf0 ≤ a && a ≤ 0xf4 then
      match rest with
      | b :: c :: d :: _ =>
        let n := (a.toNat - 0xf0) * 0x40000 + tailBits b * 0x1000 + tailBits c * 0x40 + tailBits d
        if isTail b && isTail c && isTail d && 0x10000 ≤ n then (scalar? n).map (·, 3) else none
      | _ => none
    else none

/-- Reads on after the bytes that continue the last character. -/
def receivedAfter : Nat → List UInt8 → Received
  | _, [] => []
  | n + 1, _ :: rest => receivedAfter n rest
  | 0, a :: rest =>
    match first? (a :: rest) with
    | some (c, n) => some c :: receivedAfter n rest
    | none => none :: receivedAfter 0 rest

def received (bytes : List UInt8) : Received := receivedAfter 0 bytes

/-- The characters of a text that was received whole. -/
def whole? : Received → Option (List Char)
  | [] => some []
  | none :: _ => none
  | some c :: rest => (whole? rest).map (c :: ·)

@[simp] theorem whole?_map_some (cs : List Char) : whole? (cs.map some) = some cs := by
  induction cs with
  | nil => rfl
  | cons c cs ih => simp [whole?, ih]

/-- The text that the bytes spell, if they spell one. -/
def decode? (bytes : List UInt8) : Option String := (whole? (received bytes)).map String.ofList

def encodeChars (cs : List Char) : List UInt8 := cs.flatMap String.utf8EncodeChar

def encode (s : String) : List UInt8 := encodeChars s.toList

end Bindery.Utf8
