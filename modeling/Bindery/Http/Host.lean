import Bindery.Http.Percent
import Bindery.Http.Punycode
import Bindery.Text.Blank
import Bindery.Text.Integer
import Bindery.Text.Quoted

/-! # Hosts -/

namespace Bindery.Http

open Text

/-- Why a text is no absolute URL, or cannot be the base of one. -/
inductive UrlFault where
  | emptyHost
  | internationalName
  | invalidPort
  | invalidV4
  | invalidV6
  | forbiddenCharacter
  | noScheme
  | plainPath
deriving DecidableEq, Repr

def UrlFault.message : UrlFault → String
  | .emptyHost => "empty host"
  | .internationalName => "invalid international domain name"
  | .invalidPort => "invalid port number"
  | .invalidV4 => "invalid IPv4 address"
  | .invalidV6 => "invalid IPv6 address"
  | .forbiddenCharacter => "invalid domain character"
  | .noScheme => "relative URL without a base"
  | .plainPath => "relative URL with a cannot-be-a-base base"

inductive Host where
  | name (s : String)
  | v4 (address : Nat)
  /-- Eight numbers of 16 bits. -/
  | v6 (pieces : List Nat)
deriving DecidableEq, Repr

namespace Host

/-! ## Numeric addresses of four bytes -/

/-- The digits of a number in base 8, 10 or 16, by the beginning of its text. -/
def digitsOf : List Char → Nat × List Char
  | '0' :: 'x' :: cs | '0' :: 'X' :: cs => (16, cs)
  | '0' :: c :: cs => (8, c :: cs)
  | cs => (10, cs)

def naturalIn? (base : Nat) (cs : List Char) : Option Nat :=
  cs.foldlM (fun n c => (hexDigit? c).bind fun d => if d < base then some (n * base + d) else none) 0

/-- A part of an address; a base sign without digits is zero. -/
def v4Number? (cs : List Char) : Option Nat :=
  if cs.isEmpty then none
  else
    let (base, digits) := digitsOf cs
    naturalIn? base digits

/-- The parts of a host name between dots, a dot at the end ignored. -/
def labels (cs : List Char) : List (List Char) :=
  match (splitAt '.' cs).reverse with
  | [] :: l :: ls => (l :: ls).reverse
  | ls => ls.reverse

/-- A name whose last part is a number can only be an address. -/
def endsInNumber (cs : List Char) : Bool :=
  match (labels cs).getLast? with
  | none => false
  | some last => (!last.isEmpty && last.all Char.isDigit) || (v4Number? last).isSome

/-- All numbers but the last are bytes; the last fills the bytes that are left. -/
def ofNumbers? (ns : List Nat) : Option Nat :=
  match ns.reverse with
  | [] => none
  | last :: front =>
    if front.length ≤ 3 && front.all (· ≤ 255) && last < Nat.pow 256 (4 - front.length) then
      some (front.reverse.foldl (fun n b => n * 256 + b) 0 * Nat.pow 256 (4 - front.length) + last)
    else none

def parseV4 (cs : List Char) : Except UrlFault Host :=
  match ((labels cs).mapM v4Number?).bind ofNumbers? with
  | some n => .ok (.v4 n)
  | none => .error .invalidV4

/-- Four numbers in decimal between dots. -/
def v4Text (n : Nat) : List Char :=
  ['.'].intercalate ([n / 16777216, n / 65536 % 256, n / 256 % 256, n % 256].map decimalDigits)

/-! ## Numeric addresses of eight pieces -/

def v6Piece? (cs : List Char) : Option Nat :=
  if cs.isEmpty || 4 < cs.length then none else naturalIn? 16 cs

/-- A byte in decimal without leading zeros. -/
def v6Byte? (cs : List Char) : Option Nat :=
  match cs with
  | [] => none
  | '0' :: _ :: _ => none
  | _ => (naturalIn? 10 cs).filter (· ≤ 255)

/-- The last pieces may be written as four bytes between dots. -/
def v6Tail? (cs : List Char) : Option (List Nat) :=
  if cs.contains '.' then
    match (splitAt '.' cs).mapM v6Byte? with
    | some [a, b, c, d] => some [a * 256 + b, c * 256 + d]
    | _ => none
  else (v6Piece? cs).map ([·])

def v6Group? : List (List Char) → Option (List Nat)
  | [] => some []
  | [last] => v6Tail? last
  | p :: ps => (v6Piece? p).bind fun n => (v6Group? ps).map (n :: ·)

/-- The pieces before the first double colon, and those behind it if there is one. -/
def splitDouble : List Char → List Char × Option (List Char)
  | [] => ([], none)
  | ':' :: ':' :: rest => ([], some rest)
  | c :: rest => ((c :: (splitDouble rest).1), (splitDouble rest).2)

def groupsOf (cs : List Char) : List (List Char) := if cs.isEmpty then [] else splitAt ':' cs

/-- A double colon stands for the zeros that are missing, at least one. -/
def parseV6 (cs : List Char) : Except UrlFault Host :=
  match splitDouble cs with
  | (all, none) =>
    match v6Group? (groupsOf all) with
    | some ps => if ps.length = 8 then .ok (.v6 ps) else .error .invalidV6
    | none => .error .invalidV6
  | (front, some back) =>
    match (groupsOf front).mapM v6Piece?, v6Group? (groupsOf back) with
    | some fs, some bs =>
      if fs.length + bs.length ≤ 7 then
        .ok (.v6 (fs ++ List.replicate (8 - fs.length - bs.length) 0 ++ bs))
      else .error .invalidV6
    | _, _ => .error .invalidV6

/-- The number of zeros from a place on. -/
def zerosAt (ps : List Nat) (i : Nat) : Nat := ((ps.drop i).takeWhile (· == 0)).length

/-- Where the longest run of zeros begins and how long it is; of equal runs the first counts. -/
def longestZeros (ps : List Nat) : Nat × Nat :=
  (List.range ps.length).foldl
    (fun best i => if best.2 < zerosAt ps i then (i, zerosAt ps i) else best) (0, 0)

/-- Lower-case hexadecimal numbers between colons, the longest run of zeros left out. -/
def v6Text (ps : List Nat) : List Char :=
  let (start, count) := longestZeros ps
  let group (ns : List Nat) := [':'].intercalate (ns.map hexDigits)
  if count < 2 then group ps
  else group (ps.take start) ++ "::".toList ++ group (ps.drop (start + count))

def text : Host → String
  | .name s => s
  | .v4 n => String.ofList (v4Text n)
  | .v6 ps => "[" ++ String.ofList (v6Text ps) ++ "]"

/-! ## Names -/

/-- Characters that no name of a host may have. -/
def isForbidden (c : Char) : Bool :=
  c ≤ ' ' || c == '\x7f' || "%#/:<>?@[\\]^|".toList.contains c

/-- Whether every other letter of a range is a capital, given its least and greatest letter. -/
def isPairedCapital (least greatest : Nat) (n : Nat) : Bool :=
  least ≤ n && n ≤ greatest && n % 2 == least % 2

/-- The small letter of a capital of the Latin, Greek or Cyrillic alphabet. -/
def smallLetter (c : Char) : Char :=
  let n := c.toNat
  if n < 0x80 then c.toLower
  else if (0xc0 ≤ n && n ≤ 0xde && n ≠ 0xd7) || (0x391 ≤ n && n ≤ 0x3a9) ||
      (0x410 ≤ n && n ≤ 0x42f) then Char.ofNat (n + 0x20)
  else if 0x400 ≤ n && n ≤ 0x40f then Char.ofNat (n + 0x50)
  else if isPairedCapital 0x100 0x12e n || isPairedCapital 0x132 0x136 n ||
      isPairedCapital 0x139 0x147 n || isPairedCapital 0x14a 0x176 n ||
      isPairedCapital 0x179 0x17d n then Char.ofNat (n + 1)
  else c

/-- Full-width forms are characters of seven bits, and full stops of other scripts are points. -/
def narrow (c : Char) : Char :=
  let n := c.toNat
  if 0xff01 ≤ n && n ≤ 0xff5e then Char.ofNat (n - 0xfee0)
  else if n = 0x3002 || n = 0xff61 then '.'
  else c

/-- Characters that leave no trace in a name. -/
def isIgnored (c : Char) : Bool := "\u00ad\u200b\u2060\ufeff".toList.contains c

/-- A label as it is sent: one with other characters than those of seven bits is encoded. -/
def sentLabel (label : List Char) : List Char :=
  if label.all (· < '\x80') then label else "xn--".toList ++ Punycode.encode label

/-- A name is read with its encoded bytes decoded and in small letters. -/
def parseName (cs : List Char) : Except UrlFault Host :=
  match Utf8.decode? (percentDecode cs) with
  | none => .error .internationalName
  | some s =>
    let chars := (s.toList.filter (!isIgnored ·)).map fun c => smallLetter (narrow c)
    let name := ['.'].intercalate ((splitAt '.' chars).map sentLabel)
    if name.any isForbidden then .error .internationalName
    else if name.isEmpty then .error .emptyHost
    else if endsInNumber name then parseV4 name
    else .ok (.name (String.ofList name))

def parseBracketed (cs : List Char) : Except UrlFault Host :=
  match dropSuffix? [']'] cs with
  | some inside => parseV6 inside
  | none => .error .invalidV6

/-- The host of a scheme with a default port. -/
def parse : List Char → Except UrlFault Host
  | [] => .error .emptyHost
  | '[' :: cs => parseBracketed cs
  | cs => parseName cs

/-- The host of any other scheme is kept as it is. -/
def parsePlain : List Char → Except UrlFault Host
  | '[' :: cs => parseBracketed cs
  | cs =>
    if cs.any fun c => "\x00\t\n\r #/:<>?@[\\]^|".toList.contains c then
      .error .forbiddenCharacter
    else .ok (.name (String.ofList (percentEncode isPlain cs)))

end Host
end Bindery.Http
