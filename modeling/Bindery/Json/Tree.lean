import Bindery.Text.Utf8

/-! # The syntax of a JSON text

A tree keeps everything that its text holds, blanks included, so the text of any part can be
given back as it was received. A text that stops being JSON somewhere still has a tree: it ends
in a broken place, and whoever reads the tree from left to right meets that place where the
text has it. -/

namespace Bindery.Json

open Utf8 (Received)

abbrev Blank := List Char

/-- The end of an array or object. -/
inductive Stop where
  /-- The closing bracket stands after a gap; only an empty array or object has a gap here. -/
  | closed (gap : Blank)
  /-- The text cannot be read on; where it breaks off inside a key, the part before. -/
  | broken (key : Option Received)
deriving DecidableEq, Repr, Inhabited

mutual

inductive Tree where
  | null
  | bool (b : Bool)
  | number (text : List Char)
  /-- The characters between the quotes, escapes as they were written. -/
  | string (content : Received)
  | array (items : Items)
  | object (members : Members)
  /-- A place where no value can be read. -/
  | broken

inductive Items where
  | stop (s : Stop)
  | item (before : Blank) (value : Tree) (after : Blank) (rest : Items)

inductive Members where
  | stop (s : Stop)
  | member (before : Blank) (key : Received) (gap lead : Blank) (value : Tree) (after : Blank)
      (rest : Members)

end

deriving instance Repr for Tree, Items, Members

instance : Inhabited Tree := ⟨.null⟩

/-! ## The text of a tree -/

def Stop.source (bracket : Char) : Stop → Received
  | .closed gap => gap.map some ++ [some bracket]
  | .broken _ => []

def Items.comma : Items → Received
  | .stop _ => []
  | .item .. => [some ',']

def Members.comma : Members → Received
  | .stop _ => []
  | .member .. => [some ',']

def chars (s : String) : Received := s.toList.map some

mutual

/-- The text that a tree was read from, from the first to the last character of the value. -/
def Tree.source : Tree → Received
  | .null => chars "null"
  | .bool true => chars "true"
  | .bool false => chars "false"
  | .number text => text.map some
  | .string content => some '"' :: (content ++ [some '"'])
  | .array items => some '[' :: items.source
  | .object members => some '\x7b' :: members.source
  | .broken => []

def Items.source : Items → Received
  | .stop s => s.source ']'
  | .item before value after rest =>
    before.map some ++ (value.source ++ (after.map some ++ (rest.comma ++ rest.source)))

def Members.source : Members → Received
  | .stop s => s.source '\x7d'
  | .member before key gap lead value after rest =>
    before.map some ++ (some '"' :: (key ++ (some '"' :: (gap.map some ++ (some ':' ::
      (lead.map some ++ (value.source ++ (after.map some ++ (rest.comma ++ rest.source)))))))))

end

mutual

/-- The tree has no broken place. -/
def Tree.isWhole : Tree → Bool
  | .null | .bool _ | .number _ | .string _ => true
  | .array items => items.isWhole
  | .object members => members.isWhole
  | .broken => false

def Items.isWhole : Items → Bool
  | .stop (.closed _) => true
  | .stop (.broken _) => false
  | .item _ value _ rest => value.isWhole && rest.isWhole

def Members.isWhole : Members → Bool
  | .stop (.closed _) => true
  | .stop (.broken _) => false
  | .member _ _ _ _ value _ rest => value.isWhole && rest.isWhole

end

/-! ## Reading -/

/-- The longest beginning whose characters satisfy a predicate, put behind `acc` reversed. -/
def span (p : Char → Bool) (acc : List Char) : Received → List Char × Received
  | some c :: s => if p c then span p (c :: acc) s else (acc.reverse, some c :: s)
  | s => (acc.reverse, s)

def isBlank (c : Char) : Bool := c == ' ' || c == '\n' || c == '\t' || c == '\r'

def blanks (s : Received) : Blank × Received := span isBlank [] s

def digits (s : Received) : List Char × Received := span Char.isDigit [] s

def isHexDigit (c : Char) : Bool :=
  c.isDigit || ('a' ≤ c && c ≤ 'f') || ('A' ≤ c && c ≤ 'F')

def isEscape (c : Char) : Bool := "\"\\/bfnrt".toList.contains c

/-- The content of a string up to its closing quote. Without one, or at a control character or
an escape that JSON does not have, the content read so far. -/
def stringEnd (acc : Received) : Received → Received × Option Received
  | [] => (acc.reverse, none)
  | some '"' :: s => (acc.reverse, some s)
  | some '\\' :: some 'u' :: some a :: some b :: some c :: some d :: s =>
    if isHexDigit a && isHexDigit b && isHexDigit c && isHexDigit d then
      stringEnd (some d :: some c :: some b :: some a :: some 'u' :: some '\\' :: acc) s
    else (acc.reverse, none)
  | some '\\' :: some e :: s =>
    if isEscape e then stringEnd (some e :: some '\\' :: acc) s else (acc.reverse, none)
  | some '\\' :: _ => (acc.reverse, none)
  | some c :: s => if c < ' ' then (acc.reverse, none) else stringEnd (some c :: acc) s
  | none :: s => stringEnd (none :: acc) s

def minusSign : Received → List Char × Received
  | some '-' :: s => (['-'], s)
  | s => ([], s)

/-- At least one digit, and no zero before another. -/
def wholePart (s : Received) : Option (List Char × Received) :=
  match digits s with
  | ([], _) => none
  | ('0' :: _ :: _, _) => none
  | (ds, s) => some (ds, s)

def fractionPart : Received → Option (List Char × Received)
  | some '.' :: s =>
    match digits s with
    | ([], _) => none
    | (ds, s) => some ('.' :: ds, s)
  | s => some ([], s)

def exponentSign : Received → List Char × Received
  | some '+' :: s => (['+'], s)
  | some '-' :: s => (['-'], s)
  | s => ([], s)

def exponentPart : Received → Option (List Char × Received)
  | some e :: s =>
    if e == 'e' || e == 'E' then
      let (sign, s) := exponentSign s
      match digits s with
      | ([], _) => none
      | (ds, s) => some (e :: (sign ++ ds), s)
    else some ([], some e :: s)
  | s => some ([], s)

def readNumber (s : Received) : Option (List Char × Received) := do
  let (sign, s) := minusSign s
  let (whole, s) ← wholePart s
  let (fraction, s) ← fractionPart s
  let (exponent, s) ← exponentPart s
  return (sign ++ (whole ++ (fraction ++ exponent)), s)

mutual

/-- The value at the head of a text and the text after it, or a broken tree. The first argument
bounds the recursion. -/
def readValue : Nat → Received → Tree × Option Received
  | 0, _ => (.broken, none)
  | n + 1, s =>
    match s with
    | some 'n' :: some 'u' :: some 'l' :: some 'l' :: s => (.null, some s)
    | some 't' :: some 'r' :: some 'u' :: some 'e' :: s => (.bool true, some s)
    | some 'f' :: some 'a' :: some 'l' :: some 's' :: some 'e' :: s => (.bool false, some s)
    | some '"' :: s =>
      match stringEnd [] s with
      | (content, some s) => (.string content, some s)
      | (_, none) => (.broken, none)
    | some '[' :: s =>
      match blanks s with
      | (gap, some ']' :: s) => (.array (.stop (.closed gap)), some s)
      | _ =>
        let (items, s) := readItems n s
        (.array items, s)
    | some '\x7b' :: s =>
      match blanks s with
      | (gap, some '\x7d' :: s) => (.object (.stop (.closed gap)), some s)
      | _ =>
        let (members, s) := readMembers n s
        (.object members, s)
    | s =>
      match readNumber s with
      | some (text, s) => (.number text, some s)
      | none => (.broken, none)

/-- At least one more item of an array. -/
def readItems : Nat → Received → Items × Option Received
  | 0, _ => (.stop (.broken none), none)
  | n + 1, s =>
    let (before, s) := blanks s
    match readValue n s with
    | (value, none) => (.item before value [] (.stop (.broken none)), none)
    | (value, some s) =>
      let (after, s) := blanks s
      match s with
      | some ',' :: s =>
        let (rest, s) := readItems n s
        (.item before value after rest, s)
      | some ']' :: s => (.item before value after (.stop (.closed [])), some s)
      | _ => (.item before value after (.stop (.broken none)), none)

/-- At least one more member of an object. -/
def readMembers : Nat → Received → Members × Option Received
  | 0, _ => (.stop (.broken none), none)
  | n + 1, s =>
    let (before, s) := blanks s
    match s with
    | some '"' :: s =>
      match stringEnd [] s with
      | (key, none) => (.stop (.broken (some key)), none)
      | (key, some s) =>
        let (gap, s) := blanks s
        match s with
        | some ':' :: s =>
          let (lead, s) := blanks s
          match readValue n s with
          | (value, none) => (.member before key gap lead value [] (.stop (.broken none)), none)
          | (value, some s) =>
            let (after, s) := blanks s
            match s with
            | some ',' :: s =>
              let (rest, s) := readMembers n s
              (.member before key gap lead value after rest, s)
            | some '\x7d' :: s =>
              (.member before key gap lead value after (.stop (.closed [])), some s)
            | _ => (.member before key gap lead value after (.stop (.broken none)), none)
        | _ => (.member before key gap [] .broken [] (.stop (.broken none)), none)
    | _ => (.stop (.broken none), none)

end

/-- The tree of the value that a text begins with, and whether nothing but blanks follows it. -/
def read (s : Received) : Tree × Bool :=
  let s := (blanks s).2
  match readValue (2 * s.length + 1) s with
  | (tree, none) => (tree, false)
  | (tree, some rest) => (tree, (blanks rest).2.isEmpty)

end Bindery.Json
