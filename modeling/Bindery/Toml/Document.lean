import Bindery.Toml.Scalar

/-! # TOML documents -/

namespace Bindery.Toml

def isGap (c : Char) : Bool := c == ' ' || c == '\t'

def skipGap (cs : List Char) : List Char := cs.dropWhile isGap

/-! ## Keys -/

def isBareKey (c : Char) : Bool := c.isAlphanum || c == '-' || c == '_'

def simpleKey : Reader String := fun cs =>
  match cs.span isBareKey with
  | ([], _) => lineText cs
  | (name, rest) => some (String.ofList name, rest)

/-- Keys with dots between them, blanks around each. The first argument bounds their number. -/
def key : Nat → Reader (List String)
  | 0, _ => none
  | n + 1, cs => do
    let (k, rest) ← simpleKey (skipGap cs)
    match skipGap rest with
    | '.' :: more => (key n more).map fun r => (k :: r.1, r.2)
    | rest => some ([k], rest)

/-- The depth that keys and values may have. -/
def nesting : Nat := 79

/-- The path before the last key, and the last key. -/
def splitLast (ks : List String) : List String × String := (ks.dropLast, ks.getLastD "")

/-! ## Lines -/

/-- Skips a comment up to the end of its line. -/
def skipComment : List Char → Option (List Char)
  | '#' :: cs =>
    let rest := cs.dropWhile fun c => c ≠ '\n' && c ≠ '\r'
    if (cs.takeWhile fun c => c ≠ '\n' && c ≠ '\r').all isTextChar then some rest else none
  | cs => some cs

def lineEnd? : List Char → Option (List Char)
  | '\n' :: cs => some cs
  | '\r' :: '\n' :: cs => some cs
  | _ => none

/-- Skips what may follow on a line, and the end of the line. -/
def finishLine (cs : List Char) : Option (List Char) := do
  match ← skipComment (skipGap cs) with
  | [] => some []
  | rest => lineEnd? rest

/-- Skips blanks, comments and line ends. The first argument bounds their number. -/
def skipLines : Nat → List Char → Option (List Char)
  | 0, cs => some cs
  | n + 1, cs =>
    match skipGap cs with
    | '#' :: rest => (skipComment ('#' :: rest)).bind (skipLines n)
    | rest =>
      match lineEnd? rest with
      | some more => skipLines n more
      | none => some rest

def skipAllLines (cs : List Char) : Option (List Char) := skipLines (cs.length + 1) cs

/-! ## Values -/

/-- The values of an array up to its bracket, a comma allowed behind the last. The first argument
bounds their number. -/
def elements (element : Reader Value) : Nat → Reader (List Value)
  | 0, _ => none
  | n + 1, cs => do
    match ← skipAllLines cs with
    | ']' :: rest => some ([], rest)
    | cs =>
      let (v, rest) ← element cs
      match ← skipAllLines rest with
      | ',' :: more => (elements element n more).map fun r => (v :: r.1, r.2)
      | ']' :: more => some ([v], more)
      | _ => none

/-- A key, an equals sign and a value. -/
def pair (value : Reader Value) : Reader (List String × Value) := fun cs => do
  let (ks, rest) ← key nesting cs
  match rest with
  | '=' :: rest => (value (skipGap rest)).map fun r => ((ks, r.1), r.2)
  | _ => none

/-- The pairs of a table on one line up to its brace, no comma behind the last. -/
def pairs (value : Reader Value) : Nat → Entries → Reader Entries
  | 0, _, _ => none
  | n + 1, es, cs => do
    let ((ks, v), rest) ← pair value cs
    let (path, last) := splitLast ks
    let es ← Entries.put v last path es
    match skipGap rest with
    | ',' :: more => pairs value n es more
    | '\x7d' :: more => some (es, more)
    | _ => none

def inlineTable (value : Reader Value) : Reader Value := fun cs =>
  match skipGap cs with
  | '\x7d' :: rest => some (.table [], rest)
  | cs => (pairs value (cs.length + 1) [] cs).map fun r => (.table (entriesToValues r.1), r.2)

/-- Reads a value in which arrays and tables nest at most so deep. -/
def value : Nat → Reader Value
  | n + 1, '[' :: cs => (elements (value n) (cs.length + 1) cs).map fun r => (.array r.1, r.2)
  | n + 1, '\x7b' :: cs => inlineTable (value n) cs
  | 0, '[' :: _ | 0, '\x7b' :: _ => none
  | _, cs =>
    match cs with
    | '"' :: _ | '\x27' :: _ => (text cs).map fun r => (.string r.1, r.2)
    | _ => word cs

/-! ## Documents -/

/-- The document so far, and the path of the table that has been opened last. -/
structure State where
  root : Entries := []
  opened : List String := []

/-- A header up to its brackets. -/
def header (f : Option Item → Option Item) (close : List Char) (s : State) :
    Reader State := fun cs => do
  let (ks, rest) ← key nesting cs
  let rest ← Text.dropPrefix? close rest
  let root ← Entries.descend f ks s.root
  return ({ root, opened := ks }, rest)

def putPair (s : State) (ks : List String) (v : Value) : Option State :=
  let (path, last) := splitLast ks
  let put := Entries.put v last path
  match s.opened with
  | [] => (put s.root).map fun root => { s with root }
  | opened => (Entries.descend (Entries.insideOpen put) opened s.root).map fun root => { s with root }

/-- Reads one line, or the lines of one value. -/
def statement (s : State) : Reader State
  | '[' :: '[' :: cs => header Entries.openElement [']', ']'] s cs
  | '[' :: cs => header Entries.openTable [']'] s cs
  | cs => do
    let ((ks, v), rest) ← pair (value nesting) cs
    return (← putPair s ks v, rest)

/-- Reads statements to the end. The first argument bounds their number. -/
def statements : Nat → State → List Char → Option State
  | 0, _, _ => none
  | n + 1, s, cs => do
    match ← skipAllLines cs with
    | [] => some s
    | cs =>
      let (s, rest) ← statement s cs
      statements n s (← finishLine rest)

/-- The entries of a document. A mark of byte order at its beginning is skipped. -/
def parse? (text : String) : Option (List (String × Value)) :=
  let cs := match text.toList with
    | '\ufeff' :: cs => cs
    | cs => cs
  (statements (cs.length + 1) {} cs).map fun s => entriesToValues s.root

end Bindery.Toml
