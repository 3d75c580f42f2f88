/-! # Names in lower and upper case with underscores -/

namespace Bindery.Naming

/-- An underscore behind what is there, unless there is nothing or an underscore already. The
text is held backwards. -/
def separate : List Char → List Char
  | [] => []
  | '_' :: acc => '_' :: acc
  | c :: acc => '_' :: c :: acc

/-- Whether a word begins at an upper-case letter after `prev` and before `next`. -/
def startsWord (prev next : Option Char) : Bool :=
  match prev with
  | none => false
  | some p => p.isLower || p.isDigit || (p.isUpper && next.any Char.isLower)

/-- Reads a name on after the character `prev`, with the result so far backwards in `acc`. -/
def snakeOnto (prev : Option Char) (acc : List Char) : List Char → List Char
  | [] => acc
  | c :: cs =>
    let acc :=
      if !c.isAlphanum then separate acc
      else if c.isUpper && startsWord prev cs.head? then c.toLower :: separate acc
      else c.toLower :: acc
    snakeOnto (some c) acc cs

def snakeChars (cs : List Char) : List Char :=
  ((snakeOnto none [] cs).dropWhile (· == '_')).reverse

/-- A name in lower case, its words parted by single underscores. Letters and digits are those
of ASCII; every other character parts words. -/
def snakeCase (s : String) : String := String.ofList (snakeChars s.toList)

def startsWithDigit (cs : List Char) : Bool := cs.head?.any Char.isDigit

/-- The name of a constant: upper case with underscores, and never empty or led by a digit. -/
def constantName (s : String) : String :=
  let cs := (snakeChars s.toList).map Char.toUpper
  String.ofList (if cs.isEmpty || startsWithDigit cs then 'V' :: '_' :: cs else cs)

end Bindery.Naming
