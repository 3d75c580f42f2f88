import Bindery.Dict

/-! # Request headers -/

namespace Bindery.Http.Header

/-- Characters of a header's name. -/
def isTokenChar (c : Char) : Bool := c.isAlphanum || "!#$%&'*+-.^_`|~".toList.contains c

/-- The greatest length of a name. -/
def maxNameLength : Nat := 65535

/-- Names are not empty and not too long. -/
def isName (s : String) : Bool :=
  !s.isEmpty && s.length ≤ maxNameLength && s.toList.all isTokenChar

/-- Values have no control characters but tabs. -/
def isValue (s : String) : Bool := s.toList.all fun c => c == '\t' || (' ' ≤ c && c ≠ '\x7f')

/-- Names are compared in lower case. -/
def key (name : String) : String := String.ofList (name.toList.map Char.toLower)

def sameName (a b : String) : Bool := key a == key b

end Bindery.Http.Header
