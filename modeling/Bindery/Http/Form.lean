import Bindery.Http.Percent

/-! # Pairs of names and values in a query -/

namespace Bindery.Http.Form

def kept (c : Char) : Bool := c.isAlphanum || "*-._".toList.contains c

/-- A space becomes a plus sign. -/
def encodeChar (c : Char) : List Char :=
  if c = ' ' then ['+'] else percentEncode kept [c]

def encodePart (s : String) : List Char := s.toList.flatMap encodeChar

def encodePair (p : String × String) : List Char := encodePart p.1 ++ '=' :: encodePart p.2

/-- The pairs in order, with ampersands between them. -/
def encode (ps : List (String × String)) : List Char :=
  ['&'].intercalate (ps.map encodePair)

end Bindery.Http.Form
