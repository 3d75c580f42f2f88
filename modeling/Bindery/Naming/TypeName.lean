import Bindery.Text.Blank

/-! # Type names for schemas -/

namespace Bindery.Naming

open Text

/-- Where references to component schemas begin. -/
def schemaPrefix : String := "#/components/schemas/"

/-- Where references to component responses begin. -/
def responsePrefix : String := "#/components/responses/"

def withoutPrefix (p cs : List Char) : List Char := (dropPrefix? p cs).getD cs

def withoutSuffix (s cs : List Char) : List Char := (dropSuffix? s cs).getD cs

/-- The name that a reference points to; a text that is no reference is a name itself. -/
def referencedName (p reference : String) : String :=
  String.ofList (withoutPrefix p.toList reference.toList)

def lastSegment (cs : List Char) : List Char := (cs.reverse.takeWhile (· != '.')).reverse

/-- Names that end in `Request` get a longer ending, since the names of request structures have
this one. -/
def requestFree (cs : List Char) : List Char :=
  if (dropSuffix? "Request".toList cs).isSome then cs ++ "Body".toList else cs

def typeNameChars (reference : List Char) : List Char :=
  let cs := lastSegment (withoutPrefix schemaPrefix.toList reference)
  let cs := withoutPrefix "Destiny".toList (withoutPrefix "Destiny2".toList cs)
  let cs := withoutSuffix "Enums".toList (withoutSuffix "Enum".toList cs)
  requestFree cs

/-- The type name of a schema, given its name or a reference to it: the last segment without
its leading `Destiny2` or `Destiny` and its trailing `Enum` or `Enums`. -/
def typeName (reference : String) : String := String.ofList (typeNameChars reference.toList)

end Bindery.Naming
