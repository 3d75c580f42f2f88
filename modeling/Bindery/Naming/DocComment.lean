import Bindery.Text.Blank

/-! # Documentation lines -/

namespace Bindery.Naming

open Text

/-- One line of a comment; nothing follows the slashes of an empty one. -/
def docLine (indent line : List Char) : List Char :=
  match trimEnd line with
  | [] => indent ++ "///\n".toList
  | cs => indent ++ ("/// ".toList ++ (cs ++ ['\n']))

/-- The lines of a description as comment lines; none for a blank description. -/
def docComment (text : Option String) (indent : String) : String :=
  match text with
  | none => ""
  | some s => String.ofList ((lines (trim s.toList)).flatMap (docLine indent.toList))

end Bindery.Naming
