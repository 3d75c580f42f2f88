import Bindery.Naming.Snake

/-! # Identifiers of the generated Rust code -/

namespace Bindery.Naming

/-- Words that are names only in their raw form. -/
def reservedWords : List String :=
  ["as", "async", "await", "break", "const", "continue", "dyn", "else", "enum", "extern",
   "false", "fn", "for", "gen", "if", "impl", "in", "let", "loop", "match", "mod", "move",
   "mut", "pub", "ref", "return", "static", "struct", "trait", "true", "type", "unsafe",
   "use", "where", "while", "abstract", "become", "box", "do", "final", "macro", "override",
   "priv", "try", "typeof", "unsized", "virtual", "yield"]

/-- Words that have no raw form either. -/
def pathWords : List String := ["self", "Self", "super", "crate"]

/-- Makes a name out of a snake-case text: a digit does not lead it, and a keyword is written
in its raw form or, having none, gets an underscore. -/
def escapeName (name : String) : String :=
  let name := if startsWithDigit name.toList then "_" ++ name else name
  if pathWords.contains name then name ++ "_"
  else if reservedWords.contains name then "r#" ++ name
  else name

/-- The field or function name for a name on the wire. -/
def identifier (wireName : String) : String :=
  let name := snakeCase wireName
  if name.isEmpty then "_empty" else escapeName name

end Bindery.Naming
