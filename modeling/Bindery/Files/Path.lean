import Bindery.Text.Blank

/-! # Paths of files -/

namespace Bindery.Files

open Text

/-- The names on a path; repeated slashes and the name of the directory itself say nothing. -/
def components (path : String) : List String :=
  ((splitAt '/' path.toList).map String.ofList).filter fun name => name ≠ "" && name ≠ "."

/-- Such a path can only lead to a directory. -/
def endsInSlash (path : String) : Bool := path.toList.getLast? == some '/'

/-- Drops what says nothing from the end of a path, which is given in reverse. -/
def trimReversed : List Char → List Char
  | ['/'] => ['/']
  | '/' :: cs => trimReversed cs
  | '.' :: '/' :: cs => trimReversed ('/' :: cs)
  | cs => cs

/-- The directory that the last name of a path stands in; none for a single name. -/
def parent? (path : String) : Option String :=
  match (trimReversed path.toList.reverse).dropWhile (· ≠ '/') with
  | [] => none
  | cs => some (String.ofList (trimReversed cs).reverse)

end Bindery.Files
