import Bindery.Http.Url
import Bindery.Http.Header
import Bindery.Wire

/-! # Requests -/

namespace Bindery.Http

open Text Json

/-- One call of the API before it has a URL. -/
structure Request where
  /-- The name of the operation. -/
  operation : String
  method : String
  /-- A path in which names between braces stand for parameters. -/
  path : String
  pathParams : TextDict String := .empty
  /-- In the order of the calls that added them. -/
  query : List (String × String) := []
  headers : TextDict String := .empty
  body : Option (List UInt8) := none
  /-- Takes precedence over the base URL that the client has. -/
  baseUrl : Option String := none
  timeoutMillis : Option Nat := none
deriving Repr

namespace Request

def get (operation path : String) : Request := { operation, method := "GET", path }

def post (operation path : String) : Request := { operation, method := "POST", path }

def pathParam {α : Type} [Shown α] (r : Request) (name : String) (value : α) : Request :=
  { r with pathParams := r.pathParams.insert name (shown value) }

def queryParam {α : Type} [Shown α] (r : Request) (name : String) (value : α) : Request :=
  { r with query := r.query ++ [(name, shown value)] }

def header (r : Request) (name value : String) : Request :=
  { r with headers := r.headers.insert name value }

def timeout (r : Request) (millis : Nat) : Request := { r with timeoutMillis := some millis }

def jsonBody {α : Type} [Wire α] (r : Request) (a : α) : Request :=
  { r with body := some (Wire.encode a).bytes }

/-- A piece of the template, or the parameter that it names if there is one. -/
def bind (params : TextDict String) (piece : List Char) : String :=
  let name := (dropPrefix? ['\x7b'] piece).bind (dropSuffix? ['\x7d'])
  match name.bind fun n => params.find? (String.ofList n) with
  | some value => value
  | none => String.ofList piece

/-- The pieces of the path between slashes, those at its beginning left out. -/
def pieces (r : Request) : List String :=
  (splitAt '/' (r.path.toList.dropWhile (· == '/'))).map (bind r.pathParams)

/-- The pairs of the query by name; pairs of one name keep their order. -/
def sortedQuery (r : Request) : List (String × String) :=
  r.query.mergeSort fun a b => a.1 ≤ b.1

/-- The URL of the request under a base. -/
def url (r : Request) (base : String) : Except UrlFault Url := do
  let u ← (← Url.parse base).extend r.pieces
  return u.appendPairs r.sortedQuery

end Request
end Bindery.Http
