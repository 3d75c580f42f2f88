import Bindery.Naming.Identifier
import Bindery.TypeExpr

/-! # Operations of the API -/

namespace Bindery

inductive Method where
  | get
  | post
deriving DecidableEq, Repr

/-- The word on the request line. -/
def Method.word : Method → String
  | .get => "GET"
  | .post => "POST"

inductive ParamLocation where
  | path
  | query
deriving DecidableEq, Repr

structure Param where
  name : String
  /-- The name in the request struct. -/
  field : String
  location : ParamLocation
  type : TypeExpr
  required : Bool
  /-- Travels as one text with commas between the elements. -/
  isArray : Bool
  description : Option String
deriving DecidableEq, Repr

structure Body where
  type : TypeExpr
  required : Bool
deriving DecidableEq, Repr

structure Operation where
  name : String
  operationId : String
  method : Method
  path : String
  description : Option String
  deprecated : Bool
  /-- Security schemes with the scopes that they ask for. -/
  scopes : List (String × List String)
  params : List Param
  body : Option Body
  /-- The payload of a successful response. -/
  response : TypeExpr
deriving DecidableEq, Repr

namespace Operation

def requestName (op : Operation) : String := op.name ++ "Request"

def functionName (op : Operation) : String := Naming.identifier (Naming.snakeCase op.name)

end Operation
end Bindery
