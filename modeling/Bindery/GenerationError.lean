import Bindery.Json.Decode

/-! # Why no bindings can be made from a document -/

namespace Bindery

inductive GenerationError where
  | parse (cause : Json.DecodeError)
  | unsupportedSchema (context detail : String)
  | duplicateIdentifier (ident first second : String)
  | reservedIdentifier (ident schema : String)
  | unresolvedReference (reference : String)
  | unsupportedVerb (path : String)
  | unsupportedParameterLocation (operation name location : String)
  | missingResponse (operation : String)
  | missingOperationName (path : String)
  | duplicateOperation (name : String)
deriving DecidableEq, Repr

namespace GenerationError

def message : GenerationError → String
  | .parse cause => "failed to parse schema document: " ++ cause.message
  | .unsupportedSchema context detail => "unsupported schema at " ++ context ++ ": " ++ detail
  | .duplicateIdentifier ident first second =>
    "schemas " ++ first ++ " and " ++ second ++ " both normalize to identifier " ++ ident
  | .reservedIdentifier ident schema =>
    "schema " ++ schema ++ " normalizes to " ++ ident ++
      ", which generated code imports from the runtime"
  | .unresolvedReference reference => "unresolved reference " ++ reference
  | .unsupportedVerb path => "path " ++ path ++ " has neither a GET nor a POST operation"
  | .unsupportedParameterLocation operation name location =>
    "parameter " ++ name ++ " of " ++ operation ++ " is in " ++ location ++
      "; only path and query are supported"
  | .missingResponse operation => "operation " ++ operation ++ " has no 200 response payload"
  | .missingOperationName path =>
    "path " ++ path ++ " has no summary or operation id to name it by"
  | .duplicateOperation name =>
    "operation or function name " ++ name ++ " is used more than once"

/-- The name by which programs tell errors apart. -/
def kind : GenerationError → String
  | .parse _ => "Parse"
  | .unsupportedSchema .. => "UnsupportedSchema"
  | .duplicateIdentifier .. => "DuplicateIdentifier"
  | .reservedIdentifier .. => "ReservedIdentifier"
  | .unresolvedReference _ => "UnresolvedReference"
  | .unsupportedVerb _ => "UnsupportedVerb"
  | .unsupportedParameterLocation .. => "UnsupportedParameterLocation"
  | .missingResponse _ => "MissingResponse"
  | .missingOperationName _ => "MissingOperationName"
  | .duplicateOperation _ => "DuplicateOperation"

end GenerationError
end Bindery
