import Bindery.Generation
import Bindery.Operation

/-! # The operations of a document

Each path has one operation. The types that operations use are marked as wanted. -/

namespace Bindery.Operation

open Document Generation

def jsonMediaType : String := "application/json"

/-- The schema of a body that is sent as JSON. -/
def jsonSchema? (content : TextDict MediaType) : Option Schema :=
  (content.find? jsonMediaType).bind MediaType.schema

/-- A path is asked with GET where it can be. -/
def handler? (item : PathItem) : Option (Method × Handler) :=
  match item.get, item.post with
  | some h, _ => some (.get, h)
  | none, some h => some (.post, h)
  | none, none => none

/-- The path's summary, else the handler's, else its id; dots are dropped. -/
def name? (item : PathItem) (h : Handler) : Option String :=
  let name := (item.summary <|> h.summary <|> h.operationId).map fun s =>
    String.ofList (s.toList.filter (· != '.'))
  name.filter (!·.isEmpty)

/-- The path's parameters that the handler does not declare itself, then the handler's own. -/
def parameters (item : PathItem) (h : Handler) : List Parameter :=
  let overridden (shared : Parameter) := h.parameters.any fun own =>
    own.name == shared.name && own.location == shared.location
  item.parameters.filter (!overridden ·) ++ h.parameters

def location? : String → Option ParamLocation
  | "path" => some .path
  | "query" => some .query
  | _ => none

variable (scope : Scope)

/-- Parameters of the path are always required. -/
def paramOf (operation : String) (p : Parameter) : GenerationM Param := do
  let some location := location? p.location
    | throw (.unsupportedParameterLocation operation p.name p.location)
  let context := operation ++ "." ++ p.name
  let some s := p.schema | unsupported context "parameter without a schema"
  let type ← resolveWanted scope s context
  return {
    name := p.name
    field := Naming.identifier p.name
    location, type
    required := p.required || location == .path
    isArray := type.isList
    description := p.description }

def bodyOf (operation : String) (b : RequestBody) : GenerationM Body := do
  let some s := jsonSchema? b.content
    | unsupported operation "request body without a JSON schema"
  return ⟨← resolveWanted scope s (operation ++ " body"), b.required⟩

/-- The schema of the payload that a successful envelope holds. -/
def payload? (doc : Document) (h : Handler) : Option Schema := do
  let r ← doc.response? (← h.responses.find? "200")
  let s ← jsonSchema? r.content
  let envelope ← match s.reference with
    | some reference => Prod.snd <$> doc.schema? reference
    | none => some s
  envelope.property? "Response"

def ofHandler (path : String) (item : PathItem) (method : Method) (h : Handler) :
    GenerationM Operation := do
  let some name := name? item h | throw (.missingOperationName path)
  let params ← (parameters item h).mapM (paramOf scope name)
  let body ← h.requestBody.mapM (bodyOf scope name)
  let some payload := payload? scope.document h | throw (.missingResponse name)
  let response ← resolveWanted scope payload (name ++ " response")
  return {
    name, method, path, params, body, response
    operationId := h.operationId.getD name
    description := h.description <|> item.description
    deprecated := h.deprecated
    scopes := (h.security.getD []).flatMap Dict.entries }

/-- The operations of paths in their order. Neither an operation's name nor its function's name
may be one of those before it. -/
def ofPaths (before : List Operation) : List (String × PathItem) → GenerationM (List Operation)
  | [] => pure before
  | (path, item) :: rest => do
    let some (method, h) := handler? item | throw (.unsupportedVerb path)
    let op ← ofHandler scope path item method h
    if before.any (·.name == op.name) then throw (.duplicateOperation op.name)
    if before.any (·.functionName == op.functionName) then
      throw (.duplicateOperation op.functionName)
    ofPaths (before ++ [op]) rest

def ofDocument : GenerationM (List Operation) := do
  let operations ← ofPaths scope [] scope.document.paths.entries
  note .debug operationPart "Normalized operations."
  return operations

end Bindery.Operation
