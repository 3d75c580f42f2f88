import Bindery.Document.Schema

/-! # API documents

The part of an OpenAPI 3.0 document from which bindings are made: paths with their handlers,
and the named schemas and responses that they refer to. -/

namespace Bindery

open Json

namespace Document

structure Parameter where
  name : String
  location : String
  description : Option String := none
  required : Bool := false
  schema : Option Schema := none
deriving Repr

/-- A body in one media type. -/
structure MediaType where
  schema : Option Schema := none
deriving Repr

structure RequestBody where
  required : Bool := false
  content : TextDict MediaType := .empty
deriving Repr

/-- A response, or a reference to a named one. -/
structure Response where
  reference : Option String := none
  description : Option String := none
  content : TextDict MediaType := .empty
deriving Repr, Inhabited

/-- What a path does for one verb. -/
structure Handler where
  operationId : Option String := none
  summary : Option String := none
  description : Option String := none
  deprecated : Bool := false
  parameters : List Parameter := []
  requestBody : Option RequestBody := none
  responses : TextDict Response := .empty
  /-- Alternative sets of requirements, each from scheme to scopes. -/
  security : Option (List (TextDict (List String))) := none
deriving Repr

structure PathItem where
  summary : Option String := none
  description : Option String := none
  get : Option Handler := none
  post : Option Handler := none
  /-- Shared by all handlers of the path. -/
  parameters : List Parameter := []
deriving Repr

structure Components where
  schemas : TextDict Schema := .empty
  responses : TextDict Response := .empty
deriving Repr

end Document

structure Document where
  paths : TextDict Document.PathItem := .empty
  components : Document.Components := {}
deriving Repr

namespace Document

/-- The schema that a reference or a name points to, with its name. -/
def schema? (doc : Document) (reference : String) : Option (String × Schema) :=
  let name := Naming.referencedName Naming.schemaPrefix reference
  (doc.components.schemas.find? name).map (name, ·)

/-- The response itself, or the named one that it refers to. -/
def response? (doc : Document) (r : Response) : Option Response :=
  match r.reference with
  | none => some r
  | some reference =>
    doc.components.responses.find? (Naming.referencedName Naming.responsePrefix reference)

/-! ## Decoding -/

def Parameter.decode : Decoder Parameter :=
  .struct "Parameter" { name := "", location := "" }
    [.required "name" .string fun x p => { p with name := x },
     .required "in" .string fun x p => { p with location := x },
     .optional "description" .string fun x p => { p with description := x },
     .defaulted "required" .bool fun x p => { p with required := x },
     .optional "schema" Schema.decode fun x p => { p with schema := x }]

def MediaType.decode : Decoder MediaType :=
  .struct "MediaType" {} [.optional "schema" Schema.decode fun x m => { m with schema := x }]

def RequestBody.decode : Decoder RequestBody :=
  .struct "RequestBody" {}
    [.defaulted "required" .bool fun x b => { b with required := x },
     .defaulted "content" (.textDict MediaType.decode) fun x b => { b with content := x }]

def Response.decode : Decoder Response :=
  .struct "Response" {}
    [.optional "$ref" .string fun x r => { r with reference := x },
     .optional "description" .string fun x r => { r with description := x },
     .defaulted "content" (.textDict MediaType.decode) fun x r => { r with content := x }]

def Handler.decode : Decoder Handler :=
  .struct "Operation" {}
    [.optional "operationId" .string fun x h => { h with operationId := x },
     .optional "summary" .string fun x h => { h with summary := x },
     .optional "description" .string fun x h => { h with description := x },
     .defaulted "deprecated" .bool fun x h => { h with deprecated := x },
     .defaulted "parameters" (.list Parameter.decode) fun x h => { h with parameters := x },
     .optional "requestBody" RequestBody.decode fun x h => { h with requestBody := x },
     .defaulted "responses" (.textDict Response.decode) fun x h => { h with responses := x },
     .optional "security" (.list (.textDict (.list .string))) fun x h => { h with security := x }]

def PathItem.decode : Decoder PathItem :=
  .struct "PathItem" {}
    [.optional "summary" .string fun x p => { p with summary := x },
     .optional "description" .string fun x p => { p with description := x },
     .optional "get" Handler.decode fun x p => { p with get := x },
     .optional "post" Handler.decode fun x p => { p with post := x },
     .defaulted "parameters" (.list Parameter.decode) fun x p => { p with parameters := x }]

def Components.decode : Decoder Components :=
  .struct "Components" {}
    [.defaulted "schemas" (.textDict Schema.decode) fun x c => { c with schemas := x },
     .defaulted "responses" (.textDict Response.decode) fun x c => { c with responses := x }]

def decode : Decoder Document :=
  .struct "OpenApiSpec" {}
    [.defaulted "paths" (.textDict PathItem.decode) fun x d => { d with paths := x },
     .defaulted "components" Components.decode fun x d => { d with components := x }]

def ofJson (text : String) : Except DecodeError Document := decode.runText text

end Document
end Bindery
