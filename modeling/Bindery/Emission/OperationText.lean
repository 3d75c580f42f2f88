import Bindery.Emission.TypeText
import Bindery.Naming.DocComment
import Bindery.Operation
import Bindery.Text.Quoted

/-! # Operations as source text

An operation becomes a struct of its parameters and a function that sends the request. -/

namespace Bindery

open Naming Text

/-- The name of the constructor that starts a request. -/
def Method.constructor : Method → String
  | .get => "get"
  | .post => "post"

/-- The call that puts a parameter into the request. -/
def ParamLocation.setter : ParamLocation → String
  | .path => "path_param"
  | .query => "query_param"

namespace Param

/-- An optional list is a list, empty where the parameter is absent. -/
def fieldType (p : Param) : String :=
  if p.required || p.isArray then p.type.text else "Option<" ++ p.type.text ++ ">"

/-- The value that goes into the request. -/
def value (p : Param) : String :=
  let field := "&req." ++ p.field
  if p.isArray then "join_array(" ++ field ++ ")" else field

def fieldText (p : Param) : String :=
  docComment p.description "    " ++ "    pub " ++ p.field ++ ": " ++ p.fieldType ++ ",\n"

/-- A call in the chain that builds the request, for parameters that are always sent. -/
def call? (p : Param) : Option String :=
  if p.required then
    some ("\n        ." ++ p.location.setter ++ "(" ++ quoted p.name ++ ", " ++ p.value ++ ")")
  else none

/-- A statement that sends a parameter only if it has a value. -/
def statement? (p : Param) : Option String :=
  if p.required then none
  else if p.isArray then
    some ("    if !req." ++ p.field ++ ".is_empty() \x7b\n" ++
      "        request = request." ++ p.location.setter ++ "(" ++ quoted p.name ++ ", " ++
      p.value ++ ");\n    \x7d\n")
  else
    some ("    if let Some(value) = &req." ++ p.field ++ " \x7b\n" ++
      "        request = request." ++ p.location.setter ++ "(" ++ quoted p.name ++
      ", value);\n    \x7d\n")

end Param

namespace Body

def fieldText (b : Body) (field : String) : String :=
  let t := if b.required then b.type.text else "Option<" ++ b.type.text ++ ">"
  "    pub " ++ field ++ ": " ++ t ++ ",\n"

def statement (b : Body) (field : String) : String :=
  if b.required then "    request = request.json_body(&req." ++ field ++ ")?;\n"
  else
    "    if let Some(body) = &req." ++ field ++ " \x7b\n" ++
      "        request = request.json_body(body)?;\n    \x7d\n"

end Body

namespace Operation

/-- A parameter called `body` takes the plain name from the body. -/
def bodyField (op : Operation) : String :=
  if op.params.any fun p => p.field == "body" then "request_body" else "body"

def requestText (op : Operation) : String :=
  "/// Parameters of [`" ++ op.functionName ++ "`].\n" ++
    "#[derive(Debug, Clone, Default)]\n" ++
    "pub struct " ++ op.requestName ++ " \x7b\n" ++
    String.join (op.params.map Param.fieldText) ++
    (op.body.map fun b => b.fieldText op.bodyField).getD "" ++
    "\x7d\n"

def scopeText : String × List String → String
  | (scheme, []) => "/// Scope: " ++ scheme ++ "\n"
  | (scheme, scopes) => "/// Scope: " ++ scheme ++ ": " ++ ", ".intercalate scopes ++ "\n"

/-- The comments and attributes above the function. -/
def headText (op : Operation) : String :=
  docComment op.description "" ++
    (if op.description.isSome then "///\n" else "") ++
    "/// URL: `" ++ op.path ++ "`\n" ++
    "/// Operation: `" ++ op.operationId ++ "` (" ++ op.method.word ++ ")\n" ++
    String.join (op.scopes.map scopeText) ++
    (if op.deprecated then "#[deprecated]\n" else "")

/-- What happens to the request between its chain and its sending. -/
def statements (op : Operation) : List String :=
  op.params.filterMap Param.statement? ++
    (op.body.map fun b => b.statement op.bodyField).toList

def functionText (op : Operation) : String :=
  let binding := if op.statements.isEmpty then "let request" else "let mut request"
  "pub async fn " ++ op.functionName ++ "(api: &Api, req: &" ++ op.requestName ++
    ") -> Result<Envelope<" ++ op.response.text ++ ">, ClientError> \x7b\n" ++
    "    " ++ binding ++ " = ClientRequest::" ++ op.method.constructor ++
    "(" ++ quoted op.operationId ++ ", " ++ quoted op.path ++ ")" ++
    String.join (op.params.filterMap Param.call?) ++ ";\n" ++
    String.join op.statements ++
    "    api.call(request).await\n\x7d\n"

def text (op : Operation) : String :=
  op.requestText ++ "\n" ++ op.headText ++ op.functionText

end Operation
end Bindery
