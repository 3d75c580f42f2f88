import Bindery.Declaration
import Bindery.Generation
import Bindery.Naming.Identifier

/-! # The declarations that a module needs

Every wanted name is declared, which can mark further names, until none waits. -/

namespace Bindery.Declaration

open Document Generation Naming Text

/-! ## Enumerations -/

/-- The kind of an enumeration's numbers. -/
def enumNumber? : Option String → Option Scalar
  | none | some "int32" => some .i32
  | some "byte" => some .u8
  | some "int16" => some .i16
  | some "uint32" => some .u32
  | some "int64" => some .i64
  | _ => none

/-- The text of a value's number, which must be a whole one in range. -/
def literalOf (schema : String) (number : Scalar) (v : EnumValue) :
    Except GenerationError String :=
  let refused (detail : String) : Except GenerationError String :=
    .error (.unsupportedSchema (schema ++ "." ++ v.identifier) detail)
  match v.number.literal? with
  | none => refused "enum value is not an integer"
  | some literal =>
    if (readInteger? number.enumRange literal).isSome then .ok literal
    else refused ("enum value " ++ literal ++ " out of range for " ++ number.enumPrimitive)

/-- The named values in order. Of values whose constants would have one name the first stays. -/
def namedValues (schema : String) (number : Scalar) (before : List NamedValue) :
    List EnumValue → GenerationM (List NamedValue)
  | [] => pure before
  | v :: rest => do
    let literal ← liftExcept (literalOf schema number v)
    let constant := constantName v.identifier
    if before.any (·.constant == constant) then
      note .warn declarationPart "Skipping duplicate enum identifier."
      namedValues schema number before rest
    else
      namedValues schema number
        (before ++ [⟨v.identifier, constant, literal, v.description⟩]) rest

def enumeration (name : String) (s : Schema) : GenerationM Shape := do
  let some number := enumNumber? s.format
    | unsupported name ("enum with format " ++ s.format.getD "")
  return .enumeration number (← namedValues name number [] (s.enumValues.getD []))

/-! ## Structs -/

/-- The name with as few underscores behind it as make it differ from those that are taken. -/
def freshName (taken : List String) (name : String) : String :=
  let candidate (n : Nat) := name ++ String.ofList (List.replicate n '_')
  let free := (List.range (taken.length + 1)).find? fun n => !taken.contains (candidate n)
  candidate (free.getD 0)

/-- The field names for a list of names on the wire. -/
def fieldNames (taken : List String) : List String → List String
  | [] => []
  | wire :: rest =>
    let name := freshName taken (identifier wire)
    name :: fieldNames (name :: taken) rest

variable (scope : Scope)

/-- The fields of a schema's properties. The argument of a family's member, where given, becomes
the type variable. -/
def fields (name : String) (s : Schema) (arg : Option TypeExpr) : GenerationM (List Field) :=
  let names := fieldNames [] (s.properties.map Prod.fst)
  (s.properties.zip names).mapM fun ((wireName, property), name') => do
    let t ← resolving (scope.resolve property (name ++ "." ++ wireName))
    let type := match arg with
      | some arg => t.substitute arg .param
      | none => t
    require type
    return { wireName, name := name', type, description := property.description }

/-! ## Declarations -/

/-- The last part of a schema's name, for schemas in the namespace of definition tables. -/
def tableName? (name : String) : Option String :=
  match (splitAt '.' name.toList).reverse with
  | last :: namespaces =>
    if namespaces.contains "Definitions".toList then some (String.ofList last) else none
  | [] => none

def shapeOf (name : String) (s : Schema) : GenerationM Shape := do
  if s.isEnum then enumeration name s
  else if s.dictionaryKey.isSome || s.hasType "array" then
    return .alias (← resolveWanted scope s name)
  else if !s.properties.isEmpty then return .struct false (← fields scope name s none)
  else if s.hasType "object" then return .openMap
  else unsupported name ("cannot declare a type for " ++ quotedOption s.type)

/-- Only the records of structs are kept in tables. -/
def tableOf (name : String) : Shape → Option String
  | .struct _ _ => tableName? name
  | _ => none

def ofSchema (name : String) : GenerationM Declaration := do
  let some s := scope.document.components.schemas.find? name
    | throw (.unresolvedReference name)
  let shape ← shapeOf scope name s
  return {
    ident := typeName name
    schema := name
    description := s.description
    shape
    table := tableOf name shape }

/-- One generic struct for all members of a family, made after the first of them. -/
def ofFamily (family : Family) : GenerationM Declaration := do
  let template :: _ := scope.index.membersOf family.name
    | throw (.unresolvedReference family.name)
  let some s := scope.document.components.schemas.find? template
    | throw (.unresolvedReference template)
  if s.properties.isEmpty then
    unsupported template "generic family member without properties"
  let arg ← resolving (scope.memberParam template)
  let fields ← fields scope template s (some arg)
  note .debug declarationPart "Declared generic family."
  return {
    ident := family.name
    schema := template
    description := s.description
    shape := .struct true fields
    table := none }

def ofIdent (ident : String) : GenerationM Declaration :=
  match Family.ofName? ident with
  | some family => ofFamily scope family
  | none =>
    match scope.index.schemaFor? ident with
    | some name => ofSchema scope name
    | none => throw (.unresolvedReference ident)

/-! ## Closure -/

/-- Declares wanted names until none waits, at most as many as the first argument says. -/
def declareWithin : Nat → GenerationM (List Declaration)
  | 0 => pure []
  | n + 1 => do
    match ← nextWanted? with
    | none => pure []
    | some ident =>
      let d ← ofIdent scope ident
      let ds ← declareWithin n
      return d :: ds

/-- No name is handed out twice, and names that no schema or family has are refused, so this
many steps suffice. -/
def closureBudget : Nat :=
  scope.document.components.schemas.size + Family.all.length + 1

/-- Declares all wanted names, in the order of their schemas. -/
def closure : GenerationM (List Declaration) := do
  let ds ← declareWithin scope (closureBudget scope)
  note .debug declarationPart "Built type closure."
  return ds.mergeSort fun a b => a.schema ≤ b.schema

end Bindery.Declaration
