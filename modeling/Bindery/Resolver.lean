import Bindery.NameIndex
import Bindery.TypeExpr

/-! # From schemas to types

A reference to a member of a generic family becomes the family applied to the member's type
argument. Finding the argument can lead to other members; the resolver remembers the instances
that it has found, and which members it is at, so that a member whose argument leads back to
itself is refused. -/

namespace Bindery

open Naming Document Text

/-- What types are resolved against. -/
structure Scope where
  document : Document
  index : NameIndex

structure Resolver where
  /-- The finished instances, by the name of the member's schema. -/
  instances : TextDict TypeExpr := .empty
  /-- The members whose arguments are being looked for. -/
  inProgress : List String := []
deriving Repr

/-- A step of the resolver; its state outlives a failure. -/
abbrev ResolveM := ExceptT GenerationError (StateM Resolver)

def unsupported {m : Type → Type} [Monad m] {α : Type} (context detail : String) :
    ExceptT GenerationError m α :=
  throw (.unsupportedSchema context detail)

/-- Enumerations whose numbers never occur as dictionary keys on the wire; plain text does. -/
def textKeyedEnums : List String :=
  ["Destiny.DestinyGender", "BungieCredentialType", "BungieMembershipType"]

/-- The type of a schema that is neither a reference nor built from other schemas. -/
def scalarType (s : Schema) (context : String) : Except GenerationError TypeExpr :=
  let number := s.hasType "integer" || s.hasType "number"
  match s.type, s.format with
  | some "string", none => .ok (.scalar .string)
  | some "string", some "date-time" => .ok .timestamp
  | some "boolean", _ => .ok (.scalar .bool)
  | type, some format =>
    match (if number then numberFormats.lookup format else none) with
    | some k => .ok (.scalar k)
    | none => refused type (some format)
  | type, none =>
    if s.hasType "integer" && s.isEnum then .ok (.scalar .i32) else refused type none
where
  numberFormats : List (String × Scalar) :=
    [("byte", .u8), ("int16", .i16), ("int32", .i32), ("uint32", .u32), ("int64", .i64),
     ("float", .f32), ("double", .f64)]
  refused (type format : Option String) : Except GenerationError TypeExpr :=
    .error (.unsupportedSchema context
      ("type " ++ quotedOption type ++ " with format " ++ quotedOption format))

namespace Scope

variable (scope : Scope)

/-- The type name of a schema that must be there. -/
def declaredIdent (reference : String) : Except GenerationError String :=
  match scope.document.schema? reference with
  | some (name, _) => .ok (typeName name)
  | none => .error (.unresolvedReference reference)

/-- The type of a dictionary's keys that belong to an enumeration. -/
def enumKey (reference : String) : Except GenerationError TypeExpr :=
  if textKeyedEnums.contains (referencedName schemaPrefix reference) then .ok (.scalar .string)
  else .named <$> scope.declaredIdent reference

/-- The type of a schema, given the types of references. A definition that is mapped from
outside counts where the schema maps none itself: an array maps its elements, a dictionary its
keys. -/
def typeWith (follow : String → ResolveM TypeExpr) (s : Schema) (outer : Option String)
    (context : String) : ResolveM TypeExpr := do
  match s.reference with
  | some reference => follow reference
  | none =>
    let mapped := s.mappedDefinition <|> outer
    let t ← match _hkey : s.dictionaryKey with
      | some key =>
        match _hadd : s.additional with
        | some (.schema value) =>
          let keyType ← match key.enumReference with
            | some reference => liftExcept (scope.enumKey reference)
            | none => typeWith follow key mapped (context ++ " key")
          let valueType ← typeWith follow value none (context ++ " value")
          pure (.map keyType valueType)
        | _ => unsupported context "dictionary without a value schema"
      | none =>
        if s.hasType "array" then
          match _hitems : s.items with
          | some items => .list <$> typeWith follow items mapped context
          | none => unsupported context "array without items"
        else match mapped with
          | some target => .hashRef <$> liftExcept (scope.declaredIdent target)
          | none =>
            match s.singleAllOf? with
            | some reference => follow reference
            | none =>
              if s.hasType "object" then
                if s.properties.isEmpty then pure .json
                else unsupported context "inline object with properties"
              else match s.enumReference with
                | some reference => do
                  let ident ← liftExcept (scope.declaredIdent reference)
                  pure (if s.enumIsBitmask then .bitmask ident else .named ident)
                | none => liftExcept (scalarType s context)
    return if s.nullable then .nullable t else t
termination_by sizeOf s
decreasing_by
  · exact Schema.sizeOf_additional_lt _hadd
  · exact Schema.sizeOf_dictionaryKey_lt _hkey
  · exact Schema.sizeOf_items_lt _hitems

/-- The type that the rest of a member's name stands for. -/
def suffixParam (suffix : String) : Except GenerationError TypeExpr :=
  if suffix = "int32" then .ok (.scalar .i32)
  else if suffix = "int64" then .ok (.scalar .i64)
  else if suffix = "uint32" then .ok (.scalar .u32)
  else
    let ident := typeName suffix
    if (scope.index.schemaFor? ident).isSome then .ok (.named ident)
    else .error (.unresolvedReference suffix)

/-- The type argument of a family's member, given the types of references. -/
def memberParamWith (follow : String → ResolveM TypeExpr) (name : String) (s : Schema) :
    ResolveM TypeExpr :=
  match Family.ofMember? (typeName name) with
  | none => unsupported name "not a generic family member"
  | some (family, suffix) =>
    match family.source with
    | .suffix => liftExcept (scope.suffixParam suffix)
    | .resultsElement =>
      match (s.property? "results").bind Schema.items with
      | some items => scope.typeWith follow items none (name ++ ".results")
      | none => unsupported name "search result without a results array"
    | .dataProperty =>
      match s.property? "data" with
      | some data => scope.typeWith follow data none (name ++ ".data")
      | none => unsupported name "component response without data"

/-- Marks a member as being looked at while a step runs, whether it succeeds or fails. -/
def within (name : String) (step : ResolveM TypeExpr) : ResolveM TypeExpr := ExceptT.mk do
  modify fun r => { r with inProgress := name :: r.inProgress }
  let result ← step.run
  modify fun r => { r with inProgress := r.inProgress.erase name }
  return result

/-- The type of a reference, given the arguments of family members that are not being looked
at. -/
def followWith (param : String → Schema → ResolveM TypeExpr) (reference : String) :
    ResolveM TypeExpr := do
  match scope.document.schema? reference with
  | none => throw (.unresolvedReference reference)
  | some (name, s) =>
    let ident := typeName name
    match Family.ofMember? ident with
    | none => return .named ident
    | some (family, _) =>
      let r ← get
      match r.instances.find? name with
      | some t => return t
      | none =>
        if r.inProgress.contains name then
          unsupported name "generic instantiation refers to itself"
        else
          let arg ← within name (param name s)
          let t := .generic family.name arg
          modify fun r => { r with instances := r.instances.insert name t }
          return t

/-- Follows a reference through at most as many members as the first argument says. -/
def followWithin : Nat → String → ResolveM TypeExpr
  | 0 => scope.followWith fun name _ => unsupported name "generic instantiation refers to itself"
  | n + 1 => scope.followWith (scope.memberParamWith (followWithin n))

/-- Members are entered once each on the way, so their number bounds the way. -/
def budget : Nat := scope.document.components.schemas.size

/-- The type of a reference: a declared name, or a family applied to the member's argument. -/
def resolveRef (reference : String) : ResolveM TypeExpr :=
  scope.followWithin scope.budget reference

def resolve (s : Schema) (context : String) : ResolveM TypeExpr :=
  scope.typeWith scope.resolveRef s none context

/-- The type argument of the family member that a schema is. -/
def memberParam (name : String) : ResolveM TypeExpr :=
  match scope.document.schema? name with
  | none => throw (.unresolvedReference name)
  | some (name, s) => scope.memberParamWith scope.resolveRef name s

end Scope
end Bindery
