import Bindery.Document
import Bindery.Emission.Header
import Bindery.Family
import Bindery.GenerationError

/-! # The type names of a document

Every schema gets a type name. The names outside the generic families must differ from one
another, from the names that generated code imports, and from the families that have members. -/

namespace Bindery

open Naming

structure NameIndex where
  /-- From type name to schema name, for schemas outside the families. -/
  types : TextDict String := .empty
  /-- From family name to the schema names of its members, in increasing order. -/
  members : TextDict (List String) := .empty
deriving Repr

namespace NameIndex

/-- The schema that declares a type name. -/
def schemaFor? (ix : NameIndex) (ident : String) : Option String := ix.types.find? ident

def membersOf (ix : NameIndex) (family : String) : List String :=
  (ix.members.find? family).getD []

def add (ix : NameIndex) (name : String) : Except GenerationError NameIndex :=
  let ident := typeName name
  match Family.ofMember? ident with
  | some (f, _) =>
    .ok { ix with members := ix.members.insert f.name (ix.membersOf f.name ++ [name]) }
  | none =>
    if Emission.importedNames.contains ident then .error (.reservedIdentifier ident name)
    else match ix.schemaFor? ident with
      | some first => .error (.duplicateIdentifier ident first name)
      | none => .ok { ix with types := ix.types.insert ident name }

/-- The first family with members whose name is taken, with the schema that takes it and the
first member. -/
def takenFamily? (ix : NameIndex) : Option (String × String × String) :=
  ix.members.entries.findSome? fun (family, names) =>
    match ix.schemaFor? family, names with
    | some existing, first :: _ => some (family, existing, first)
    | _, _ => none

/-- Indexes the schemas in the order of their names. -/
def ofDocument (doc : Document) : Except GenerationError NameIndex := do
  let ix ← doc.components.schemas.keys.foldlM add {}
  match ix.takenFamily? with
  | some (family, existing, first) => throw (.duplicateIdentifier family existing first)
  | none => return ix

end NameIndex
end Bindery
