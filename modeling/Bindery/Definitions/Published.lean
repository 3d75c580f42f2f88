import Bindery.Definitions.Script

/-! # Content held as a value -/

namespace Bindery.Definitions

/-- What a source answers, and what it has been asked for. -/
structure Published where
  manifest : Manifest := {}
  /-- Given in place of the manifest. -/
  manifestFailure : Option DefinitionError := none
  /-- The texts of tables by path, or what is given in their place. -/
  tables : List (String × Except DefinitionError String) := []
  /-- How often the manifest has been asked for. -/
  manifests : Nat := 0
  /-- The paths that have been asked for. -/
  fetched : List String := []
deriving Repr

namespace Published

def currentManifest (p : Published) : Except DefinitionError Manifest :=
  match p.manifestFailure with
  | some e => .error e
  | none => .ok p.manifest

/-- The records of a path; a path without a table is not found. -/
def table (p : Published) (path : String) : Except DefinitionError Records :=
  match p.tables.lookup path with
  | some (.ok text) => (Records.decode.runText text).mapError .decode
  | some (.error e) => .error e
  | none => .error (.call (.transport (.status 404 [])))

def source (label : String) : Source (StateM Published) where
  label := label
  manifest := fun p => (p.currentManifest, { p with manifests := p.manifests + 1 })
  table path := fun p => (p.table path, { p with fetched := p.fetched ++ [path] })

end Published
end Bindery.Definitions
