import Bindery.Api
import Bindery.Definitions.Script

/-! # The cache of definition tables

Tables are loaded on their first use, and again when the manifest has another version than the
one they were loaded at. -/

namespace Bindery.Definitions

open Json Attempt

namespace Shelf

def version? (s : Shelf) (table : String) : Option String := (s.tables.find? table).map Loaded.version

def record? (s : Shelf) (table : String) (hash : UInt32) : Option RawText :=
  (s.tables.find? table).bind (·.records.find? hash)

def install (s : Shelf) (m : Manifest) : Shelf := { s with manifest := some m }

def load (s : Shelf) (table version : String) (records : Records) : Shelf :=
  { s with tables := s.tables.insert table ⟨version, records⟩ }

end Shelf

/-- Asks for the manifest and puts it in force; one without a version is none. Done only inside
the manifest's gate. -/
def refresh : Attempt Manifest := do
  let m ← asking
  if m.version.isEmpty then throw .missingManifest
  changing (·.install m)
  return m

/-- The manifest in force, asked for if there is none. -/
def manifest : Attempt Manifest := do
  match ← looking Shelf.manifest with
  | some m => return m
  | none =>
    inside .manifest do
      match ← looking Shelf.manifest with
      | some m => return m
      | none => refresh

/-- Asks for the manifest whether or not there is one. -/
def checkUpdates : Attempt Manifest := inside .manifest refresh

/-- The version that a table is held at. -/
def loadedVersion (table : String) : Attempt (Option String) := looking (·.version? table)

/-- The tables of one locale. -/
structure Cache where
  locale : String

namespace Cache

variable (c : Cache)

/-- Sees to it that a table is held at the version of the manifest in force. -/
def ensureTable (table : String) : Attempt Unit := do
  let m ← manifest
  if (m.tablePath? c.locale table).isNone then throw (.unknownTable table)
  if (← loadedVersion table) = some m.version then return
  inside (.table table) do
    let m ← manifest
    if (← loadedVersion table) = some m.version then return
    match m.tablePath? c.locale table with
    | none => throw (.unknownTable table)
    | some path =>
      let records ← askingTable path
      changing (·.load table m.version records)

/-- The record of a hash. Where it is missing the manifest is asked for once, and then it is
looked for once more. -/
def resolve (table : String) (hash : UInt32) : Attempt RawText := do
  c.ensureTable table
  match ← looking (·.record? table hash) with
  | some r => return r
  | none =>
    let _ ← checkUpdates
    c.ensureTable table
    match ← looking (·.record? table hash) with
    | some r => return r
    | none => throw (.notFound table hash)

/-- The decoded record of a hash. -/
def get (ρ : Type) [Definition ρ] (hash : UInt32) : Attempt ρ :=
  ExceptT.mk (decodeRecord <$> (c.resolve (Definition.table ρ) hash).run)

/-- The cache as something that looks up records. -/
def records {m : Type → Type} [Monad m] (source : Source m) : RecordSource (StateT Shelf m) where
  record table hash := (c.resolve table hash).run.run source

def debug (sourceLabel : String) : String :=
  "DefinitionCache \x7b source: " ++ sourceLabel ++ ", locale: " ++ Text.quoted c.locale ++
    ", .. \x7d"

end Cache
end Bindery.Definitions
