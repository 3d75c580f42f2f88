import Bindery.Bindings
import Bindery.Config.Read
import Bindery.Definitions.Cache
import Bindery.Definitions.WebSource
import Bindery.Files
import Bindery.Files.Path
import Bindery.Json.Pretty

/-! # Commands

A command either does its work or fails with a text for its user. -/

namespace Bindery

open Json Http Text

/-- What commands need from their surroundings. -/
structure Surroundings (m : Type → Type) where
  files : Files m
  /-- The variables of the environment that override a configuration. -/
  overrides : m Overrides
  network : Network m
  print : String → m Unit
  complain : String → m Unit

namespace Command

/-- A command's work. -/
abbrev Work (m : Type → Type) := ExceptT String m

variable {m : Type → Type} [Monad m] (s : Surroundings m)

/-- Does something that can fail, with a text for its user. -/
def attempt {ε α : Type} (describe : ε → String) (step : m (Except ε α)) : Work m α :=
  ExceptT.mk ((·.mapError describe) <$> step)

def report (e : Log.Event) : Work m Unit := ExceptT.lift (s.network.report e)

/-- Prints a text and ends the line. -/
def printLine (text : String) : Work m Unit := ExceptT.lift (s.print (text ++ "\n"))

/-! ## Bindings -/

/-- Writes a file into a directory that is made if need be. -/
def save (path text : String) : Work m Unit := do
  match (Files.parent? path).filter (· ≠ "") with
  | some dir =>
    attempt (fun f => "Failed to create " ++ dir ++ ": " ++ FileFault.message f)
      (s.files.makeDirectories dir)
  | none => pure ()
  attempt (fun f => "Failed to write " ++ path ++ ": " ++ FileFault.message f)
    (s.files.write path (Utf8.encode text))

/-- Generates bindings and writes them into a file, or prints them. -/
def generate (spec : String) (out : Option String) : Work m Unit := do
  let json ← attempt (fun f => "Failed to read " ++ spec ++ ": " ++ FileFault.message f)
    (s.files.readText spec)
  let (result, journal) := Bindings.generateWithLog json
  journal.forM (report s)
  let code ← attempt
    (fun e => "Failed to generate bindings from " ++ spec ++ ": " ++ GenerationError.message e)
    (pure result)
  match out with
  | some path =>
    save s path code
    report s ⟨.info, "apibind::commands::generate", "Wrote generated bindings."⟩
  | none => ExceptT.lift (s.print code)

/-! ## Definition tables -/

/-- Reads a configuration file, or takes the defaults where there is none. -/
def readConfig : Option String → Work m Config
  | none => pure {}
  | some path => do
    report s ⟨.debug, "apibind::config", "Reading configuration file."⟩
    attempt ConfigError.message (Config.read s.files path)

def loadConfig (path : Option String) : Work m Config := do
  let config ← readConfig s path
  let overrides ← ExceptT.lift s.overrides
  attempt ConfigError.message (pure (config.checked overrides))

/-- The API and the tables that a configuration describes. -/
def openSource (c : Config) : Work m (Definitions.Source m) := do
  match checkAgent c.api with
  | .ok () => pure ()
  | .error e =>
    report s ⟨.warn, clientPart, "Failed to build HTTP client."⟩
    throw e.message
  let api : Api m := { client := Client.standard s.network c.api }
  return Definitions.webSource s.network api c.api c.tables

/-- Carries out one user's script on an empty shelf. -/
def consult {α : Type} (source : Definitions.Source m) (script : Definitions.Attempt α) :
    m (Except DefinitionError α) :=
  Prod.fst <$> (script.run.run source).run {}

/-- Prints one record. -/
def definition (table : String) (hash : UInt32) (configPath : Option String) : Work m Unit := do
  let config ← loadConfig s configPath
  let source ← openSource s config
  report s ⟨.debug, "apibind::commands::definition", "Resolving definition."⟩
  let cache : Definitions.Cache := ⟨config.tables.locale⟩
  let record ← attempt
    (fun e => "Failed to resolve " ++ table ++ " " ++ decimal hash.toNat ++ ": " ++
      DefinitionError.message e)
    (consult source (cache.resolve table hash))
  let value ← attempt (fun e => "Invalid record JSON: " ++ DecodeError.message e)
    (pure (record.decodeWith Value.decode))
  printLine s value.pretty

/-- Prints the version of the content and the names of its tables. -/
def tables (configPath : Option String) : Work m Unit := do
  let config ← loadConfig s configPath
  let source ← openSource s config
  let manifest ← attempt DefinitionError.message (consult source Definitions.manifest)
  printLine s ("version: " ++ manifest.version)
  (manifest.tables config.tables.locale).forM (printLine s)

/-! ## Outcomes -/

/-- Shows the text of a failure, and gives the exit code. -/
def conclude (work : Work m Unit) : m UInt8 := do
  match ← work.run with
  | .ok () => return 0
  | .error text => do
    s.complain (text ++ "\n")
    return 1

end Command
end Bindery
