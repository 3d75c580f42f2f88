import Bindery.Text.Blank
import Bindery.Text.Integer

/-! # The command line

Words are read from left to right. The first fault decides, and a wish for help ends the
reading. -/

namespace Bindery.Command

open Text

/-- What the command line asks for. -/
inductive Invocation where
  | help
  | version
  | generate (spec : String) (out : Option String)
  | definition (table : String) (hash : UInt32) (config : Option String)
  | tables (config : Option String)
deriving DecidableEq, Repr

inductive UsageError where
  | unknownCommand (word : String)
  | unexpected (word : String)
  | missingValue (option : String)
  | repeated (option : String)
  | invalidValue (option value : String)
  | missingOption (option : String)
deriving DecidableEq, Repr

def UsageError.message : UsageError → String
  | .unknownCommand word => "unrecognized subcommand '" ++ word ++ "'"
  | .unexpected word => "unexpected argument '" ++ word ++ "' found"
  | .missingValue option => "a value is required for '--" ++ option ++ "' but none was supplied"
  | .repeated option => "the argument '--" ++ option ++ "' cannot be used multiple times"
  | .invalidValue option value => "invalid value '" ++ value ++ "' for '--" ++ option ++ "'"
  | .missingOption option => "the argument '--" ++ option ++ "' was not provided"

/-! ## Options -/

/-- What the value of an option must be. -/
inductive ValueKind where
  | path
  | text
  | hash
deriving DecidableEq, Repr

/-- A number may have a sign as long as it fits 32 bits without one. -/
def hashOf? (value : String) : Option UInt32 :=
  match readInteger? (.signed 64) value with
  | some (.ofNat n) => if n < Nat.pow 2 32 then some (UInt32.ofNat n) else none
  | _ => none

def ValueKind.admits (k : ValueKind) (value : String) : Bool :=
  match k with
  | .path => !value.isEmpty
  | .text => true
  | .hash => (hashOf? value).isSome

structure CommandOption where
  name : String
  kind : ValueKind
deriving DecidableEq, Repr

/-- A word of the command line by its form. -/
inductive Word where
  /-- The separator behind which no option stands. -/
  | separator
  | long (name : String) (value : Option String)
  | short (letters : List Char)
  | plain (text : String)
deriving DecidableEq, Repr

def Word.ofText (s : String) : Word :=
  match s.toList with
  | ['-', '-'] => .separator
  | '-' :: '-' :: cs =>
    match cs.span (· ≠ '=') with
    | (name, []) => .long (String.ofList name) none
    | (name, _ :: value) => .long (String.ofList name) (some (String.ofList value))
  | '-' :: c :: cs => .short (c :: cs)
  | _ => .plain s

/-- The options that have been read, or that help is wanted. -/
inductive Reading where
  | help
  | values (vs : List (String × String))
deriving DecidableEq, Repr

/-- Takes in the value of an option, which may be given once. -/
def accept (o : CommandOption) (value : String) (vs : List (String × String)) :
    Except UsageError (List (String × String)) :=
  if (vs.lookup o.name).isSome then .error (.repeated o.name)
  else if o.kind.admits value then .ok (vs ++ [(o.name, value)])
  else .error (.invalidValue o.name value)

/-- Reads the options behind the name of a command. -/
def readOptions (options : List CommandOption) :
    List (String × String) → List String → Except UsageError Reading
  | vs, [] => .ok (.values vs)
  | vs, word :: rest =>
    match Word.ofText word with
    | .separator =>
      match rest with
      | [] => .ok (.values vs)
      | w :: _ => .error (.unexpected w)
    | .long "help" none => .ok .help
    | .long name value =>
      match options.find? (·.name == name), value, rest with
      | none, _, _ => .error (.unexpected word)
      | some o, some v, rest => do readOptions options (← accept o v vs) rest
      | some o, none, v :: rest =>
        match Word.ofText v with
        | .plain v => do readOptions options (← accept o v vs) rest
        | _ => .error (.missingValue o.name)
      | some o, none, [] => .error (.missingValue o.name)
    | .short ('h' :: _) => .ok .help
    | .short _ | .plain _ => .error (.unexpected word)

def required (vs : List (String × String)) (name : String) : Except UsageError String :=
  match vs.lookup name with
  | some v => .ok v
  | none => .error (.missingOption name)

/-! ## Commands -/

/-- A command with its options and what it asks for. -/
structure Subcommand where
  name : String
  options : List CommandOption
  invoke : List (String × String) → Except UsageError Invocation

def generateCommand : Subcommand where
  name := "generate"
  options := [⟨"spec", .path⟩, ⟨"out", .path⟩]
  invoke vs := do return .generate (← required vs "spec") (vs.lookup "out")

def definitionCommand : Subcommand where
  name := "definition"
  options := [⟨"table", .text⟩, ⟨"hash", .hash⟩, ⟨"config", .path⟩]
  invoke vs := do
    let table ← required vs "table"
    let hash ← required vs "hash"
    return .definition table ((hashOf? hash).getD 0) (vs.lookup "config")

def tablesCommand : Subcommand where
  name := "tables"
  options := [⟨"config", .path⟩]
  invoke vs := .ok (.tables (vs.lookup "config"))

def subcommands : List Subcommand := [generateCommand, definitionCommand, tablesCommand]

def Subcommand.read (c : Subcommand) (words : List String) : Except UsageError Invocation := do
  match ← readOptions c.options [] words with
  | .help => return .help
  | .values vs => c.invoke vs

/-- Help can be had for a command by its name. -/
def readHelp : List String → Except UsageError Invocation
  | [] => .ok .help
  | word :: rest =>
    if word = "help" || subcommands.any (·.name == word) then
      match rest with
      | [] => .ok .help
      | w :: _ => .error (.unknownCommand w)
    else .error (.unknownCommand word)

/-- Reads the words behind the name of the program. -/
def Invocation.ofWords : List String → Except UsageError Invocation
  | [] | ["--"] => .ok .help
  | word :: rest =>
    match subcommands.find? (·.name == word), Word.ofText word with
    | some c, _ => c.read rest
    | none, .long "help" none | none, .short ('h' :: _) => .ok .help
    | none, .long "version" none | none, .short ('V' :: _) => .ok .version
    | none, .plain "help" => readHelp rest
    | none, .plain w => .error (.unknownCommand w)
    | none, _ => .error (.unexpected word)

end Bindery.Command
