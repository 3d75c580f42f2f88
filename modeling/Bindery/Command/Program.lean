import Bindery.Command
import Bindery.Command.Line

/-! # The program -/

namespace Bindery.Command

def versionText : String := "apibind 0.1.0"

def helpText : String :=
  "Typed bindings generator and definition cache for versioned web APIs\n\n" ++
  "Usage: apibind [COMMAND]\n\n" ++
  "Commands:\n" ++
  "  generate    Generate a Rust bindings module from an OpenAPI document\n" ++
  "  definition  Print one definition record, fetching its table as needed\n" ++
  "  tables      List the definition tables of the current manifest\n" ++
  "  help        Print this message or the help of the given subcommand(s)\n\n" ++
  "Options:\n" ++
  "  -h, --help     Print help\n" ++
  "  -V, --version  Print version\n"

variable {m : Type → Type} [Monad m] (s : Surroundings m)

/-- Does what the command line asks for. -/
def invoke : Invocation → Work m Unit
  | .help => ExceptT.lift (s.print helpText)
  | .version => printLine s versionText
  | .generate spec out => generate s spec out
  | .definition table hash config => definition s table hash config
  | .tables config => tables s config

/-- Runs the program on the words behind its name and gives its exit code. -/
def program (words : List String) : m UInt8 := do
  match Invocation.ofWords words with
  | .ok invocation => conclude s (invoke s invocation)
  | .error e => do
    s.complain ("error: " ++ e.message ++ "\n")
    return 2

end Bindery.Command
