import Bindery.Command.Program
import Bindery.Log.Filter

/-! # The executable

The program on the files and streams of the machine it runs on. The executable has no transport
of its own, so no exchange brings an answer. -/

namespace Bindery.Executable

open Command Http

def faultOf : IO.Error → FileFault
  | .noFileOrDirectory .. => .missing
  | .alreadyExists .. => .exists
  | .inappropriateType .. => .isDirectory
  | .noSuchThing .. => .missing
  | e => .other (toString e)

/-- Does something with files and tells how it fails. -/
def guarded {α : Type} (step : IO α) : IO (Except FileFault α) := do
  match ← step.toBaseIO with
  | .ok a => return .ok a
  | .error e => return .error (faultOf e)

def files : Files IO where
  read path := guarded do return (← IO.FS.readBinFile path).toList
  write path content := guarded (IO.FS.writeBinFile path ⟨content.toArray⟩)
  makeDirectories path := guarded (IO.FS.createDirAll path)

def surroundings (filter : Log.Filter) : Surroundings IO where
  files := files
  overrides := do
    return ⟨← IO.getEnv "APIBIND_API_KEY", ← IO.getEnv "APIBIND_BASE_URL"⟩
  network :=
    { exchange := fun _ => pure none
      report := fun e => if filter.shows e then IO.eprint e.line else pure () }
  print := IO.print
  complain := IO.eprint

end Bindery.Executable

def main (words : List String) : IO UInt32 := do
  let filter := Bindery.Log.Filter.ofSetting (← IO.getEnv "APIBIND_LOG")
  let code ← Bindery.Command.program (Bindery.Executable.surroundings filter) words
  return code.toUInt32
