import Bindery.Text.Utf8

/-! # Reading and writing files -/

namespace Bindery

/-- Why a file cannot be read or written. -/
inductive FileFault where
  | missing
  | exists
  | notDirectory
  | isDirectory
  /-- The content is no text. -/
  | notText
  | other (reason : String)
deriving DecidableEq, Repr

def FileFault.message : FileFault → String
  | .missing => "No such file or directory (os error 2)"
  | .exists => "File exists (os error 17)"
  | .notDirectory => "Not a directory (os error 20)"
  | .isDirectory => "Is a directory (os error 21)"
  | .notText => "stream did not contain valid UTF-8"
  | .other reason => reason

/-- A place with files. -/
structure Files (m : Type → Type) where
  read : String → m (Except FileFault (List UInt8))
  write : String → List UInt8 → m (Except FileFault Unit)
  /-- Makes a directory and those above it, where they are missing. -/
  makeDirectories : String → m (Except FileFault Unit)

namespace Files

variable {m : Type → Type} [Monad m]

def readText (f : Files m) (path : String) : m (Except FileFault String) := do
  match ← f.read path with
  | .error fault => return .error fault
  | .ok bytes =>
    match Utf8.decode? bytes with
    | some text => return .ok text
    | none => return .error .notText

end Files
end Bindery
