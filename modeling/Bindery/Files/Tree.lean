import Bindery.Files
import Bindery.Files.Path

/-! # A tree of files held as a value -/

namespace Bindery

/-- The path from the root to a file or directory, its last name first. -/
abbrev Place := List String

/-- What stands at each place besides the root. -/
structure FileTree where
  files : List (Place × List UInt8) := []
  directories : List Place := []
deriving Repr

namespace FileTree

inductive Kind where
  | file (content : List UInt8)
  | directory
deriving DecidableEq, Repr

def kind? (t : FileTree) (p : Place) : Option Kind :=
  if p.isEmpty || t.directories.contains p then some .directory
  else (t.files.lookup p).map .file

/-- Goes down through directories. -/
def descend (t : FileTree) : Place → List String → Except FileFault Place
  | here, [] => .ok here
  | here, ".." :: names => descend t here.tail names
  | here, name :: names =>
    match t.kind? (name :: here) with
    | some .directory => descend t (name :: here) names
    | some (.file _) => .error .notDirectory
    | none => .error .missing

/-- The place that a path leads to, whether or not there is something, and whether it can only
be a directory. -/
def locate (t : FileTree) (path : String) : Except FileFault (Place × Bool) := do
  if path.isEmpty then throw .missing
  let names := Files.components path
  let above ← t.descend [] names.dropLast
  match names.getLast? with
  | none => return ([], true)
  | some ".." => return (above.tail, true)
  | some name => return (name :: above, Files.endsInSlash path)

def read (t : FileTree) (path : String) : Except FileFault (List UInt8) := do
  let (p, slash) ← t.locate path
  match t.kind? p with
  | some .directory => throw .isDirectory
  | some (.file content) => if slash then throw .notDirectory else return content
  | none => throw .missing

def put (t : FileTree) (p : Place) (content : List UInt8) : FileTree :=
  { t with files := (p, content) :: t.files.filter (·.1 ≠ p) }

def write (t : FileTree) (path : String) (content : List UInt8) : Except FileFault FileTree := do
  let (p, slash) ← t.locate path
  match t.kind? p with
  | some .directory => throw .isDirectory
  | some (.file _) => if slash then throw .notDirectory else return t.put p content
  | none => if slash then throw .isDirectory else return t.put p content

def makeAlong (t : FileTree) : Place → List String → Except FileFault FileTree
  | _, [] => .ok t
  | here, ".." :: names => makeAlong t here.tail names
  | here, name :: names =>
    match t.kind? (name :: here) with
    | some .directory => makeAlong t (name :: here) names
    | some (.file _) => .error (if names.isEmpty then .exists else .notDirectory)
    | none => makeAlong { t with directories := (name :: here) :: t.directories } (name :: here) names

def makeDirectories (t : FileTree) (path : String) : Except FileFault FileTree :=
  t.makeAlong [] (Files.components path)

/-- The tree of the given files; directories are made as their paths need them. -/
def ofFiles (fs : List (String × List UInt8)) : Except FileFault FileTree :=
  fs.foldlM (fun t f => do
    let t ← match Files.parent? f.1 with
      | some dir => t.makeDirectories dir
      | none => pure t
    t.write f.1 f.2) {}

/-- A step that leaves the tree as it was when it fails. -/
def updating {σ : Type} (get : σ → FileTree) (set : FileTree → σ → σ)
    (f : FileTree → Except FileFault FileTree) : StateM σ (Except FileFault Unit) := fun s =>
  match f (get s) with
  | .ok t => (.ok (), set t s)
  | .error fault => (.error fault, s)

/-- The files of a tree that is part of a state. -/
def within {σ : Type} (get : σ → FileTree) (set : FileTree → σ → σ) : Files (StateM σ) where
  read path := fun s => ((get s).read path, s)
  write path content := updating get set (·.write path content)
  makeDirectories path := updating get set (·.makeDirectories path)

end FileTree
end Bindery
