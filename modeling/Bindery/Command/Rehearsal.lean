import Bindery.Command.Program
import Bindery.Files.Tree
import Bindery.Log.Filter

/-! # Rehearsals

A rehearsal runs the program on a tree of files held as a value, without a network, and keeps
what it prints. -/

namespace Bindery.Command

open Http

structure Rehearsal where
  files : FileTree
  overrides : Overrides := {}
  filter : Log.Filter := .standard
  printed : String := ""
  /-- Log lines and failures. -/
  complaints : String := ""
deriving Repr

namespace Rehearsal

def print (text : String) : StateM Rehearsal Unit :=
  modify fun r => { r with printed := r.printed ++ text }

def complain (text : String) : StateM Rehearsal Unit :=
  modify fun r => { r with complaints := r.complaints ++ text }

/-- No exchange brings an answer. -/
def network : Network (StateM Rehearsal) where
  exchange _ := pure none
  report e := do if (← get).filter.shows e then complain e.line

def surroundings : Surroundings (StateM Rehearsal) where
  files := FileTree.within Rehearsal.files fun t r => { r with files := t }
  overrides := Rehearsal.overrides <$> get
  network := network
  print := print
  complain := complain

/-- The exit code of the program for the given words, and what the rehearsal looks like after it. -/
def run (r : Rehearsal) (words : List String) : UInt8 × Rehearsal :=
  (program surroundings words).run r

/-- The exit code of one command. -/
def runWork (r : Rehearsal) (work : Work (StateM Rehearsal) Unit) : UInt8 × Rehearsal :=
  (conclude surroundings work).run r

end Rehearsal
end Bindery.Command
