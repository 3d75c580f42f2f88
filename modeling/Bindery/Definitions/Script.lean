import Bindery.CallError
import Bindery.Definitions.Manifest

/-! # Lookups as scripts of single steps

A script says step by step what a user of the cache does: look at what is loaded, change it, ask
the source, pass a gate. A gate lets one script through at a time, so scripts of several users
can be carried out in any order that the gates allow; a single script is simply run. -/

namespace Bindery.Definitions

open Json

structure Loaded where
  version : String
  records : Records
deriving Repr

/-- What a cache holds: the manifest in force and the tables that have been loaded. -/
structure Shelf where
  manifest : Option Manifest := none
  tables : TextDict Loaded := .empty
deriving Repr

inductive Gate where
  /-- Whoever is inside may ask for the manifest. -/
  | manifest
  /-- Whoever is inside may ask for the table. -/
  | table (name : String)
deriving DecidableEq, Repr

/-- Where manifests and tables come from. -/
structure Source (m : Type → Type) where
  manifest : m (Except DefinitionError Manifest)
  /-- A table by the path that the manifest lists. -/
  table : String → m (Except DefinitionError Records)
  /-- How the source is shown. -/
  label : String

inductive Script (α : Type) where
  | done (result : α)
  | look (next : Shelf → Script α)
  | change (f : Shelf → Shelf) (next : Script α)
  | enter (g : Gate) (next : Script α)
  | leave (g : Gate) (next : Script α)
  | askManifest (next : Except DefinitionError Manifest → Script α)
  | askTable (path : String) (next : Except DefinitionError Records → Script α)

namespace Script

variable {α β : Type}

/-- Goes on with the result of a script. -/
def andThen (f : α → Script β) : Script α → Script β
  | .done a => f a
  | .look next => .look fun s => (next s).andThen f
  | .change g next => .change g (next.andThen f)
  | .enter g next => .enter g (next.andThen f)
  | .leave g next => .leave g (next.andThen f)
  | .askManifest next => .askManifest fun r => (next r).andThen f
  | .askTable path next => .askTable path fun r => (next r).andThen f

instance : Monad Script where
  pure := .done
  bind s f := s.andThen f

/-- Carries out a script alone, when every gate is open. -/
def run {m : Type → Type} [Monad m] (source : Source m) : Script α → StateT Shelf m α
  | .done a => pure a
  | .look next => do (next (← get)).run source
  | .change f next => do
    modify f
    next.run source
  | .enter _ next | .leave _ next => next.run source
  | .askManifest next => do (next (← source.manifest)).run source
  | .askTable path next => do (next (← source.table path)).run source

/-- Does something inside a gate, which is left whatever comes out. -/
def inside (g : Gate) (body : Script α) : Script α :=
  .enter g (body.andThen fun a => .leave g (.done a))

end Script

/-- A script that can fail. -/
abbrev Attempt := ExceptT DefinitionError Script

namespace Attempt

variable {α : Type}

/-- What can be seen at one moment. -/
def looking (f : Shelf → α) : Attempt α := ExceptT.mk (.look fun s => .done (.ok (f s)))

def changing (f : Shelf → Shelf) : Attempt Unit := ExceptT.mk (.change f (.done (.ok ())))

def asking : Attempt Manifest := ExceptT.mk (.askManifest .done)

def askingTable (path : String) : Attempt Records := ExceptT.mk (.askTable path .done)

def inside (g : Gate) (body : Attempt α) : Attempt α := ExceptT.mk (Script.inside g body.run)

end Attempt
end Bindery.Definitions
