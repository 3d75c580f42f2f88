import Bindery.Log
import Bindery.Resolver
import Bindery.Wanted

/-! # The state of one generation run -/

namespace Bindery

open Document

/-- What a run knows: the resolver's findings, the names to declare, and what it has reported. -/
structure Generation where
  resolver : Resolver := {}
  wanted : Wanted := .empty
  journal : List Log.Event := []
deriving Repr

/-- A step of a run; its state outlives a failure. -/
abbrev GenerationM := ExceptT GenerationError (StateM Generation)

namespace Generation

/-- The parts of the generator that report events. -/
def resolvePart : String := "apibind_codegen::ir::resolve"
def operationPart : String := "apibind_codegen::ir::normalize"
def declarationPart : String := "apibind_codegen::ir::closure"
def modulePart : String := "apibind_codegen::emitter"

def note (level : Log.Level) (target message : String) : GenerationM Unit :=
  modify fun g => { g with journal := g.journal ++ [⟨level, target, message⟩] }

/-- Runs a step of the resolver. -/
def resolving {α : Type} (step : ResolveM α) : GenerationM α := ExceptT.mk fun g =>
  let (result, resolver) := step.run g.resolver
  (result, { g with resolver })

def want (ident : String) : GenerationM Unit :=
  modify fun g => { g with wanted := g.wanted.add ident }

/-- Marks every name that a type mentions. -/
def require (t : TypeExpr) : GenerationM Unit :=
  modify fun g => { g with wanted := g.wanted.addAll t.dependencies }

def nextWanted? : GenerationM (Option String) := do
  match (← get).wanted.next? with
  | none => return none
  | some (ident, wanted) =>
    modify fun g => { g with wanted }
    return some ident

/-- The type of a schema, whose names are marked. -/
def resolveWanted (scope : Scope) (s : Schema) (context : String) : GenerationM TypeExpr := do
  let t ← resolving (scope.resolve s context)
  require t
  return t

end Generation

/-- Indexes a document for a run. -/
def Scope.ofDocument (document : Document) : Except GenerationError Scope :=
  (Scope.mk document) <$> NameIndex.ofDocument document

end Bindery
