import Bindery.Declaration.Closure
import Bindery.Emission.DeclarationText
import Bindery.Emission.Header
import Bindery.Emission.OperationText
import Bindery.Operation.Gather

/-! # Bindings of an API

The bindings of a document are its operations and the declarations of the types that they reach,
written as one source module. -/

namespace Bindery

open Generation

structure Bindings where
  /-- In the order of their schemas. -/
  types : List Declaration
  /-- In the order of their paths. -/
  operations : List Operation
deriving DecidableEq, Repr

namespace Bindings

def gather (scope : Scope) : GenerationM Bindings := do
  let operations ← Operation.ofDocument scope
  let types ← Declaration.closure scope
  note .debug modulePart "Built bindings module."
  return ⟨types, operations⟩

/-- The bindings of a document, and what has been reported while they were made. -/
def run (doc : Document) : Except GenerationError Bindings × List Log.Event :=
  match Scope.ofDocument doc with
  | .error e => (.error e, [])
  | .ok scope =>
    let indexed : Log.Event := ⟨.debug, resolvePart, "Indexed schema identifiers."⟩
    let (result, g) := (gather scope).run { journal := [indexed] }
    (result, g.journal)

def ofDocument (doc : Document) : Except GenerationError Bindings := (run doc).1

def text (b : Bindings) : String :=
  Emission.header ++ String.join (b.types.map fun d => "\n" ++ d.text) ++
    String.join (b.operations.map fun op => "\n" ++ op.text)

/-- Generates a module from the text of a document. -/
def generateWithLog (json : String) : Except GenerationError String × List Log.Event :=
  match Document.ofJson json with
  | .error e => (.error (.parse e), [])
  | .ok doc =>
    let (result, journal) := run doc
    (result.map text, journal)

def generate (json : String) : Except GenerationError String := (generateWithLog json).1

end Bindings
end Bindery
