import Bindery.CallError
import Bindery.Http.Layer
import Bindery.Wire.HashRef

/-! # Calls of the API -/

namespace Bindery

open Json Text Http

/-- Reads the envelope of a response. A body that is none is a failed exchange if the status says
so; an envelope that reports an error is that error, whatever the status. -/
def Envelope.ofResponse {α : Type} (payload : Decoder α) (operation : String) (r : Response) :
    Except CallError (Envelope α) :=
  match (Envelope.decodeWith payload).runBytes r.body with
  | .ok e =>
    match e.apiError? with
    | some err => .error (.api err)
    | none => .ok { e with raw := r.body }
  | .error cause =>
    if r.isSuccess then .error (.decode operation r.body cause)
    else .error (.transport (.status r.status r.body))

/-- Anything that looks up a record by table and hash. -/
structure RecordSource (m : Type → Type) where
  record : String → UInt32 → m (Except DefinitionError RawText)

/-- Decodes a record that has been looked up. -/
def decodeRecord {ρ : Type} [Definition ρ] (r : Except DefinitionError RawText) :
    Except DefinitionError ρ := do
  match (← r).decodeWith (Definition.decode (ρ := ρ)) with
  | .ok a => return a
  | .error cause => throw (.decode cause)

/-- The record that a reference points to. -/
def HashRef.resolve {m : Type → Type} [Monad m] {ρ : Type} [Definition ρ] (h : HashRef ρ)
    (source : RecordSource m) : m (Except DefinitionError ρ) :=
  decodeRecord <$> source.record (Definition.table ρ) h.hash

/-- A client behind layers, of which the first is the innermost. -/
structure Api (m : Type → Type) where
  client : Client m
  layers : List Layer := []

namespace Api

variable {m : Type → Type} (api : Api m)

/-- Puts a layer around all others. -/
def within (l : Layer) : Api m := { api with layers := api.layers ++ [l] }

def withToken (token : String) : Api m := api.within (.token token)

def withBaseUrl (url : String) : Api m := api.within (.baseUrl url)

def execute (r : Request) : m (Except TransportError Response) :=
  api.client.execute (Layer.applyAll api.layers r)

def debug : String :=
  "Api \x7b client: " ++ api.layers.foldl Layer.describe api.client.label ++ " \x7d"

variable [Monad m]

/-- Executes a request and reads the envelope of its response. -/
def call {α : Type} (payload : Decoder α) (r : Request) : m (Except CallError (Envelope α)) := do
  match ← api.execute r with
  | .ok response => return Envelope.ofResponse payload r.operation response
  | .error e => return .error (.transport e)

def manifestPath : String := "/Destiny2/Manifest/"

def entityPath : String :=
  "/Destiny2/Manifest/\x7bentityType\x7d/\x7bhashIdentifier\x7d/"

/-- The content manifest, in whatever type the caller reads it. -/
def manifest {α : Type} (payload : Decoder α) : m (Except CallError (Envelope α)) :=
  api.call payload (.get "GetDestinyManifest" manifestPath)

/-- One record of an entity, if there is one. -/
def entity (name : String) (hash : UInt32) : m (Except CallError (Option RawText)) := do
  let r := (Request.get "GetDestinyEntityDefinition" entityPath).pathParam "entityType" name
    |>.pathParam "hashIdentifier" hash
  return (← api.call RawText.decode r).map Envelope.response

/-- The entity whose records a table holds. -/
def entityOf (table : String) : String :=
  let cs := table.toList
  let cs := (dropPrefix? "Destiny".toList cs).getD cs
  String.ofList ((dropSuffix? "Definition".toList cs).getD cs)

/-- Looks up records one by one. -/
def records : RecordSource m where
  record table hash := do
    match ← api.entity (entityOf table) hash with
    | .error e => return .error (.call e)
    | .ok none => return .error (.notFound table hash)
    | .ok (some r) => return .ok r

end Api
end Bindery
