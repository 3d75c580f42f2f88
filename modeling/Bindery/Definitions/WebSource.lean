import Bindery.Api
import Bindery.Definitions.Script

/-! # Manifests and tables from the network -/

namespace Bindery.Definitions

open Http Json

/-- The address of a table: one slash stands between the base and the path. -/
def tableUrl (base path : String) : String :=
  String.ofList ((base.toList.reverse.dropWhile (· == '/')).reverse ++
    '/' :: path.toList.dropWhile (· == '/'))

/-- The records in a response. -/
def recordsOf (r : Response) : Except DefinitionError Records :=
  if r.isSuccess then
    match Records.decode.runBytes r.body with
    | .ok records => .ok records
    | .error cause => .error (.decode cause)
  else .error (.call (.transport (.status r.status r.body)))

variable {m : Type → Type} [Monad m]

/-- A table by its address, with the time limit of the API's client. -/
def fetchTable (net : Network m) (api : ApiConfig) (url : String) :
    m (Except DefinitionError Records) := do
  match Url.parse url with
  | .error _ => return .error (.call (.transport (.connection .setup)))
  | .ok u =>
    let out : Outgoing :=
      { method := "GET", url := u, headers := .empty, body := none
        timeoutMillis := api.timeoutSeconds.map (· * 1000) }
    match ← deliver net out with
    | .error e => return .error (.call (.transport e))
    | .ok response => return recordsOf response

/-- The manifest comes through the API, a missing one being empty; tables come from the content
host. -/
def webSource (net : Network m) (api : Api m) (c : ApiConfig) (content : TablesConfig) :
    Source m where
  label := "HttpContentSource"
  manifest := do
    match ← api.manifest Manifest.decode with
    | .error e => return .error (.call e)
    | .ok envelope => return .ok (envelope.response.getD {})
  table path := fetchTable net c (tableUrl content.contentBaseUrl path)

end Bindery.Definitions
