import Bindery.Config
import Bindery.Http.Request
import Bindery.Log

/-! # Exchanges with a server

A client prepares a request, and whoever runs it sends what has been prepared. -/

namespace Bindery.Http

open Text

structure Response where
  status : Nat
  body : List UInt8
deriving DecidableEq, Repr

def Response.isSuccess (r : Response) : Bool := 200 ≤ r.status && r.status < 300

/-- Why no connection brought an answer. -/
inductive ConnectionFault where
  /-- The client or the request cannot be set up. -/
  | setup
  /-- The URL's scheme is none that requests are sent to. -/
  | scheme (url : String)
  | noAnswer (url : String)
deriving DecidableEq, Repr

def ConnectionFault.message : ConnectionFault → String
  | .setup => "builder error"
  | .scheme url => "builder error for url (" ++ url ++ ")"
  | .noAnswer url => "error sending request for url (" ++ url ++ ")"

/-- Why a request has no usable response. -/
inductive TransportError where
  | connection (fault : ConnectionFault)
  | status (code : Nat) (body : List UInt8)
  | invalidUrl (base : String) (fault : UrlFault)
  | invalidHeader (name : String)
deriving DecidableEq, Repr

def TransportError.message : TransportError → String
  | .connection fault => "request failed: " ++ fault.message
  | .status code _ => "HTTP status " ++ decimal code
  | .invalidUrl base fault => "invalid request URL '" ++ base ++ "': " ++ fault.message
  | .invalidHeader name => "invalid header '" ++ name ++ "'"

/-- A request as it is sent. -/
structure Outgoing where
  method : String
  url : Url
  /-- Under names in lower case. -/
  headers : TextDict String
  body : Option (List UInt8)
  timeoutMillis : Option Nat
deriving Repr

/-- What a client needs from its surroundings. -/
structure Network (m : Type → Type) where
  /-- Sends a request and gives the answer, if there is one. -/
  exchange : Outgoing → m (Option Response)
  report : Log.Event → m Unit

/-- Whatever executes requests. -/
structure Client (m : Type → Type) where
  execute : Request → m (Except TransportError Response)
  /-- How the client is shown. -/
  label : String

/-! ## The client of a configuration -/

def keyHeader : String := "X-API-Key"

def contentTypeHeader : String := "content-type"

/-- Puts a header into its place, where it takes the place of one of the same name. -/
def insertHeader (hs : TextDict String) (name value : String) :
    Except TransportError (TextDict String) :=
  if Header.isName name && Header.isValue value then .ok (hs.insert (Header.key name) value)
  else .error (.invalidHeader name)

/-- The key, then the type of the body if there is one, then the request's own headers. -/
def buildHeaders (apiKey : String) (r : Request) : Except TransportError (TextDict String) := do
  let hs ← insertHeader .empty keyHeader apiKey
  let hs := if r.body.isSome then hs.insert contentTypeHeader "application/json" else hs
  r.headers.entries.foldlM (fun hs h => insertHeader hs h.1 h.2) hs

/-- The URL is looked at first, the headers after it. -/
def prepare (c : ApiConfig) (r : Request) : Except TransportError Outgoing := do
  let base := r.baseUrl.getD c.baseUrl
  let url ← match r.url base with
    | .ok u => pure u
    | .error fault => throw (.invalidUrl base fault)
  let headers ← buildHeaders c.apiKey r
  return {
    method := r.method, url, headers, body := r.body
    timeoutMillis := r.timeoutMillis <|> c.timeoutSeconds.map (· * 1000) }

/-- A client cannot be set up with a user agent that is no header value. -/
def checkAgent (c : ApiConfig) : Except TransportError Unit :=
  if Header.isValue c.userAgent then .ok () else .error (.connection .setup)

def clientPart : String := "apibind_runtime::client"

variable {m : Type → Type} [Monad m]

/-- Sends only to web addresses. -/
def deliver (net : Network m) (out : Outgoing) : m (Except TransportError Response) := do
  let url := out.url.text
  if out.url.isWeb then
    match ← net.exchange out with
    | some response => return .ok response
    | none => return .error (.connection (.noAnswer url))
  else return .error (.connection (.scheme url))

/-- The client that reaches the API as configured. -/
def Client.standard (net : Network m) (c : ApiConfig) : Client m where
  label := "DefaultClient"
  execute r := do
    match prepare c r with
    | .error e => return .error e
    | .ok out =>
      net.report ⟨.debug, clientPart, "Sending API request."⟩
      let result ← deliver net out
      net.report ⟨.debug, clientPart, match result with
        | .ok _ => "Received API response."
        | .error _ => "API request failed."⟩
      return result

end Bindery.Http
