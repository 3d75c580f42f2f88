import Bindery.Http.Request

/-! # Layers around a client

A layer adjusts requests on their way to the client. The outermost layer sees a request first,
and what it sets the layers further in leave as it is. -/

namespace Bindery.Http

inductive Layer where
  /-- Sets a header unless the request has one of that name. -/
  | header (name value : String)
  /-- Sets the base URL unless the request has one. -/
  | baseUrl (url : String)
deriving DecidableEq, Repr

namespace Layer

/-- The layer that carries an access token. -/
def token (t : String) : Layer := .header "Authorization" ("Bearer " ++ t)

def apply (l : Layer) (r : Request) : Request :=
  match l with
  | .header name value =>
    if r.headers.keys.any (Header.sameName name) then r else r.header name value
  | .baseUrl url => if r.baseUrl.isSome then r else { r with baseUrl := some url }

/-- Takes a request through layers, of which the first is the innermost. -/
def applyAll (ls : List Layer) (r : Request) : Request := ls.foldr apply r

/-- How a layer around something is shown. -/
def describe (inner : String) : Layer → String
  | .header name value =>
    "AddHeaderClient \x7b inner: " ++ inner ++ ", name: " ++ Text.quoted name ++ ", value: " ++
      Text.quoted value ++ " \x7d"
  | .baseUrl url =>
    "BaseUrlClient \x7b inner: " ++ inner ++ ", base_url: " ++ Text.quoted url ++ " \x7d"

end Layer
end Bindery.Http
