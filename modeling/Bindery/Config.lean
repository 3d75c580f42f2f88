import Bindery.Text.Blank

/-! # Configuration -/

namespace Bindery

open Text

/-- How the API is reached. -/
structure ApiConfig where
  baseUrl : String := "https://www.bungie.net/Platform"
  apiKey : String := ""
  userAgent : String := "apibind/0.1.0"
  /-- The time that a request may take. -/
  timeoutSeconds : Option Nat := none
deriving DecidableEq, Repr

/-- Which definition tables are used and where they are. -/
structure TablesConfig where
  locale : String := "en"
  contentBaseUrl : String := "https://www.bungie.net"
deriving DecidableEq, Repr

structure Config where
  api : ApiConfig := {}
  tables : TablesConfig := {}
deriving DecidableEq, Repr

/-- The variables of the environment that override a configuration. -/
structure Overrides where
  apiKey : Option String := none
  baseUrl : Option String := none
deriving DecidableEq, Repr

namespace ApiConfig

/-- A variable that is empty overrides nothing. -/
def override (c : ApiConfig) (o : Overrides) : ApiConfig :=
  { c with
    apiKey := (o.apiKey.filter (!·.isEmpty)).getD c.apiKey
    baseUrl := (o.baseUrl.filter (!·.isEmpty)).getD c.baseUrl }

def missingKeyMessage : String :=
  "no API key configured (set APIBIND_API_KEY or api_key in the config file)"

/-- A key of blanks only is no key. -/
def hasKey (c : ApiConfig) : Bool := !c.apiKey.toList.all isBlank

end ApiConfig
end Bindery
