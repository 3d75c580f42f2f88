import Bindery.Config
import Bindery.Files
import Bindery.Toml.Document
import Bindery.Toml.Fill

/-! # Configuration files -/

namespace Bindery

open Text Toml

/-- Why there is no configuration. -/
inductive ConfigError where
  | unreadable (path reason : String)
  /-- The file is no TOML, or a value in it is of the wrong kind. -/
  | malformed (path : String)
  | missingKey
deriving DecidableEq, Repr

def ConfigError.message : ConfigError → String
  | .unreadable path reason => "failed to read config file " ++ path ++ ": " ++ reason
  | .malformed path => "failed to parse config file " ++ path ++ ": malformed TOML"
  | .missingKey => ApiConfig.missingKeyMessage

def ApiConfig.settings : List (Setting ApiConfig) :=
  [.text "base_url" fun x c => { c with baseUrl := x },
   .text "api_key" fun x c => { c with apiKey := x },
   .text "user_agent" fun x c => { c with userAgent := x },
   .natural "timeout_secs" fun x c => { c with timeoutSeconds := some x }]

def TablesConfig.settings : List (Setting TablesConfig) :=
  [.text "locale" fun x c => { c with locale := x },
   .text "content_base_url" fun x c => { c with contentBaseUrl := x }]

namespace Config

def settings : List (Setting Config) :=
  [.group "api" ApiConfig.settings {} fun x c => { c with api := x },
   .group "cache" TablesConfig.settings {} fun x c => { c with tables := x }]

/-- The configuration that a TOML text describes. -/
def ofToml? (text : String) : Option Config := do
  (Value.table (← parse? text)).fill? settings {}

def ofText (path text : String) : Except ConfigError Config :=
  match ofToml? text with
  | some c => .ok c
  | none => .error (.malformed path)

/-- Reads a configuration file. -/
def read {m : Type → Type} [Monad m] (files : Files m) (path : String) :
    m (Except ConfigError Config) := do
  match ← files.readText path with
  | .ok text => return ofText path text
  | .error fault => return .error (.unreadable path fault.message)

/-- The configuration under the environment's overrides, provided that there is a key. -/
def checked (c : Config) (o : Overrides) : Except ConfigError Config :=
  let c := { c with api := c.api.override o }
  if c.api.hasKey then .ok c else .error .missingKey

end Config
end Bindery
