import Bindery.Http.Exchange
import Bindery.Wire.Envelope

/-! # Why calls fail -/

namespace Bindery

open Json Text Http

/-- Why a call of the API has no envelope to give. -/
inductive CallError where
  | transport (e : TransportError)
  /-- The envelope reports an error. -/
  | api (e : ApiError)
  | encode (operation : String) (cause : EncodeError)
  | decode (operation : String) (body : List UInt8) (cause : DecodeError)
deriving DecidableEq, Repr

def CallError.message : CallError → String
  | .transport e => e.message
  | .api e => e.describe
  | .encode operation cause =>
    "failed to encode request body for " ++ operation ++ ": " ++ cause.message
  | .decode operation _ cause =>
    "failed to decode response for " ++ operation ++ ": " ++ cause.message

/-- Why a record of a definition table cannot be had. -/
inductive DefinitionError where
  | notFound (table : String) (hash : UInt32)
  /-- The manifest does not list the table. -/
  | unknownTable (table : String)
  /-- The manifest has no version. -/
  | missingManifest
  | call (e : CallError)
  | decode (cause : DecodeError)
deriving DecidableEq, Repr

def DefinitionError.message : DefinitionError → String
  | .notFound table hash =>
    "no entry " ++ decimal hash.toNat ++ " in definition table " ++ table
  | .unknownTable table => "unknown definition table " ++ quoted table
  | .missingManifest => "missing manifest"
  | .call e => e.message
  | .decode cause => "failed to decode definition record: " ++ cause.message

end Bindery
