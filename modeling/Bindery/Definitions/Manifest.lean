import Bindery.Wire

/-! # Content manifests and tables -/

namespace Bindery.Definitions

open Json

/-- The version of the content, and for each locale where its tables are. -/
structure Manifest where
  version : String := ""
  paths : TextDict (TextDict String) := .empty
deriving DecidableEq, Repr

namespace Manifest

instance : Inhabited Manifest := ⟨{}⟩

def tablePath? (m : Manifest) (locale table : String) : Option String :=
  (m.paths.find? locale).bind (·.find? table)

/-- The names of a locale's tables in order. -/
def tables (m : Manifest) (locale : String) : List String :=
  ((m.paths.find? locale).map Dict.keys).getD []

def pathsName : String := "jsonWorldComponentContentPaths"

/-- The paths go by either of two names. -/
def pathsField : Decoder.Field Manifest :=
  { Decoder.Field.defaulted pathsName Wire.decode fun x m => { m with paths := x } with
    aliases := ["contentPaths"] }

def decode : Decoder Manifest :=
  .struct "Manifest" {}
    [.defaulted "version" .string fun x m => { m with version := x }, pathsField]

def encode (m : Manifest) : Tree :=
  .ofEntries [("version", .ofString m.version), (pathsName, Wire.encode m.paths)]

instance : Wire Manifest := ⟨encode, decode⟩

end Manifest

/-- The records of one table as they were received, by hash. -/
abbrev Records := Dict UInt32 RawText

namespace Records

def key : Decoder.KeyDecoder UInt32 := fun content closed =>
  (fun i => UInt32.ofNat i.toNat) <$> Decoder.integerKey (.unsigned 32) "u32" content closed

def decode : Decoder Records := .dict key RawText.decode

end Records
end Bindery.Definitions
