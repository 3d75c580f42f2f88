/-! # The head of a generated module -/

namespace Bindery.Emission

/-- The names that every generated module imports; no declared type may have one of them. -/
def importedNames : List String :=
  ["HashMap", "fmt", "Api", "BitmaskSet", "BitmaskValue", "ClientError", "ClientRequest",
   "Definition", "Envelope", "HashRef", "Int64", "JsonMap", "Nullable", "Timestamp",
   "join_array", "Deserialize", "Serialize"]

def header : String :=
  "// Code generated by apibind-codegen. DO NOT EDIT.\n" ++
  "\n" ++
  "#[allow(unused_imports)]\n" ++
  "use std::collections::HashMap;\n" ++
  "#[allow(unused_imports)]\n" ++
  "use std::fmt;\n" ++
  "\n" ++
  "#[allow(unused_imports)]\n" ++
  "use apibind_runtime::\x7b\n" ++
  "    Api, BitmaskSet, BitmaskValue, ClientError, ClientRequest, Definition, Envelope, " ++
  "HashRef, Int64,\n" ++
  "    JsonMap, Nullable, Timestamp, join_array,\n" ++
  "\x7d;\n" ++
  "#[allow(unused_imports)]\n" ++
  "use serde::\x7bDeserialize, Serialize\x7d;\n"

end Bindery.Emission
