import Bindery.Declaration
import Bindery.Emission.TypeText
import Bindery.Naming.DocComment
import Bindery.Text.Quoted

/-! # Declarations as source text -/

namespace Bindery

open Naming Text

namespace Emission

def indent : String := "    "

/-- Null values are left out when a field is written. -/
def fieldText (f : Field) : String :=
  let skip := if f.type.isNullable then ", skip_serializing_if = \"Nullable::is_null\"" else ""
  docComment f.description indent ++
    "    #[serde(rename = " ++ quoted f.wireName ++ ", default" ++ skip ++ ")]\n" ++
    "    pub " ++ f.name ++ ": " ++ f.type.text ++ ",\n"

/-- What the type variable must offer, stated where it is the key of a map. -/
def keyBound : String :=
  "#[serde(bound(deserialize = \"T: Deserialize<'de> + Default + Eq + std::hash::Hash\"))]\n"

def structHead (ident : String) (generic : Bool) (fields : List Field) : String :=
  if generic then
    (if fields.any fun f => f.type.hasParamKey then keyBound else "") ++
      "pub struct " ++ ident ++ "<T> \x7b\n"
  else "pub struct " ++ ident ++ " \x7b\n"

def structText (ident : String) (generic : Bool) (fields : List Field) : String :=
  "#[derive(Debug, Clone, Default, Serialize, Deserialize)]\n" ++
    structHead ident generic fields ++ String.join (fields.map fieldText) ++ "\x7d\n"

def tableText (ident table : String) : String :=
  "\nimpl Definition for " ++ ident ++ " \x7b\n" ++
    "    const TABLE: &'static str = " ++ quoted table ++ ";\n\x7d\n"

def constantText (v : NamedValue) : String :=
  docComment v.description indent ++
    "    pub const " ++ v.constant ++ ": Self = Self(" ++ v.literal ++ ");\n"

/-- The values with the literals that have not stood before. -/
def distinctLiterals (seen : List String) : List NamedValue → List NamedValue
  | [] => []
  | v :: rest =>
    if seen.contains v.literal then distinctLiterals seen rest
    else v :: distinctLiterals (v.literal :: seen) rest

def armText (v : NamedValue) : String :=
  "            " ++ v.literal ++ " => Some(" ++ quoted v.identifier ++ "),\n"

def enumText (ident : String) (number : Scalar) (values : List NamedValue) : String :=
  "#[derive(Debug, Clone, Copy, Default, PartialEq, Eq, PartialOrd, Ord, Hash, " ++
    "Serialize, Deserialize)]\n" ++
    "#[serde(transparent)]\n" ++
    "pub struct " ++ ident ++ "(pub " ++ number.enumPrimitive ++ ");\n\n" ++
    "impl " ++ ident ++ " \x7b\n" ++
    String.join (values.map constantText) ++
    (if values.isEmpty then "" else "\n") ++
    "    /// Identifier of a declared value.\n" ++
    "    pub fn name(self) -> Option<&'static str> \x7b\n" ++
    "        match self.0 \x7b\n" ++
    String.join ((distinctLiterals [] values).map armText) ++
    "            _ => None,\n        \x7d\n    \x7d\n\x7d\n\n" ++
    "impl fmt::Display for " ++ ident ++ " \x7b\n" ++
    "    fn fmt(&self, f: &mut fmt::Formatter<'_>) -> fmt::Result \x7b\n" ++
    "        write!(f, \"\x7b\x7d\", self.0)\n    \x7d\n\x7d\n\n" ++
    "impl BitmaskValue for " ++ ident ++ " \x7b\n" ++
    "    fn bits(self) -> u64 \x7b\n" ++
    "        self.0 as u64\n    \x7d\n\x7d\n"

end Emission

open Emission

def Declaration.text (d : Declaration) : String :=
  docComment d.description "" ++
    match d.shape with
    | .struct generic fields =>
      structText d.ident generic fields ++ (d.table.map (tableText d.ident)).getD ""
    | .openMap => "pub type " ++ d.ident ++ " = JsonMap;\n"
    | .alias type => "pub type " ++ d.ident ++ " = " ++ type.text ++ ";\n"
    | .enumeration number values => enumText d.ident number values

end Bindery
