import Bindery.TypeExpr

/-! # Types as generated source names them -/

namespace Bindery

def Scalar.text : Scalar → String
  | .string => "String"
  | .bool => "bool"
  | .u8 => "u8"
  | .i16 => "i16"
  | .i32 => "i32"
  | .u32 => "u32"
  | .i64 => "Int64"
  | .f32 => "f32"
  | .f64 => "f64"

def TypeExpr.text : TypeExpr → String
  | .scalar k => k.text
  | .timestamp => "Timestamp"
  | .json => "JsonMap"
  | .named ident => ident
  | .param => "T"
  | .generic family arg => family ++ "<" ++ arg.text ++ ">"
  | .list inner => "Vec<" ++ inner.text ++ ">"
  | .map key value => "HashMap<" ++ key.text ++ ", " ++ value.text ++ ">"
  | .nullable inner => "Nullable<" ++ inner.text ++ ">"
  | .hashRef ident => "HashRef<" ++ ident ++ ">"
  | .bitmask ident => "BitmaskSet<" ++ ident ++ ">"

end Bindery
