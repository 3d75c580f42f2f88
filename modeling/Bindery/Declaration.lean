import Bindery.Text.Integer
import Bindery.TypeExpr

/-! # Type declarations -/

namespace Bindery

open Text

structure Field where
  /-- The name on the wire. -/
  wireName : String
  name : String
  type : TypeExpr
  description : Option String
deriving DecidableEq, Repr

/-- One named value of an enumeration. -/
structure NamedValue where
  identifier : String
  constant : String
  /-- The text of a whole number. -/
  literal : String
  description : Option String
deriving DecidableEq, Repr

inductive Shape where
  /-- A generic struct has one type variable. -/
  | struct (generic : Bool) (fields : List Field)
  /-- An object of any members. -/
  | openMap
  | alias (type : TypeExpr)
  /-- Numbers of one kind, some of which have names. -/
  | enumeration (number : Scalar) (values : List NamedValue)
deriving DecidableEq, Repr

structure Declaration where
  ident : String
  /-- The name of the schema that it is made from. -/
  schema : String
  description : Option String
  shape : Shape
  /-- The definition table whose records have this type. -/
  table : Option String
deriving DecidableEq, Repr

/-- The numbers of an enumeration; where the kind is no whole number they are 32-bit ones. -/
def Scalar.enumRange : Scalar → IntegerRange
  | .u8 => .unsigned 8
  | .i16 => .signed 16
  | .u32 => .unsigned 32
  | .i64 => .signed 64
  | _ => .signed 32

/-- The primitive type of an enumeration's numbers. Other than in fields, 64-bit ones are plain. -/
def Scalar.enumPrimitive : Scalar → String
  | .u8 => "u8"
  | .i16 => "i16"
  | .u32 => "u32"
  | .i64 => "i64"
  | _ => "i32"

end Bindery
