/-! # Types of fields, parameters and payloads -/

namespace Bindery

inductive Scalar where
  | string
  | bool
  | u8
  | i16
  | i32
  | u32
  /-- Travels in quotes. -/
  | i64
  | f32
  | f64
deriving DecidableEq, Repr

inductive TypeExpr where
  | scalar (k : Scalar)
  | timestamp
  /-- An object of any members. -/
  | json
  /-- A declared type. -/
  | named (ident : String)
  /-- The variable of a generic declaration. -/
  | param
  /-- A generic declaration applied to an argument. -/
  | generic (family : String) (arg : TypeExpr)
  | list (inner : TypeExpr)
  | map (key value : TypeExpr)
  | nullable (inner : TypeExpr)
  /-- A key into the table of the named record type. -/
  | hashRef (ident : String)
  /-- A set of flags of the named enumeration. -/
  | bitmask (ident : String)
deriving DecidableEq, Repr, Inhabited

namespace TypeExpr

/-- The declared names that a type mentions, from left to right. -/
def dependencies : TypeExpr → List String
  | .named ident | .hashRef ident | .bitmask ident => [ident]
  | .generic family arg => family :: arg.dependencies
  | .list inner | .nullable inner => inner.dependencies
  | .map key value => key.dependencies ++ value.dependencies
  | .scalar _ | .timestamp | .json | .param => []

/-- Puts one type for every occurrence of another; what is put in is not searched. -/
def substitute (t target replacement : TypeExpr) : TypeExpr :=
  if t = target then replacement
  else match t with
    | .generic family arg => .generic family (arg.substitute target replacement)
    | .list inner => .list (inner.substitute target replacement)
    | .nullable inner => .nullable (inner.substitute target replacement)
    | .map key value =>
      .map (key.substitute target replacement) (value.substitute target replacement)
    | t => t

def isNullable : TypeExpr → Bool
  | .nullable _ => true
  | _ => false

def isParam : TypeExpr → Bool
  | .param => true
  | _ => false

def isList : TypeExpr → Bool
  | .list _ => true
  | _ => false

/-- Whether the type variable is the key of a map somewhere inside. -/
def hasParamKey : TypeExpr → Bool
  | .map key value => key.isParam || key.hasParamKey || value.hasParamKey
  | .generic _ arg => arg.hasParamKey
  | .list inner | .nullable inner => inner.hasParamKey
  | _ => false

end TypeExpr
end Bindery
