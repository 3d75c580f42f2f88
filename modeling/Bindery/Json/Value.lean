import Bindery.Json.Encode

/-! # Values of no particular type -/

namespace Bindery.Json

/-- Any JSON value. The members of an object stand in the order of their keys, each key once. -/
inductive Value where
  | null
  | bool (b : Bool)
  | number (n : Number)
  | string (s : String)
  | array (items : List Value)
  | object (members : List (String × Value))
deriving Repr, Inhabited

namespace Value

def text (s : String) : Value := .string s

def whole (i : Int) : Value := .number (.whole i)

/-- An object of the given members; of two with one key the later counts. -/
def ofMembers (ms : List (String × Value)) : Value := .object (Dict.ofList ms).entries

def member? (v : Value) (name : String) : Option Value :=
  match v with
  | .object ms => ms.lookup name
  | _ => none

def decode : Decoder Value
  | _, .null => .ok .null
  | _, .bool b => .ok (.bool b)
  | _, .number text => Value.number <$> numberValue text
  | _, .string content => Value.string <$> stringText content
  | 0, .array _ | 0, .object _ | _, .broken => .error .malformed
  | n + 1, .array its => Value.array <$> Decoder.items (decode n) its
  | n + 1, .object ms => ofMembers <$> Decoder.members Decoder.textKey (decode n) ms

mutual

def encode : Value → Tree
  | .null => .null
  | .bool b => .bool b
  | .number n => .number n.chars
  | .string s => .ofString s
  | .array vs => .array (encodeItems vs)
  | .object ms => .object (encodeMembers ms)

def encodeItems : List Value → Items
  | [] => .stop (.closed [])
  | v :: vs => .item [] (encode v) [] (encodeItems vs)

def encodeMembers : List (String × Value) → Members
  | [] => .stop (.closed [])
  | (k, v) :: ms => .member [] (escape k) [] [] (encode v) [] (encodeMembers ms)

end

/-- The text without blanks. -/
def compact (v : Value) : String := v.encode.text

end Value
end Bindery.Json
