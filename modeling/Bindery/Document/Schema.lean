import Bindery.Json.Value
import Bindery.Naming.TypeName
import Bindery.Text.Blank

/-! # Schemas of an API document

A schema node with the extensions that carry foreign keys, dictionary keys and the named values
of enumerations. -/

namespace Bindery.Document

open Json Text

/-- The number that a named value of an enumeration stands for, as the document writes it. -/
inductive EnumNumber where
  | text (s : String)
  | signed (i : Int)
  | unsigned (i : Int)
deriving DecidableEq, Repr

/-- Whether a text is a whole number of 64 bits, signed or not. -/
def isInteger64 (s : String) : Bool :=
  (readInteger? (.signed 64) s).isSome || (readInteger? (.unsigned 64) s).isSome

/-- The number as the text of a whole number, if it is one; white space around it is dropped. -/
def EnumNumber.literal? : EnumNumber → Option String
  | .text s =>
    let trimmed := String.ofList (trim s.toList)
    if isInteger64 trimmed then some trimmed else none
  | .signed i | .unsigned i => some (decimal i)

structure EnumValue where
  identifier : String
  number : EnumNumber
  description : Option String
deriving DecidableEq, Repr

/-- What an object may hold beside its declared properties. -/
inductive Additional (α : Type) where
  | flag (b : Bool)
  | schema (s : α)
deriving Repr

/-- A node of the document's type language. -/
structure Schema where
  type : Option String := none
  /-- Points to another schema, which then stands for this one. -/
  reference : Option String := none
  format : Option String := none
  description : Option String := none
  /-- In the order of their names. -/
  properties : List (String × Schema) := []
  items : Option Schema := none
  additional : Option (Additional Schema) := none
  allOf : Option (List Schema) := none
  enumeration : Option (List Value) := none
  nullable : Bool := false
  /-- The record type whose table the value is a key of. -/
  mappedDefinition : Option String := none
  /-- Makes the object a dictionary and describes its keys. -/
  dictionaryKey : Option Schema := none
  /-- The enumeration that the value's numbers belong to. -/
  enumReference : Option String := none
  enumIsBitmask : Bool := false
  enumValues : Option (List EnumValue) := none
deriving Repr

instance : Inhabited Schema := ⟨{}⟩

namespace Schema

def hasType (s : Schema) (name : String) : Bool := s.type == some name

/-- The reference of a list of exactly one alternative. -/
def singleAllOf? (s : Schema) : Option String :=
  match s.allOf with
  | some [only] => only.reference
  | _ => none

/-- The schema of a dictionary's values. -/
def additionalSchema? (s : Schema) : Option Schema :=
  match s.additional with
  | some (.schema v) => some v
  | _ => none

def isEnum (s : Schema) : Bool := s.enumeration.isSome || s.enumValues.isSome

def property? (s : Schema) (name : String) : Option Schema := s.properties.lookup name

theorem sizeOf_dictionaryKey_lt {s key : Schema} (h : s.dictionaryKey = some key) :
    sizeOf key < sizeOf s := by
  cases s
  cases h
  simp +arith

theorem sizeOf_additional_lt {s value : Schema} (h : s.additional = some (.schema value)) :
    sizeOf value < sizeOf s := by
  cases s
  cases h
  simp +arith

theorem sizeOf_items_lt {s items : Schema} (h : s.items = some items) :
    sizeOf items < sizeOf s := by
  cases s
  cases h
  simp +arith

end Schema

/-! ## Decoding -/

def EnumNumber.decode : Decoder EnumNumber :=
  .choice "NumericValue"
    [.map .text .string, .map .signed .i64, .map .unsigned .u64]

def EnumValue.decode : Decoder EnumValue :=
  .struct "EnumValueInfo" ⟨"", .signed 0, none⟩
    [.required "identifier" .string fun x v => { v with identifier := x },
     .required "numericValue" EnumNumber.decode fun x v => { v with number := x },
     .optional "description" .string fun x v => { v with description := x }]

/-- An object that holds a reference and nothing else. -/
def decodeReference : Decoder String :=
  .struct "RefObject" "" [.required "$ref" .string fun x _ => x]

namespace Schema

/-- The fields of a schema. Schemas that are fields are read by `self`, those one array or object
further in by `inner`. -/
def fields (self inner : Tree → Except DecodeError Schema) : List (Decoder.Field Schema) :=
  [.optional "type" .string fun x s => { s with type := x },
   .optional "$ref" .string fun x s => { s with reference := x },
   .optional "format" .string fun x s => { s with format := x },
   .optional "description" .string fun x s => { s with description := x },
   .defaulted "properties" (.textDict fun _ => inner) fun x s =>
     { s with properties := x.entries },
   .optional "items" (fun _ => self) fun x s => { s with items := x },
   .optional "additionalProperties"
     (.choice "AdditionalProperties" [.map .flag .bool, .map .schema fun _ => self])
     fun x s => { s with additional := x },
   .optional "allOf" (.list fun _ => inner) fun x s => { s with allOf := x },
   .optional "enum" (.list Value.decode) fun x s => { s with enumeration := x },
   .defaulted "nullable" .bool fun x s => { s with nullable := x },
   .optional "x-mapped-definition" decodeReference fun x s => { s with mappedDefinition := x },
   .optional "x-dictionary-key" (fun _ => self) fun x s => { s with dictionaryKey := x },
   .optional "x-enum-reference" decodeReference fun x s => { s with enumReference := x },
   .defaulted "x-enum-is-bitmask" .bool fun x s => { s with enumIsBitmask := x },
   .optional "x-enum-values" (.list EnumValue.decode) fun x s => { s with enumValues := x }]

/-- Reads nothing: no array or object may be entered here. -/
def unreachable : Tree → Except DecodeError Schema := fun _ => .error .malformed

def decode : Decoder Schema
  | 0, t => Decoder.struct "Schema" {} (fields unreachable unreachable) 0 t
  | 1, t => Decoder.struct "Schema" {} (fields (decode 0) unreachable) 1 t
  | n + 2, t => Decoder.struct "Schema" {} (fields (decode (n + 1)) (decode n)) (n + 2) t

end Schema
end Bindery.Document
