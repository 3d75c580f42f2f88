import Bindery.Text.Blank

/-! # Generic families

Schemas whose names begin alike are instances of one generic type. -/

namespace Bindery

open Text

/-- Where the type argument of a family's member comes from. -/
inductive ParamSource where
  /-- The rest of the name behind the marker. -/
  | suffix
  /-- The elements of the `results` array. -/
  | resultsElement
  /-- The `data` property. -/
  | dataProperty
deriving DecidableEq, Repr

structure Family where
  name : String
  /-- How the type names of members begin. -/
  markers : List String
  source : ParamSource
deriving DecidableEq, Repr

namespace Family

def all : List Family :=
  [⟨"BaseItemComponentSet", ["BaseItemComponentSetOf"], .suffix⟩,
   ⟨"ItemComponentSet", ["ItemComponentSetOf"], .suffix⟩,
   ⟨"VendorItemComponentSet", ["VendorItemComponentSetOf"], .suffix⟩,
   ⟨"VendorSaleItemSetComponent", ["VendorSaleItemSetComponentOf"], .suffix⟩,
   ⟨"SearchResult", ["SearchResultOf"], .resultsElement⟩,
   ⟨"ComponentResponse", ["SingleComponentResponseOf", "DictionaryComponentResponseOf"],
     .dataProperty⟩]

/-- The rest of a type name behind the first marker that it begins with, unless nothing is
left. -/
def suffix? (f : Family) (ident : String) : Option String :=
  match f.markers.findSome? fun m => dropPrefix? m.toList ident.toList with
  | some (c :: cs) => some (String.ofList (c :: cs))
  | _ => none

/-- The family that a type name belongs to, and the name's rest behind the marker. -/
def ofMember? (ident : String) : Option (Family × String) :=
  all.findSome? fun f => (f.suffix? ident).map (f, ·)

def ofName? (name : String) : Option Family := all.find? (·.name == name)

end Family
end Bindery
