import Bindery.Wire

/-! # Values that may be null, and time stamps -/

namespace Bindery

open Json Text

/-- A value that the wire may carry as `null`; a present zero is not an absent one. -/
structure Nullable (α : Type) where
  value : Option α
deriving DecidableEq, Repr

namespace Nullable

variable {α : Type}

def null : Nullable α := ⟨none⟩

def new (a : α) : Nullable α := ⟨some a⟩

def isNull (x : Nullable α) : Bool := x.value.isNone

instance : Inhabited (Nullable α) := ⟨null⟩

/-- The value, or the type's own default for null. -/
def orDefault [Inhabited α] (x : Nullable α) : α := x.value.getD default

instance [Wire α] : Wire (Nullable α) :=
  ⟨fun x => .ofOption Wire.encode x.value, .map Nullable.mk (.option Wire.decode)⟩

/-- A column leaves the word for null as it is. -/
instance [Shown α] : Shown (Nullable α) :=
  ⟨fun l x => match x.value with
    | none => "null".toList
    | some a => Shown.fit l a⟩

end Nullable

/-- A date and time as it was received. -/
structure Timestamp where
  text : String
deriving DecidableEq, Repr, Inhabited

namespace Timestamp

instance : Wire Timestamp := ⟨fun t => .ofString t.text, .map Timestamp.mk .string⟩

instance : Shown Timestamp := ⟨fun _ t => t.text.toList⟩

end Timestamp
end Bindery
