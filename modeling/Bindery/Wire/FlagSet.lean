import Bindery.Wire

/-! # Sets of flags -/

namespace Bindery

open Json Text

/-- A type whose values are bits of a flag set, or unions of them. -/
class Flag (φ : Type) where
  bits : φ → UInt64

instance : Flag UInt64 := ⟨id⟩

/-- A set of at most 64 flags. -/
structure FlagSet (φ : Type) where
  bits : UInt64
deriving Repr

namespace FlagSet

variable {φ : Type}

instance : DecidableEq (FlagSet φ) := fun a b =>
  decidable_of_iff (a.bits = b.bits) (by cases a; cases b; simp)

def empty : FlagSet φ := ⟨0⟩

instance : Inhabited (FlagSet φ) := ⟨empty⟩

def isEmpty (s : FlagSet φ) : Bool := s.bits == 0

/-- Some bit of the value is set. -/
def has [Flag φ] (s : FlagSet φ) (v : φ) : Bool := s.bits &&& Flag.bits v != 0

def hasAll [Flag φ] (s : FlagSet φ) (vs : List φ) : Bool := vs.all s.has

def add [Flag φ] (s : FlagSet φ) (v : φ) : FlagSet φ := ⟨s.bits ||| Flag.bits v⟩

def remove [Flag φ] (s : FlagSet φ) (v : φ) : FlagSet φ := ⟨s.bits &&& ~~~Flag.bits v⟩

/-- Empties the set, whatever the value. -/
def clear (_ : FlagSet φ) (_ : φ) : FlagSet φ := empty

instance : LT (FlagSet φ) := ⟨fun a b => a.bits < b.bits⟩

instance : DecidableLT (FlagSet φ) := fun a b => inferInstanceAs (Decidable (a.bits < b.bits))

instance : KeyOrder (FlagSet φ) := ⟨fun h k => UInt64.lt_trans h k⟩

instance : Shown (FlagSet φ) := ⟨fun l s => l.integer s.bits.toNat⟩

def debug (s : FlagSet φ) : String :=
  "BitmaskSet(0x" ++ String.ofList (hexDigits s.bits.toNat) ++ ")"

def ofInt (i : Int) : FlagSet φ := ⟨UInt64.ofNat i.toNat⟩

instance : Wire (FlagSet φ) := ⟨fun s => .ofInt s.bits.toNat, .map ofInt .u64⟩

def key : Decoder.KeyDecoder (FlagSet φ) := fun content closed =>
  ofInt <$> Decoder.integerKey (.unsigned 64) "u64" content closed

instance {α : Type} [Wire α] : Wire (Dict (FlagSet φ) α) :=
  ⟨Wire.encodeDict shown, .dict key Wire.decode⟩

end FlagSet
end Bindery
