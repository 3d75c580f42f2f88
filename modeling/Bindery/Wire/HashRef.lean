import Bindery.Wire

/-! # References into definition tables -/

namespace Bindery

open Json Text

/-- A record type that a definition table holds. -/
class Definition (ρ : Type) where
  /-- The name of the table in the content manifest. -/
  table : String
  decode : Decoder ρ

/-- The hash of one record of a table. -/
structure HashRef (ρ : Type) where
  hash : UInt32
deriving Repr

namespace HashRef

variable {ρ : Type}

instance : DecidableEq (HashRef ρ) := fun a b =>
  decidable_of_iff (a.hash = b.hash) (by cases a; cases b; simp)

instance : Inhabited (HashRef ρ) := ⟨⟨0⟩⟩

def table [Definition ρ] (_ : HashRef ρ) : String := Definition.table ρ

instance : LT (HashRef ρ) := ⟨fun a b => a.hash < b.hash⟩

instance : DecidableLT (HashRef ρ) := fun a b => inferInstanceAs (Decidable (a.hash < b.hash))

instance : KeyOrder (HashRef ρ) := ⟨fun h k => UInt32.lt_trans h k⟩

instance : Shown (HashRef ρ) := ⟨fun l h => l.integer h.hash.toNat⟩

def debug (h : HashRef ρ) : String := "HashRef(" ++ shown h ++ ")"

instance : Wire (HashRef ρ) := ⟨fun h => .ofInt h.hash.toNat, .map HashRef.mk .u32⟩

def key : Decoder.KeyDecoder (HashRef ρ) := fun content closed =>
  (fun i => ⟨UInt32.ofNat i.toNat⟩) <$> Decoder.integerKey (.unsigned 32) "u32" content closed

instance {α : Type} [Wire α] : Wire (Dict (HashRef ρ) α) :=
  ⟨Wire.encodeDict shown, .dict key Wire.decode⟩

end HashRef
end Bindery
