import Bindery.Json.Value
import Bindery.Text.Layout

/-! # Types that travel as JSON and are shown as text -/

namespace Bindery

open Json Text

/-- A type with a form on the wire. -/
class Wire (α : Type) where
  encode : α → Tree
  decode : Decoder α

/-- A type that is written into requests and messages, fitted into a column. -/
class Shown (α : Type) where
  fit : Layout → α → List Char

def shown {α : Type} [Shown α] (a : α) : String := String.ofList (Shown.fit {} a)

/-- The values of a list between commas, as parameters carry them. -/
def joined {α : Type} [Shown α] (xs : List α) : String := ",".intercalate (xs.map shown)

namespace Wire

instance : Wire String := ⟨.ofString, .string⟩

instance : Wire Bool := ⟨.bool, .bool⟩

instance : Wire UInt8 := ⟨fun n => .ofInt n.toNat, .u8⟩

instance : Wire UInt32 := ⟨fun n => .ofInt n.toNat, .u32⟩

instance : Wire Int32 := ⟨fun i => .ofInt i.toInt, .map Int32.ofInt .i32⟩

instance {α : Type} [Wire α] : Wire (List α) := ⟨fun xs => .ofList (xs.map encode), .list decode⟩

instance : Wire Value := ⟨Value.encode, Value.decode⟩

instance : Wire RawText := ⟨RawText.encode, RawText.decode⟩

/-- The values of a map under the texts of their keys. -/
def encodeDict {κ α : Type} [LT κ] [Wire α] (key : κ → String) (d : Dict κ α) : Tree :=
  .ofEntries (d.entries.map fun e => (key e.1, encode e.2))

instance {α : Type} [Wire α] : Wire (TextDict α) := ⟨encodeDict id, .textDict decode⟩

end Wire

instance : Shown String := ⟨fun l s => l.text s.toList⟩

instance : Shown Bool := ⟨fun l b => l.text (if b then "true".toList else "false".toList)⟩

instance : Shown Int32 := ⟨fun l i => l.integer i.toInt⟩

instance : Shown UInt32 := ⟨fun l n => l.integer n.toNat⟩

instance : Shown UInt64 := ⟨fun l n => l.integer n.toNat⟩

instance : Shown Decimal.Binary64 := ⟨Layout.double⟩

end Bindery
