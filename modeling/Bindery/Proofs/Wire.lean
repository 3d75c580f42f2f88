import Bindery.Definitions.Manifest
import Bindery.Proofs.Json.Decoding
import Bindery.Wire.Envelope
import Bindery.Wire.FlagSet
import Bindery.Wire.HashRef
import Bindery.Wire.Nullable
import Bindery.Wire.QuotedInt

/-! # What travels comes back

Every value of a type that is built from the types of the wire is decoded again from the text that it is
encoded as, but for the received bodies of envelopes (`WireType.runWithin_text_encode`). -/

namespace Bindery

open Json Json.Decoder Text

/-! ## Scalars -/

theorem dropWhile_of_not_mem {x : Char} {cs : List Char} (h : x ∉ cs) : cs.dropWhile (· == x) = cs := by
  rcases cs with _ | ⟨c, cs⟩
  · rfl
  · rw [List.dropWhile_cons_of_neg]
    exact fun heq => h (beq_iff_eq.mp heq ▸ List.mem_cons_self)

theorem trimChar_of_not_mem {x : Char} {cs : List Char} (h : x ∉ cs) : trimChar x cs = cs := by
  rw [trimChar, dropWhile_of_not_mem h, dropWhile_of_not_mem (by rwa [List.mem_reverse]), List.reverse_reverse]

instance : Std.Irrefl (α := QuotedInt) (· < ·) := ⟨fun q => Int.lt_irrefl q.val⟩

namespace QuotedInt

theorem trimChar_quote_decimalChars (i : Int) : trimChar '"' (decimalChars i) = decimalChars i := by
  refine trimChar_of_not_mem fun hmem => ?_
  rcases isDigit_or_minus_of_mem_decimalChars hmem with h | h <;> exact absurd h (by decide)

theorem ofString_text (q : QuotedInt) : ofString q.text = .ok q := by
  have hread : readInteger range (decimalChars q.val) = .ok q.val :=
    readInteger_decimalChars (by decide) q.inRange
  have hint : ofInt? q.val = some q := dif_pos q.inRange
  rw [ofString, ofText, text, decimal, String.toList_ofList, trimChar_quote_decimalChars, hread]
  simp only [hint]

theorem undoes : (Wire.decode : Decoder QuotedInt).Undoes Wire.encode id where
  isPrinted q := .string q.text
  decode n q := by
    have hdecode : QuotedInt.decode n (.string (escape q.text)) = .ok q := by
      rw [QuotedInt.decode, stringText_escape]
      simp only [bind, Except.bind, ofString_text]
    exact hdecode.trans (within_zero n q).symm

theorem key_escape (q : QuotedInt) : key (escape q.text) true = .ok q := by
  rw [key, Decoder.textKey, stringText_escape]
  simp only [bind, Except.bind, ofString_text]

end QuotedInt

/-- A type whose values stand for the numbers of a range that 64 bits hold. -/
theorem undoes_integer {α : Type} {range : IntegerRange} (hleast : -(2 ^ 63) ≤ range.least)
    (hgreatest : range.greatest < 2 ^ 64) {f : Int → α} {g : α → Int}
    (hg : ∀ a, range.contains (g a) = true) (hf : ∀ a, f (g a) = a) (name : String) :
    Decoder.Undoes (fun n t => f <$> Decoder.integer range name n t) (fun a => .ofInt (g a)) id where
  isPrinted a := .number (g a)
  decode n a := by
    rw [Undoes.integer_ofInt hleast hgreatest (hg a)]
    exact (congrArg Except.ok (hf a)).trans (within_zero n a).symm

theorem undoes_int32 : (Wire.decode : Decoder Int32).Undoes Wire.encode id :=
  undoes_integer (by decide) (by decide)
    (fun i => contains_iff.mpr ⟨i.le_toInt, Int.le_sub_one_of_lt i.toInt_lt⟩) Int32.ofInt_toInt "i32"

theorem contains_unsigned {bits n : Nat} (h : n < 2 ^ bits) :
    (IntegerRange.unsigned bits).contains n = true :=
  contains_iff.mpr ⟨Int.natCast_nonneg n, Int.le_sub_one_of_lt (Int.ofNat_lt.mpr h)⟩

theorem undoes_u32 : Decoder.u32.Undoes (fun n : UInt32 => .ofInt n.toNat) id :=
  undoes_integer (by decide) (by decide) (fun n => contains_unsigned n.toNat_lt)
    (fun n => by rw [Int.toNat_natCast, UInt32.ofNat_toNat]) "u32"

/-- Without a layout a number is shown with its digits alone. -/
theorem shown_integer (n : Nat) : String.ofList (Layout.integer {} n) = decimal n := by
  have hneg : ¬ (n : Int) < 0 := by omega
  simp [Layout.integer, Layout.signed, Layout.pad, decimal, decimalChars, hneg]

theorem integerKey_escape {range : IntegerRange} (hleast : -(2 ^ 63) ≤ range.least)
    (hgreatest : range.greatest < 2 ^ 64) {i : Int} (h : range.contains i = true) (name : String) :
    Decoder.integerKey range name (escape (decimal i)) true = .ok i := by
  have hread := readNumber_decimalChars i (s := []) trivial
  rw [List.append_nil] at hread
  rw [Decoder.integerKey, escape_decimal, hread]
  have hinteger := Undoes.integer_ofInt hleast hgreatest h name 0
  rw [Tree.ofInt] at hinteger
  simp only [hinteger]
  rfl

namespace HashRef

variable {ρ : Type}

instance : Std.Irrefl (α := HashRef ρ) (· < ·) := ⟨fun h => UInt32.lt_irrefl h.hash⟩

theorem undoes : (Wire.decode : Decoder (HashRef ρ)).Undoes Wire.encode id :=
  undoes_u32.map (g := hash) fun _ => rfl

theorem key_escape (h : HashRef ρ) : key (escape (shown h)) true = .ok h := by
  have hinteger := integerKey_escape (by decide) (by decide) (contains_unsigned h.hash.toNat_lt) "u32"
  rw [shown, show Shown.fit {} h = Layout.integer {} h.hash.toNat by rfl, shown_integer, key, hinteger]
  exact congrArg (fun n => Except.ok (HashRef.mk n)) (by rw [Int.toNat_natCast, UInt32.ofNat_toNat])

end HashRef

theorem FlagSet.undoes {φ : Type} : (Wire.decode : Decoder (FlagSet φ)).Undoes Wire.encode id :=
  undoes_integer (by decide) (by decide) (fun s => contains_unsigned s.bits.toNat_lt)
    (fun s => by rw [FlagSet.ofInt, Int.toNat_natCast, UInt64.ofNat_toNat]) "u64"

theorem Timestamp.undoes : (Wire.decode : Decoder Timestamp).Undoes Wire.encode id :=
  Undoes.string.map (g := Timestamp.text) fun _ => rfl

/-! ## Containers -/

section Containers

variable {α : Type} [Wire α] {reset : α → α}

theorem undoes_list (h : (Wire.decode : Decoder α).Undoes Wire.encode reset) :
    (Wire.decode : Decoder (List α)).Undoes Wire.encode (List.map reset) := h.list

theorem undoes_textDict (h : (Wire.decode : Decoder α).Undoes Wire.encode reset) :
    (Wire.decode : Decoder (TextDict α)).Undoes Wire.encode (Dict.mapValues reset) :=
  h.dict stringText_escape

theorem QuotedInt.undoes_dict (h : (Wire.decode : Decoder α).Undoes Wire.encode reset) :
    (Wire.decode : Decoder (Dict QuotedInt α)).Undoes Wire.encode (Dict.mapValues reset) :=
  h.dict QuotedInt.key_escape

theorem HashRef.undoes_dict {ρ : Type} (h : (Wire.decode : Decoder α).Undoes Wire.encode reset) :
    (Wire.decode : Decoder (Dict (HashRef ρ) α)).Undoes Wire.encode (Dict.mapValues reset) :=
  h.dict HashRef.key_escape

/-- The value in a nullable one is changed. -/
def Nullable.map (f : α → α) (x : Nullable α) : Nullable α := ⟨x.value.map f⟩

theorem Nullable.undoes (h : (Wire.decode : Decoder α).Undoes Wire.encode reset)
    (hne : ∀ a : α, Wire.encode a ≠ .null) :
    (Wire.decode : Decoder (Nullable α)).Undoes Wire.encode (Nullable.map reset) :=
  (h.option hne).map (g := Nullable.value) fun _ => rfl

/-- What is left of an envelope when it has travelled. -/
def Envelope.carried (f : α → α) (e : Envelope α) : Envelope α :=
  { e with response := e.response.map f, raw := [] }

/-- The fields of an encoded envelope. -/
def Envelope.fieldValues (f : α → α) (e : Envelope α) : List (FieldValue (Envelope α)) :=
  [.defaulted "Response" (Wire.decode : Decoder α).option (.ofOption Wire.encode) (Option.map f)
      (fun x e => { e with response := x }) e.response,
    .defaulted "ErrorCode" Wire.decode Wire.encode id (fun x e => { e with errorCode := x }) e.errorCode,
    .defaulted "ThrottleSeconds" Wire.decode Wire.encode id
      (fun x e => { e with throttleSeconds := x }) e.throttleSeconds,
    .defaulted "ErrorStatus" .string .ofString id (fun x e => { e with errorStatus := x }) e.errorStatus,
    .defaulted "Message" .string .ofString id (fun x e => { e with message := x }) e.message,
    .defaulted "MessageData" (.textDict .string) Wire.encode (Dict.mapValues id)
      (fun x e => { e with messageData := x }) e.messageData,
    .defaulted "DetailedErrorTrace" .string .ofString id
      (fun x e => { e with detailedErrorTrace := x }) e.detailedErrorTrace]

theorem Envelope.undone_of_mem_fieldValues (h : (Wire.decode : Decoder α).Undoes Wire.encode reset)
    (hne : ∀ a : α, Wire.encode a ≠ .null) (e : Envelope α) : ∀ p ∈ e.fieldValues reset, p.Undone := by
  have htexts : (Wire.decode : Decoder (TextDict String)).Undoes Wire.encode (Dict.mapValues id) :=
    undoes_textDict Undoes.string
  simp only [fieldValues, List.forall_mem_cons, List.not_mem_nil, false_implies, implies_true, and_true]
  exact ⟨(h.option hne).fieldValue _ _ _, undoes_int32.fieldValue _ _ _, undoes_int32.fieldValue _ _ _,
    Undoes.string.fieldValue _ _ _, Undoes.string.fieldValue _ _ _, htexts.fieldValue _ _ _,
    Undoes.string.fieldValue _ _ _⟩

theorem Envelope.undoes (h : (Wire.decode : Decoder α).Undoes Wire.encode reset)
    (hne : ∀ a : α, Wire.encode a ≠ .null) :
    (Wire.decode : Decoder (Envelope α)).Undoes Wire.encode (Envelope.carried reset) where
  isPrinted e := isPrinted_ofEntries (e.undone_of_mem_fieldValues h hne)
  decode n e := by
    have hfields : ∀ f ∈ (e.fieldValues reset).map FieldValue.field, f.absence = .anywhere := by
      simp [fieldValues, FieldValue.defaulted, Field.defaulted]
    have hknown : ∀ p ∈ e.fieldValues reset,
        ((e.fieldValues reset).map FieldValue.field).find? (·.hasName p.field.name) = some p.field := by
      simp [fieldValues, FieldValue.defaulted, Field.defaulted, Field.hasName]
    have hnames : ((e.fieldValues reset).map (·.field.name)).Nodup := by
      simp [fieldValues, FieldValue.defaulted, Field.defaulted]
    have hresult : (e.fieldValues reset).foldl (fun acc p => p.set acc) {} = e.carried reset := by
      rw [fieldValues, Dict.mapValues_id]
      rfl
    rw [← hresult]
    exact struct_ofEntries hfields hknown (e.undone_of_mem_fieldValues h hne) hnames "Envelope" {} n

end Containers

/-! ## Manifests -/

namespace Definitions.Manifest

/-- The fields of an encoded manifest. -/
def fieldValues (m : Manifest) : List (FieldValue Manifest) :=
  [.defaulted "version" .string .ofString id (fun x m => { m with version := x }) m.version,
    { FieldValue.defaulted pathsName Wire.decode Wire.encode (Dict.mapValues (Dict.mapValues id))
        (fun x m => { m with paths := x }) m.paths with field := pathsField }]

theorem undone_of_mem_fieldValues (m : Manifest) : ∀ p ∈ m.fieldValues, p.Undone := by
  have hpaths : (Wire.decode : Decoder (TextDict (TextDict String))).Undoes Wire.encode
      (Dict.mapValues (Dict.mapValues id)) := undoes_textDict (undoes_textDict Undoes.string)
  have hpart := hpaths.fieldValue pathsName (fun x m => ({ m with paths := x } : Manifest)) m.paths
  simp only [fieldValues, List.forall_mem_cons, List.not_mem_nil, false_implies, implies_true, and_true]
  exact ⟨Undoes.string.fieldValue _ _ _, hpart.isPrinted, hpart.read⟩

theorem undoes : (Wire.decode : Decoder Manifest).Undoes Wire.encode id where
  isPrinted m := isPrinted_ofEntries m.undone_of_mem_fieldValues
  decode n m := by
    have hfields : ∀ f ∈ m.fieldValues.map FieldValue.field, f.absence = .anywhere := by
      simp [fieldValues, FieldValue.defaulted, Field.defaulted, pathsField]
    have hknown : ∀ p ∈ m.fieldValues,
        (m.fieldValues.map FieldValue.field).find? (·.hasName p.field.name) = some p.field := by
      simp [fieldValues, FieldValue.defaulted, Field.defaulted, Field.hasName, pathsField, pathsName]
    have hnames : (m.fieldValues.map (·.field.name)).Nodup := by
      simp [fieldValues, FieldValue.defaulted, Field.defaulted, pathsField, pathsName]
    have hresult : m.fieldValues.foldl (fun acc p => p.set acc) {} = m := by
      rw [fieldValues, Dict.mapValues_id, Dict.mapValues_id]
      rfl
    refine (struct_ofEntries hfields hknown m.undone_of_mem_fieldValues hnames "Manifest" {} n).trans ?_
    rw [hresult]
    rfl

end Definitions.Manifest

/-! ## All types -/

/-- A type of values that travel, built from the inside out. -/
inductive WireType : Type 1 where
  | int64
  | hashRef (ρ : Type)
  | flagSet (φ : Type)
  | timestamp
  | manifest
  | list (t : WireType)
  | textDict (t : WireType)
  | intDict (t : WireType)
  | hashDict (ρ : Type) (t : WireType)
  | nullable (t : WireType)
  | envelope (t : WireType)

namespace WireType

def Carrier : WireType → Type
  | int64 => QuotedInt
  | hashRef ρ => HashRef ρ
  | flagSet φ => FlagSet φ
  | timestamp => Timestamp
  | manifest => Definitions.Manifest
  | list t => List t.Carrier
  | textDict t => TextDict t.Carrier
  | intDict t => Dict QuotedInt t.Carrier
  | hashDict ρ t => Dict (HashRef ρ) t.Carrier
  | nullable t => Nullable t.Carrier
  | envelope t => Envelope t.Carrier

instance wire : (t : WireType) → Wire t.Carrier
  | int64 => inferInstanceAs (Wire QuotedInt)
  | hashRef ρ => inferInstanceAs (Wire (HashRef ρ))
  | flagSet φ => inferInstanceAs (Wire (FlagSet φ))
  | timestamp => inferInstanceAs (Wire Timestamp)
  | manifest => inferInstanceAs (Wire Definitions.Manifest)
  | list t => have := t.wire; inferInstanceAs (Wire (List t.Carrier))
  | textDict t => have := t.wire; inferInstanceAs (Wire (TextDict t.Carrier))
  | intDict t => have := t.wire; inferInstanceAs (Wire (Dict QuotedInt t.Carrier))
  | hashDict ρ t => have := t.wire; inferInstanceAs (Wire (Dict (HashRef ρ) t.Carrier))
  | nullable t => have := t.wire; inferInstanceAs (Wire (Nullable t.Carrier))
  | envelope t => have := t.wire; inferInstanceAs (Wire (Envelope t.Carrier))

/-- Null stands for one thing only: nothing that may be null or missing is encoded as null itself. -/
def Sound : WireType → Prop
  | int64 | hashRef _ | flagSet _ | timestamp | manifest => True
  | list t | textDict t | intDict t | hashDict _ t => t.Sound
  | nullable t | envelope t => (∀ a : t.Carrier, Wire.encode a ≠ .null) ∧ t.Sound

/-- What is left of a value when it has travelled: all but the received bodies of its envelopes. -/
def carried : (t : WireType) → t.Carrier → t.Carrier
  | int64 | hashRef _ | flagSet _ | timestamp | manifest => id
  | list t => List.map t.carried
  | textDict t | intDict t | hashDict _ t => Dict.mapValues t.carried
  | nullable t => Nullable.map t.carried
  | envelope t => Envelope.carried t.carried

theorem undoes : {t : WireType} → t.Sound →
    (Wire.decode : Decoder t.Carrier).Undoes Wire.encode t.carried
  | int64, _ => QuotedInt.undoes
  | hashRef _, _ => HashRef.undoes
  | flagSet _, _ => FlagSet.undoes
  | timestamp, _ => Timestamp.undoes
  | manifest, _ => Definitions.Manifest.undoes
  | list _, h => undoes_list (undoes h)
  | textDict _, h => undoes_textDict (undoes h)
  | intDict _, h => QuotedInt.undoes_dict (undoes h)
  | hashDict _ _, h => HashRef.undoes_dict (undoes h)
  | nullable _, h => Nullable.undoes (undoes h.2) h.1
  | envelope _, h => Envelope.undoes (undoes h.2) h.1

/-- Only a nullable value can be encoded as null. -/
theorem encode_ne_null_iff (t : WireType) :
    (∀ a : t.Carrier, Wire.encode a ≠ .null) ↔ ∀ t', t ≠ nullable t' := by
  constructor
  · rintro h t' rfl
    exact h Nullable.null rfl
  · intro h a
    cases t with
    | nullable t' => exact absurd rfl (h t')
    | _ => exact nofun

/-- The text of every value decodes to what travels of it, however its type is nested.  Only the bound on
the nesting of a text can prevent it, and does so exactly beyond the depth of the value; the bound of the
program itself is `nesting`. -/
theorem runWithin_text_encode {t : WireType} (h : t.Sound) (a : t.Carrier) (n : Nat) :
    (Wire.decode : Decoder t.Carrier).runWithin n (chars (Wire.encode a).text) =
      if (Wire.encode a).depth ≤ n then .ok (t.carried a) else .error .malformed :=
  (undoes h).runWithin_text n a

/-- Numbers under references, each of which may be null, in an envelope. -/
def tallies : WireType := envelope (hashDict Unit (list (nullable int64)))

def tally (raw : List UInt8) : tallies.Carrier :=
  { response := some ⟨[(⟨5⟩, [⟨some ⟨-7, by decide⟩⟩, ⟨none⟩])], List.pairwise_singleton _ _⟩
    errorCode := 1
    raw : Envelope (Dict (HashRef Unit) (List (Nullable QuotedInt))) }

theorem runWithin_text_encode_tally :
    (Wire.decode : Decoder tallies.Carrier).runText (Wire.encode (tally [123, 125])).text =
      .ok (tally []) := by
  have hint : ∀ q : int64.Carrier, Wire.encode q ≠ .null := (encode_ne_null_iff int64).mpr nofun
  have hdict : ∀ d : (hashDict Unit (list (nullable int64))).Carrier, Wire.encode d ≠ .null :=
    (encode_ne_null_iff _).mpr nofun
  have hsound : tallies.Sound := ⟨hdict, hint, trivial⟩
  have hdepth : (Wire.encode (tally [123, 125])).depth ≤ nesting := by decide
  have hcarried : tallies.carried (tally [123, 125]) = tally [] := rfl
  exact ((runWithin_text_encode hsound _ nesting).trans (if_pos hdepth)).trans (congrArg _ hcarried)

end WireType

end Bindery
