import Bindery.Proofs.Enumerations
import Bindery.Wire.QuotedInt

/-! # Enumerations in place

A schema with named values can be declared and referred to, or stand where its values do.  What is
declared is an enumeration whose numbers have the kind of the schema's format, and this looks at no
type; in place the schema has a scalar type, which depends on its type as well.  So the two have
one kind exactly if the schema's type is that of whole numbers, or of numbers while a format says
which (`Scope.inlined_iff`).  The schemas where they differ are declared all the same. -/

namespace Bindery

open Document Json

/-! ## Numbers on the wire -/

namespace Scalar

/-- What is read where whole numbers of a kind stand.  64-bit ones travel in quotes. -/
def decoder? : Scalar → Option (Decoder Int)
  | .u8 => some (.integer (.unsigned 8) "u8")
  | .i16 => some (.integer (.signed 16) "i16")
  | .i32 => some .i32
  | .u32 => some (.integer (.unsigned 32) "u32")
  | .i64 => some (.map QuotedInt.val Wire.decode)
  | .string | .bool | .f32 | .f64 => none

/-- What is read for a declared enumeration, a number of its primitive type. -/
def enumDecoder (k : Scalar) : Decoder Int := .integer k.enumRange k.enumPrimitive

/-- Numbers of the kind are read in place as they are for an enumeration, but for those in quotes. -/
def ReadsAlike (k : Scalar) : Prop :=
  ∃ decoder, k.decoder? = some decoder ∧ ∀ n t, (∀ content, t ≠ Tree.string content) →
    (decoder n t).toOption = (k.enumDecoder n t).toOption

end Scalar

/-- Where no text stands a quoted number is read as a bare one. -/
theorem QuotedInt.toOption_decode {t : Tree} (h : ∀ content, t ≠ .string content) (n : Nat) :
    (Decoder.map QuotedInt.val QuotedInt.decode n t).toOption = (Decoder.i64 n t).toOption := by
  cases t with
  | number text =>
      rw [Decoder.map, QuotedInt.decode, Decoder.i64, Decoder.integer]
      cases numberValue text with
      | error e => rfl
      | ok number =>
          cases number with
          | double x => rfl
          | whole i =>
              by_cases hrange : (Text.IntegerRange.signed 64).contains i = true
              · simp only [bind, Except.bind, ofInt?, range, hrange, dif_pos, if_pos]
                rfl
              · simp only [bind, Except.bind, ofInt?, range, hrange]
                rfl
  | string content => exact absurd rfl (h content)
  | null | bool | broken => rfl
  | array | object => cases n <;> rfl

namespace Declaration

variable {k : Scalar}

/-- A kind that a format gives to an enumeration is the kind that it gives to numbers. -/
theorem lookup_of_enumNumber? {format : String} (h : enumNumber? (some format) = some k) :
    scalarType.numberFormats.lookup format = some k := by
  unfold enumNumber? at h
  split at h
  case h_7 => cases h
  all_goals rename_i heq
  all_goals cases heq
  all_goals exact h

theorem isSome_decoder?_of_enumNumber? {format : Option String} (h : enumNumber? format = some k) :
    k.decoder?.isSome := by
  unfold enumNumber? at h
  split at h
  case h_7 => cases h
  all_goals cases h
  all_goals rfl

theorem readsAlike_of_enumNumber? {format : Option String} (h : enumNumber? format = some k) :
    k.ReadsAlike := by
  cases k with
  | u8 | i16 | i32 | u32 => exact ⟨_, rfl, fun n t _ => rfl⟩
  | i64 => exact ⟨_, rfl, fun n t ht => QuotedInt.toOption_decode ht n⟩
  | string | bool | f32 | f64 => exact absurd (isSome_decoder?_of_enumNumber? h) (by decide)

end Declaration

/-- In place a schema with named values has the kind that its format gives to an enumeration exactly
if its type is one of numbers, and without a format of whole ones. -/
theorem scalarType_eq_ok_iff {s : Schema} {k : Scalar} (henum : s.isEnum)
    (hk : Declaration.enumNumber? s.format = some k) (context : String) :
    scalarType s context = .ok (.scalar k) ↔
      s.hasType "integer" ∨ s.hasType "number" ∧ s.format.isSome := by
  have hnot {name : String} (htype : s.type = some name) (hinteger : name ≠ "integer")
      (hnumber : name ≠ "number") : ¬ (s.hasType "integer" ∨ s.hasType "number" ∧ s.format.isSome) := by
    simp [Schema.hasType, htype, hinteger, hnumber]
  have hbool : k ≠ .bool := fun heq =>
    absurd (Declaration.isSome_decoder?_of_enumNumber? (heq ▸ hk)) (by decide)
  cases hformat : s.format with
  | none =>
      rw [hformat] at hk hnot
      obtain rfl := Option.some.inj hk
      simp only [scalarType, hformat, henum]
      split
      case h_1 htype _ => exact iff_of_false (by simp) (hnot htype (by decide) (by decide))
      case h_2 h => cases h
      case h_3 htype => exact iff_of_false (by simp) (hnot htype (by decide) (by decide))
      case h_4 h _ _ => cases h
      case h_5 => cases s.hasType "integer" <;> simp [scalarType.refused]
  | some format =>
      rw [hformat] at hk hnot
      have hlookup := Declaration.lookup_of_enumNumber? hk
      simp only [scalarType, hformat]
      split
      case h_1 h => cases h
      case h_2 htype _ => exact iff_of_false (by simp) (hnot htype (by decide) (by decide))
      case h_3 htype =>
        exact iff_of_false (by simpa using hbool.symm) (hnot htype (by decide) (by decide))
      case h_4 h _ _ =>
        cases h
        rw [hlookup]
        cases s.hasType "integer" <;> cases s.hasType "number" <;> simp [scalarType.refused]
      case h_5 h _ _ => cases h

namespace Document.Schema

/-- A schema of no more than a type, a format and named values: it points nowhere, wraps nothing and
has neither keys nor elements nor members. -/
structure IsPlain (s : Schema) : Prop where
  reference : s.reference = none
  dictionaryKey : s.dictionaryKey = none
  mappedDefinition : s.mappedDefinition = none
  alternative : s.singleAllOf? = none
  enumReference : s.enumReference = none
  not_array : ¬ s.hasType "array"
  not_object : ¬ s.hasType "object"

theorem IsPlain.form_eq {s : Schema} (h : s.IsPlain) : s.form none = .leaf .scalar := by
  simp only [form, leaf, h.reference, h.dictionaryKey, h.mappedDefinition, h.alternative,
    h.enumReference, if_neg h.not_array, if_neg h.not_object]
  rfl

theorem wrap_inj {s : Schema} {t t' : TypeExpr} : s.wrap t = s.wrap t' ↔ t = t' := by
  unfold wrap
  split <;> simp

end Document.Schema

namespace Scope

variable {scope : Scope}

theorem run_resolve_of_isPlain {s : Schema} (h : s.IsPlain) (context : String) (r : Resolver) :
    ((scope.resolve s context).run r).1 = s.wrap <$> scalarType s context := by
  rw [resolve, typeWith_eq, h.form_eq]
  dsimp only
  rw [map_liftExcept, run_liftExcept]
  rfl

/-- What a plain schema is declared as and what it is in place have the same numbers exactly if its
type is one of numbers, and without a format of whole ones.  What is read for the one is then read
for the other, but for numbers in quotes, which can only stand in place. -/
theorem inlined_iff {name : String} {s : Schema} {d : Declaration} {g g' : Generation} {k : Scalar}
    {values : List NamedValue} (hs : scope.document.components.schemas.find? name = some s)
    (hplain : s.IsPlain) (h : Returns (Declaration.ofSchema scope name) g d g')
    (hshape : d.shape = .enumeration k values) :
    (∀ context r, ((scope.resolve s context).run r).1 = .ok (s.wrap (.scalar k)) ↔
      s.hasType "integer" ∨ s.hasType "number" ∧ s.format.isSome) ∧ k.ReadsAlike := by
  obtain ⟨-, s', hs', henum, hk, -⟩ := Declaration.exists_of_ofSchema h hshape
  cases hs.symm.trans hs'
  refine ⟨fun context r => ?_, Declaration.readsAlike_of_enumNumber? hk⟩
  rw [run_resolve_of_isPlain hplain, ← scalarType_eq_ok_iff henum hk context, map_eq_ok]
  simp only [Schema.wrap_inj, exists_eq_right]

/-! ## Ranks and colors

Ranks are numbers and colors are texts. -/

def rankSchema : Schema where
  type := some "number"
  format := some "int64"
  enumValues := some [⟨"First", .text "1", none⟩]

def colorSchema : Schema where
  type := some "string"
  enumeration := some [.text "red", .text "green"]

def palette : Scope where
  document.components.schemas := Dict.ofList [("Color", colorSchema), ("Rank", rankSchema)]
  index.types := Dict.ofList [("Color", "Color"), ("Rank", "Rank")]

def rankDeclaration : Declaration where
  ident := "Rank"
  schema := "Rank"
  description := none
  shape := .enumeration .i64 [⟨"First", "FIRST", "1", none⟩]
  table := none

def colorDeclaration : Declaration where
  ident := "Color"
  schema := "Color"
  description := none
  shape := .enumeration .i32 []
  table := none

theorem isPlain_rank : rankSchema.IsPlain :=
  ⟨rfl, rfl, rfl, rfl, rfl, by decide, by decide⟩

theorem isPlain_color : colorSchema.IsPlain :=
  ⟨rfl, rfl, rfl, rfl, rfl, by decide, by decide⟩

theorem inlined_iff_rank :
    palette.document.components.schemas.find? "Rank" = some rankSchema ∧ rankSchema.IsPlain ∧
      (∃ g', Returns (Declaration.ofSchema palette "Rank") {} rankDeclaration g') ∧
      (∀ context r, ((palette.resolve rankSchema context).run r).1 =
        .ok (rankSchema.wrap (.scalar .i64))) ∧ Scalar.i64.ReadsAlike := by
  have hdeclared : ∃ g', Returns (Declaration.ofSchema palette "Rank") {} rankDeclaration g' :=
    ⟨_, Bindings.eq_ok_of_toOption (by decide +kernel), rfl⟩
  obtain ⟨g', hg'⟩ := hdeclared
  have hs : palette.document.components.schemas.find? "Rank" = some rankSchema := by rfl
  obtain ⟨hiff, hread⟩ := inlined_iff hs isPlain_rank hg' rfl
  have hnumber : rankSchema.hasType "number" ∧ rankSchema.format.isSome := by decide
  exact ⟨hs, isPlain_rank, ⟨g', hg'⟩, fun context r => (hiff context r).mpr (.inr hnumber), hread⟩

/-- A color is declared as a 32-bit number, while in place it is a text. -/
theorem not_inlined_color :
    Scope.ofDocument palette.document = .ok palette ∧
      palette.document.components.schemas.find? "Color" = some colorSchema ∧
      colorSchema.IsPlain ∧ colorSchema.nullable = false ∧
      (∃ g', Returns (Declaration.ofSchema palette "Color") {} colorDeclaration g') ∧
      colorDeclaration.shape = .enumeration .i32 [] ∧
      ∀ context r, ((palette.resolve colorSchema context).run r).1 = .ok (.scalar .string) ∧
        ((palette.resolve colorSchema context).run r).1 ≠ .ok (.scalar .i32) := by
  refine ⟨Bindings.scope_of_toOption palette (by decide +kernel), by rfl, isPlain_color, rfl,
    ⟨_, Bindings.eq_ok_of_toOption (by decide +kernel), rfl⟩, rfl, fun context r => ?_⟩
  have hresolve : ((palette.resolve colorSchema context).run r).1 = .ok (.scalar .string) :=
    run_resolve_of_isPlain isPlain_color context r
  rw [hresolve]
  exact ⟨rfl, by simp⟩

end Scope
end Bindery
