import Bindery.Proofs.Distinctness
import Bindery.Proofs.Identifiers
import Bindery.Proofs.Json.Numerals

/-! # The named values of an enumeration

Of the values that a document gives for an enumeration, each whose constant has a new name is
declared, with the text that the document has for its number (`Declaration.namedValues_declare`).
The constants are identifiers and differ from one another, and each text is a number within the
range of the enumeration's primitive type (`Declaration.exists_values`).

What is read as a number may begin with a plus sign, while the literals of generated source may not
(`Text.IsNumeral.isLiteral_iff`), so a text that does is declared and is no literal. -/

namespace Bindery

open Document Naming Text

/-! ## Numbers in a document -/

namespace Document

/-- The number is given as a text that begins with a plus sign. -/
def EnumNumber.HasPlus : EnumNumber → Prop
  | .text s => (trim s.toList).head? = some '+'
  | .signed _ | .unsigned _ => False

/-- The sign with which a number is given stays in its text, and no other text has one. -/
theorem EnumNumber.hasPlus_iff {number : EnumNumber} {literal : String}
    (h : number.literal? = some literal) : number.HasPlus ↔ literal.toList.head? = some '+' := by
  have hdecimal (i : Int) : (decimal i).toList.head? ≠ some '+' := by
    obtain ⟨c, cs, hchars, hc⟩ := exists_decimalChars_eq_cons i
    rw [decimal, String.toList_ofList, hchars, List.head?_cons]
    exact fun heq => ne_of_isDigit_or_minus hc (by decide) (Option.some.inj heq)
  cases number with
  | text s =>
      simp only [literal?, Option.ite_none_right_eq_some, Option.some.injEq] at h
      rw [HasPlus, ← h.2, String.toList_ofList]
  | signed i | unsigned i =>
      obtain rfl := Option.some.inj h
      exact iff_of_false id (hdecimal i)

end Document

/-! ## Values -/

/-- The numbers of a primitive type, by its name. -/
def primitiveRange? : String → Option IntegerRange
  | "u8" => some ⟨0, 255⟩
  | "i16" => some ⟨-32768, 32767⟩
  | "u32" => some ⟨0, 4294967295⟩
  | "i32" => some ⟨-2147483648, 2147483647⟩
  | "i64" => some ⟨-9223372036854775808, 9223372036854775807⟩
  | _ => none

theorem primitiveRange?_enumPrimitive (number : Scalar) :
    primitiveRange? number.enumPrimitive = some number.enumRange := by
  cases number <;> rfl

theorem contains_enumRange_zero (number : Scalar) : number.enumRange.contains 0 = true := by
  cases number <;> rfl

namespace Declaration

open Generation

/-- The declared value is made from one of a document.  Its text is a number of the enumeration's
primitive type, and it is a literal exactly if the document gives no plus sign. -/
structure NamedAfter (number : Scalar) (e : EnumValue) (v : NamedValue) : Prop where
  identifier : v.identifier = e.identifier
  description : v.description = e.description
  constant : v.constant = constantName e.identifier
  literal : e.number.literal? = some v.literal
  isNumeral : ∃ i range, IsNumeral v.literal.toList i ∧
    primitiveRange? number.enumPrimitive = some range ∧ range.least ≤ i ∧ i ≤ range.greatest
  isLiteral_iff : (∃ i, IsLiteral v.literal.toList i) ↔ ¬ e.number.HasPlus

theorem namedAfter_of_literalOf {schema literal : String} {number : Scalar} {e : EnumValue}
    (h : literalOf schema number e = .ok literal) :
    NamedAfter number e ⟨e.identifier, constantName e.identifier, literal, e.description⟩ := by
  simp only [literalOf] at h
  cases hliteral : e.number.literal? with
  | none => rw [hliteral] at h; cases h
  | some found =>
    simp only [hliteral] at h
    split at h
    · rename_i hread
      obtain rfl := Except.ok.inj h
      obtain ⟨i, hi⟩ := Option.isSome_iff_exists.mp hread
      obtain ⟨hnumeral, hrange⟩ := isNumeral_of_readInteger (contains_enumRange_zero number)
        (Bindings.eq_ok_of_toOption hi)
      exact {
        identifier := rfl
        description := rfl
        constant := rfl
        literal := hliteral
        isNumeral := ⟨i, _, hnumeral, primitiveRange?_enumPrimitive number, contains_iff.mp hrange⟩
        isLiteral_iff := by
          rw [EnumNumber.hasPlus_iff hliteral]
          exact ⟨fun ⟨_, hj⟩ => hj.head?_ne_plus, fun hplus => ⟨i, hnumeral.isLiteral_iff.mpr hplus⟩⟩ }
    · cases h

/-- The values are made from some of a list, and no two of them have one constant. -/
structure Named (number : Scalar) (es : List EnumValue) (vs : List NamedValue) : Prop where
  exists_of_mem {v : NamedValue} : v ∈ vs → ∃ e ∈ es, NamedAfter number e v
  nodup : (vs.map NamedValue.constant).Nodup

/-- One more value of a document is declared where its constant is new, and passed over where it is
not. -/
theorem namedValues_declare {schema : String} {number : Scalar} {all es : List EnumValue}
    {before vs : List NamedValue} {g g' : Generation} (hbefore : Named number all before)
    (hes : es ⊆ all) (h : Returns (namedValues schema number before es) g vs g') :
    Named number all vs := by
  induction es generalizing before g with
  | nil =>
      simp only [namedValues, returns_pure] at h
      exact h.1 ▸ hbefore
  | cons e es ih =>
      obtain ⟨he, hes⟩ := List.cons_subset.mp hes
      simp only [namedValues, returns_bind, returns_liftExcept] at h
      obtain ⟨literal, g₁, ⟨hliteral, rfl⟩, h⟩ := h
      split at h
      · simp only [returns_bind] at h
        obtain ⟨-, g₂, -, h⟩ := h
        exact ih hbefore hes h
      · rename_i hnew
        refine ih ?_ hes h
        exact {
          exists_of_mem := by
            intro v hv
            rcases List.mem_append.mp hv with hv | hv
            · exact hbefore.exists_of_mem hv
            · obtain rfl := List.mem_singleton.mp hv
              exact ⟨e, he, namedAfter_of_literalOf hliteral⟩
          nodup := Operation.nodup_map_concat hbefore.nodup hnew }

/-! ## Declarations -/

variable {scope : Scope} {g g' : Generation} {number : Scalar} {values : List NamedValue}

/-- A schema is declared as an enumeration only for its named values, with numbers of the kind that
its format has. -/
theorem exists_of_ofSchema {name : String} {d : Declaration}
    (h : Returns (ofSchema scope name) g d g') (hshape : d.shape = .enumeration number values) :
    d.schema = name ∧ ∃ s, scope.document.components.schemas.find? name = some s ∧ s.isEnum ∧
      enumNumber? s.format = some number ∧
      Returns (namedValues name number [] (s.enumValues.getD [])) g values g' := by
  obtain ⟨s, _, hs, hd, rfl⟩ := returns_ofSchema.mp h
  obtain rfl := hshape
  cases shaped_of_returns hd with
  | enumeration henum hnumber hvalues => exact ⟨rfl, s, hs, henum, hnumber, hvalues⟩

/-- Where a name is declared as an enumeration, its constants are identifiers that differ from one
another, and the text of each value is a number of the primitive type.  It is a literal unless the
document gives it a plus sign. -/
theorem exists_values {ident : String} {d : Declaration} (h : Returns (ofIdent scope ident) g d g')
    (hshape : d.shape = .enumeration number values) :
    ∃ s, scope.document.components.schemas.find? d.schema = some s ∧
      Named number (s.enumValues.getD []) values ∧ ∀ v ∈ values, IsIdentifier v.constant := by
  rcases returns_ofIdent.mp h with ⟨f, -, hfamily⟩ | ⟨-, name, -, hschema⟩
  · obtain ⟨_, _, _, _, _, _, _, _, -, -, -, -, -, -, rfl⟩ := returns_ofFamily.mp hfamily
    cases hshape
  · obtain ⟨rfl, s, hs, -, -, hvalues⟩ := exists_of_ofSchema hschema hshape
    have hnone : Named number (s.enumValues.getD []) [] :=
      ⟨fun hv => absurd hv List.not_mem_nil, List.nodup_nil⟩
    have hnamed := namedValues_declare hnone (List.Subset.refl _) hvalues
    refine ⟨s, hs, hnamed, fun v hv => ?_⟩
    obtain ⟨e, -, he⟩ := hnamed.exists_of_mem hv
    exact he.constant ▸ isIdentifier_constantName _

/-! ## Grades

Two grades have one constant, and two are given with signs. -/

def gradeSchema : Schema where
  type := some "integer"
  format := some "int16"
  enumValues := some
    [⟨"Low", .text "-01", none⟩, ⟨"low", .signed 0, none⟩, ⟨"1st", .text " 1 ", none⟩,
     ⟨"High", .text "+5", none⟩]

def grades : Document where
  components.schemas := Dict.ofList [("Grade", gradeSchema)]

def gradeScope : Scope where
  document := grades
  index.types := Dict.ofList [("Grade", "Grade")]

def gradeValues : List NamedValue :=
  [⟨"Low", "LOW", "-01", none⟩, ⟨"1st", "V_1ST", "1", none⟩, ⟨"High", "HIGH", "+5", none⟩]

def gradeDeclaration : Declaration where
  ident := "Grade"
  schema := "Grade"
  description := none
  shape := .enumeration .i16 gradeValues
  table := none

theorem returns_grade : ∃ g', Returns (ofIdent gradeScope "Grade") {} gradeDeclaration g' :=
  ⟨_, Bindings.eq_ok_of_toOption (by decide +kernel), rfl⟩

theorem exists_values_grade :
    (∃ g', Returns (ofIdent gradeScope "Grade") {} gradeDeclaration g') ∧
      gradeDeclaration.shape = .enumeration .i16 gradeValues ∧
      ∃ s, grades.components.schemas.find? "Grade" = some s ∧
        Named .i16 (s.enumValues.getD []) gradeValues ∧ ∀ v ∈ gradeValues, IsIdentifier v.constant := by
  obtain ⟨g', hg'⟩ := returns_grade
  exact ⟨⟨g', hg'⟩, rfl, exists_values hg' rfl⟩

/-- The highest grade is declared with a text that is no literal. -/
theorem not_literals_grade : Scope.ofDocument grades = .ok gradeScope ∧
    (∃ g', Returns (ofIdent gradeScope "Grade") {} gradeDeclaration g') ∧
      ¬ ∀ v ∈ gradeValues, ∃ i, IsLiteral v.literal.toList i := by
  refine ⟨Bindings.scope_of_toOption gradeScope (by decide +kernel), returns_grade, fun h => ?_⟩
  obtain ⟨i, hi⟩ := h ⟨"High", "HIGH", "+5", none⟩ (by decide)
  exact hi.head?_ne_plus rfl

end Declaration
end Bindery
