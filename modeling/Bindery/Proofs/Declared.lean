import Bindery.Declaration.Closure
import Bindery.Proofs.Marking
import Bindery.Proofs.Names

/-! # What declarations are made from

A declared name belongs either to a schema outside the families or to a family.  The declaration
of a schema mentions types that the rules give (`Scope.OfSchema`); that of a family is a generic
struct whose fields are the properties of the family's first member, with the type variable in
the place of this member's argument (`Scope.OfFamily`).  Either way, declaring marks exactly the
names that the declaration mentions (`Declaration.ofIdent_yields`). -/

namespace Bindery

open Document Naming

namespace Shape

/-- The types of the fields, or the type that an alias stands for. -/
def types : Shape → List TypeExpr
  | .struct _ fields => fields.map Field.type
  | .alias t => [t]
  | .openMap | .enumeration .. => []

def isGeneric : Shape → Bool
  | .struct generic _ => generic
  | .openMap | .alias _ | .enumeration .. => false

end Shape

namespace Declaration

def types (d : Declaration) : List TypeExpr := d.shape.types

def dependencies (d : Declaration) : List String := TypeExpr.allDependencies d.types

end Declaration

namespace Scope

variable (scope : Scope)

/-- The field of a property.  An argument that is given becomes the type variable. -/
def FieldOf (arg : Option TypeExpr) (property : String × Schema) (f : Field) : Prop :=
  f.wireName = property.1 ∧ ∃ t, scope.Typed (.schema property.2 none) t ∧
    f.type = arg.elim t (t.substitute · .param)

/-- The declaration of a schema outside the families. -/
structure OfSchema (d : Declaration) : Prop where
  ofName? : Family.ofName? d.ident = none
  schemaFor? : scope.index.schemaFor? d.ident = some d.schema
  mem_keys : d.schema ∈ scope.document.components.schemas.keys
  typeName : typeName d.schema = d.ident
  isGeneric : d.shape.isGeneric = false
  given {t : TypeExpr} : t ∈ d.types → scope.Given t

/-- The declaration of a family, made after its first member. -/
structure OfFamily (d : Declaration) (f : Family) (s : Schema) (arg : TypeExpr)
    (fields : List Field) : Prop where
  ofName? : Family.ofName? d.ident = some f
  head? : (scope.index.membersOf d.ident).head? = some d.schema
  find? : scope.document.components.schemas.find? d.schema = some s
  argument : scope.ArgumentOf d.schema arg
  shape : d.shape = .struct true fields
  fields : List.Forall₂ (scope.FieldOf (some arg)) s.properties fields

inductive Declares (d : Declaration) : Prop
  | schema (h : scope.OfSchema d)
  | family {f s arg fields} (h : scope.OfFamily d f s arg fields)

variable {scope}

/-- The name under which a schema is declared: its own, or that of the family it belongs to. -/
def identOf (schema : String) : String :=
  match Family.ofMember? (typeName schema) with
  | some (f, _) => f.name
  | none => typeName schema

theorem Declares.ident_eq {d : Declaration} (hscope : scope.Indexed) (h : scope.Declares d) :
    d.ident = identOf d.schema := by
  unfold identOf
  cases h with
  | schema h =>
      obtain ⟨-, hnone, hident⟩ := hscope.covers.schemaFor_iff.mp h.schemaFor?
      rw [hnone]
      exact hident.symm
  | family h =>
      have hmem := List.mem_of_head? h.head?
      rw [hscope.covers.membersOf_eq, List.mem_filter] at hmem
      obtain ⟨m, hm, hident⟩ := (Option.any_eq_true _ _).mp hmem.2
      rw [hm]
      exact (beq_iff_eq.mp hident).symm

theorem Declares.not_imported {d : Declaration} (hscope : scope.Indexed)
    (hnames : NameIndex.Indexable scope.document.components.schemas.keys)
    (h : scope.Declares d) : d.ident ∉ Emission.importedNames := by
  cases h with
  | schema h =>
      obtain ⟨hmem, hnone, hident⟩ := hscope.covers.schemaFor_iff.mp h.schemaFor?
      exact hident ▸ hnames.not_imported hmem hnone
  | family h =>
      obtain ⟨hf, hname⟩ := Family.ofName?_eq_some_iff.mp h.ofName?
      exact hname ▸ Family.not_imported hf

end Scope

namespace Generation

variable {scope : Scope} {g g' : Generation}

theorem resolving_argument_marks (hg : scope.At [] g.resolver) {reference : String} {t : TypeExpr}
    (h : Returns (resolving (scope.memberParam reference)) g t g') :
    scope.ArgumentOf reference t ∧ scope.Marks g [] g' := by
  obtain ⟨hok, rfl⟩ := returns_resolving.mp h
  exact ⟨(Scope.memberParam_eq_ok_iff hg).mp hok, hg.ask (.argument reference), rfl⟩

end Generation

namespace Declaration

open Generation

variable {scope : Scope}

/-! ## What each step does -/

/-- What a schema is declared as, and from which of its parts. -/
inductive Shaped (scope : Scope) (name : String) (s : Schema) (g : Generation) :
    Shape → Generation → Prop
  | enumeration {number values g'} : s.isEnum → enumNumber? s.format = some number →
      Returns (namedValues name number [] (s.enumValues.getD [])) g values g' →
      Shaped scope name s g (.enumeration number values) g'
  | aliased {t g'} : ¬ s.isEnum → s.dictionaryKey.isSome || s.hasType "array" →
      Returns (resolveWanted scope s name) g t g' → Shaped scope name s g (.alias t) g'
  | struct {fs g'} : ¬ s.isEnum → ¬ (s.dictionaryKey.isSome || s.hasType "array") →
      s.properties ≠ [] → Returns (fields scope name s none) g fs g' →
      Shaped scope name s g (.struct false fs) g'
  | openMap : ¬ s.isEnum → ¬ (s.dictionaryKey.isSome || s.hasType "array") →
      s.properties = [] → s.hasType "object" → Shaped scope name s g .openMap g

theorem shaped_of_returns {name : String} {s : Schema} {g g' : Generation} {shape : Shape}
    (h : Returns (shapeOf scope name s) g shape g') : Shaped scope name s g shape g' := by
  unfold shapeOf at h
  split at h
  · rename_i henum
    unfold enumeration at h
    cases hnumber : enumNumber? s.format with
    | none => simp [hnumber] at h
    | some number =>
      simp only [hnumber, returns_bind, returns_pure] at h
      obtain ⟨values, _, hvalues, rfl, rfl⟩ := h
      exact .enumeration henum hnumber hvalues
  · rename_i henum
    split at h
    · rename_i halias
      simp only [returns_bind, returns_pure] at h
      obtain ⟨t, _, hresolve, rfl, rfl⟩ := h
      exact .aliased henum halias hresolve
    · rename_i halias
      split at h
      · rename_i hproperties
        simp only [returns_bind, returns_pure] at h
        obtain ⟨fs, _, hfields, rfl, rfl⟩ := h
        exact .struct henum halias (by simpa using hproperties) hfields
      · rename_i hproperties
        split at h
        · rename_i hobject
          obtain ⟨rfl, rfl⟩ := returns_pure.mp h
          exact .openMap henum halias (by simpa using hproperties) hobject
        · simp at h

theorem returns_ofSchema {name : String} {d : Declaration} {g g' : Generation} :
    Returns (ofSchema scope name) g d g' ↔ ∃ s shape,
      scope.document.components.schemas.find? name = some s ∧
        Returns (shapeOf scope name s) g shape g' ∧
        ⟨typeName name, name, s.description, shape, tableOf name shape⟩ = d := by
  unfold ofSchema
  cases scope.document.components.schemas.find? name with
  | none => simp
  | some s => simp

theorem returns_ofFamily {f : Family} {d : Declaration} {g g' : Generation} :
    Returns (ofFamily scope f) g d g' ↔ ∃ template rest s arg g₁ fs g₂ u,
      scope.index.membersOf f.name = template :: rest ∧
        scope.document.components.schemas.find? template = some s ∧ s.properties ≠ [] ∧
        Returns (resolving (scope.memberParam template)) g arg g₁ ∧
        Returns (fields scope template s (some arg)) g₁ fs g₂ ∧
        Returns (note .debug declarationPart "Declared generic family.") g₂ u g' ∧
        ⟨f.name, template, s.description, .struct true fs, none⟩ = d := by
  unfold ofFamily
  cases scope.index.membersOf f.name with
  | nil => simp
  | cons template rest =>
    cases hs : scope.document.components.schemas.find? template with
    | none => simp [hs]
    | some s => by_cases hproperties : s.properties = [] <;> simp [hs, hproperties]

/-- A name is declared as that of a family, or after the schema that the index has for it. -/
theorem returns_ofIdent {ident : String} {d : Declaration} {g g' : Generation} :
    Returns (ofIdent scope ident) g d g' ↔
      (∃ f, Family.ofName? ident = some f ∧ Returns (ofFamily scope f) g d g') ∨
        Family.ofName? ident = none ∧ ∃ name, scope.index.schemaFor? ident = some name ∧
          Returns (ofSchema scope name) g d g' := by
  unfold ofIdent
  cases Family.ofName? ident with
  | some f => simp
  | none => cases scope.index.schemaFor? ident <;> simp

/-! ## Schemas -/

theorem namedValues_yields (name : String) (number : Scalar) (before : List NamedValue)
    (values : List EnumValue) :
    scope.Yields (namedValues name number before values) (fun _ => []) fun _ => True := by
  induction values generalizing before with
  | nil =>
      intro g vs g' hg h
      simp only [namedValues, returns_pure] at h
      obtain ⟨rfl, rfl⟩ := h
      exact ⟨trivial, hg, rfl⟩
  | cons v rest ih =>
      intro g vs g' hg h
      simp only [namedValues, returns_bind, returns_liftExcept] at h
      obtain ⟨literal, g₁, ⟨-, rfl⟩, h⟩ := h
      split at h
      · simp only [returns_bind] at h
        obtain ⟨u, g₂, hnote, h⟩ := h
        have hmarks := note_marks hg hnote
        exact ⟨trivial, hmarks.trans (ih _ g₂ vs g' hmarks.resolver h).2⟩
      · exact ih _ g vs g' hg h

theorem length_fieldNames (taken wires : List String) :
    (fieldNames taken wires).length = wires.length := by
  induction wires generalizing taken with
  | nil => rfl
  | cons wire rest ih => exact congrArg (· + 1) (ih _)

theorem fields_yields (name : String) (s : Schema) (arg : Option TypeExpr) :
    scope.Yields (fields scope name s arg)
      (fun fs => TypeExpr.allDependencies (fs.map Field.type))
      fun fs => List.Forall₂ (scope.FieldOf arg) s.properties fs := by
  have hzip : scope.Yields (fields scope name s arg)
      (fun fs => fs.flatMap fun f => f.type.dependencies)
      (List.Forall₂ (fun entry f => scope.FieldOf arg entry.1 f)
        (s.properties.zip (fieldNames [] (s.properties.map Prod.fst)))) := by
    unfold fields
    refine Scope.Yields.mapM fun entry _ g f g' hg h => ?_
    simp only [returns_bind, returns_pure] at h
    obtain ⟨t, g₁, hresolve, u, g₂, hrequire, rfl, rfl⟩ := h
    obtain ⟨htyped, hmarks⟩ := resolving_marks hg hresolve
    refine ⟨⟨rfl, t, htyped, ?_⟩, hmarks.trans (require_marks hmarks.resolver hrequire)⟩
    cases arg <;> rfl
  intro g fs g' hg h
  obtain ⟨hfields, hmarks⟩ := hzip g fs g' hg h
  have hlength := length_fieldNames [] (s.properties.map Prod.fst)
  rw [List.length_map] at hlength
  have hmap := List.forall₂_map_left_iff.mpr hfields
  rw [List.map_fst_zip (Nat.le_of_eq hlength.symm)] at hmap
  exact ⟨hmap, by simpa [TypeExpr.allDependencies, List.flatMap_map] using hmarks⟩

theorem shapeOf_yields (name : String) (s : Schema) :
    scope.Yields (shapeOf scope name s) (fun shape => TypeExpr.allDependencies shape.types)
      fun shape => shape.isGeneric = false ∧ ∀ t ∈ shape.types, scope.Given t := by
  intro g shape g' hg h
  cases shaped_of_returns h with
  | @enumeration number values _ _ _ hvalues =>
      have hmarks := (namedValues_yields name number [] _ g values g' hg hvalues).2
      exact ⟨⟨rfl, by simp [Shape.types]⟩, hmarks⟩
  | @aliased t _ _ _ hresolve =>
      obtain ⟨htyped, hmarks⟩ := resolveWanted_yields s name g t g' hg hresolve
      refine ⟨⟨rfl, ?_⟩, by simpa [Shape.types, TypeExpr.allDependencies] using hmarks⟩
      intro t' ht'
      obtain rfl := List.mem_singleton.mp ht'
      exact ⟨s, htyped⟩
  | @struct fs _ _ _ _ hfields =>
      obtain ⟨hall, hmarks⟩ := fields_yields name s none g fs g' hg hfields
      refine ⟨⟨rfl, fun t ht => ?_⟩, hmarks⟩
      obtain ⟨f, hf, rfl⟩ := List.mem_map.mp ht
      obtain ⟨property, -, -, t, htyped, heq⟩ := Scope.exists_of_forall₂ hall hf
      exact ⟨property.2, heq ▸ htyped⟩
  | openMap => exact ⟨⟨rfl, by simp [Shape.types]⟩, hg, rfl⟩

theorem ofSchema_yields {name : String}
    (hname : scope.index.schemaFor? (typeName name) = some name)
    (hident : Family.ofName? (typeName name) = none) :
    scope.Yields (ofSchema scope name) dependencies
      fun d => d.ident = typeName name ∧ scope.OfSchema d := by
  intro g d g' hg h
  obtain ⟨s, shape, hs, hshape, rfl⟩ := returns_ofSchema.mp h
  obtain ⟨⟨hgeneric, hgiven⟩, hmarks⟩ := shapeOf_yields name s g shape g' hg hshape
  exact ⟨⟨rfl, {
    ofName? := hident
    schemaFor? := hname
    mem_keys := Dict.mem_keys_of_find? hs
    typeName := rfl
    isGeneric := hgeneric
    given := hgiven _ }⟩, hmarks⟩

/-! ## Families -/

theorem ofFamily_yields {f : Family} (hf : Family.ofName? f.name = some f) :
    scope.Yields (ofFamily scope f) dependencies
      fun d => d.ident = f.name ∧ ∃ s arg fields, scope.OfFamily d f s arg fields := by
  intro g d g' hg h
  obtain ⟨template, rest, s, arg, g₁, fs, g₂, _, hmembers, hs, -, harg, hfields, hnote, rfl⟩ :=
    returns_ofFamily.mp h
  obtain ⟨hargument, hmarks₁⟩ := resolving_argument_marks hg harg
  obtain ⟨hall, hmarks₂⟩ := fields_yields template s (some arg) g₁ fs g₂ hmarks₁.resolver hfields
  have hmarks₃ := note_marks hmarks₂.resolver hnote
  have hmarks := (hmarks₁.trans hmarks₂).trans hmarks₃
  rw [List.nil_append, List.append_nil] at hmarks
  refine ⟨⟨rfl, s, arg, fs, ?_⟩, hmarks⟩
  exact {
    ofName? := hf
    head? := by rw [hmembers]; rfl
    find? := hs
    argument := hargument
    shape := rfl
    fields := hall }

/-! ## Names -/

theorem ofIdent_yields (hscope : scope.Indexed) (ident : String) :
    scope.Yields (ofIdent scope ident) dependencies
      fun d => d.ident = ident ∧ scope.Declares d := by
  intro g d g' hg h
  rcases returns_ofIdent.mp h with ⟨f, hf, hfamily⟩ | ⟨hf, name, hname, hschema⟩
  · obtain ⟨-, rfl⟩ := Family.ofName?_eq_some_iff.mp hf
    obtain ⟨⟨hident, s, arg, fs, hd⟩, hmarks⟩ := ofFamily_yields hf g d g' hg hfamily
    exact ⟨⟨hident, .family hd⟩, hmarks⟩
  · obtain ⟨-, -, rfl⟩ := hscope.covers.schemaFor_iff.mp hname
    obtain ⟨⟨hident, hd⟩, hmarks⟩ := ofSchema_yields hname hf g d g' hg hschema
    exact ⟨⟨hident, .schema hd⟩, hmarks⟩

end Declaration
end Bindery
