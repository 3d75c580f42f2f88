import Bindery.Proofs.Closure
import Bindery.Proofs.Dependencies

/-! # Names are declared as what they are used for

The types that the rules give name schemas directly, and families only where these are applied
to an argument (`Scope.Typed.grounded`).  A schema that shares its name with a family leaves the
family without members, and without members a family has no declaration.  So in the bindings of a
document every name is declared as what it is used for, and the type variable stays inside
generic structs (`Bindings.wellKinded_ofDocument`). -/

namespace Bindery

open Document Naming

namespace Scope

variable (scope : Scope)

/-- Names belong to schemas, and what is applied to an argument is a family. -/
structure Founded (t : TypeExpr) : Prop where
  family {f : String} {arg : TypeExpr} :
    .generic f arg ∈ t.parts → ∃ family, Family.ofName? f = some family
  name {p : TypeExpr} {i : String} : p ∈ t.parts → p.name? = some i →
    ∃ schema ∈ scope.document.components.schemas.keys, typeName schema = i

/-- A founded type without the type variable. -/
structure Grounded (t : TypeExpr) : Prop extends scope.Founded t where
  param : .param ∉ t.parts

variable {scope} {t : TypeExpr}

theorem Founded.substitute {a : TypeExpr} (h : scope.Founded t) :
    scope.Founded (t.substitute a .param) where
  family hmem := by
    rcases TypeExpr.mem_parts_substitute hmem with hmem | ⟨q, hq, -, heq⟩
    · cases List.mem_singleton.mp hmem
    · obtain ⟨arg, rfl⟩ := TypeExpr.mapChildren_eq_generic heq.symm
      exact h.family hq
  name hmem hname := by
    rcases TypeExpr.mem_parts_substitute hmem with hmem | ⟨q, hq, -, rfl⟩
    · cases List.mem_singleton.mp hmem
      cases hname
    · rw [TypeExpr.name?_mapChildren] at hname
      exact h.name hq hname

namespace Grounded

/-- A type is grounded where all types that it is built from are, and its own name is right. -/
theorem node (hchildren : ∀ c ∈ t.children, scope.Grounded c) (hparam : t ≠ .param)
    (hfamily : ∀ f arg, t = .generic f arg → ∃ family, Family.ofName? f = some family)
    (hname : ∀ i, t.name? = some i →
      ∃ schema ∈ scope.document.components.schemas.keys, typeName schema = i) :
    scope.Grounded t where
  family hmem := by
    rcases TypeExpr.mem_parts_iff.mp hmem with heq | ⟨c, hc, hmem⟩
    · exact hfamily _ _ heq.symm
    · exact (hchildren c hc).family hmem
  name hmem hi := by
    rcases TypeExpr.mem_parts_iff.mp hmem with rfl | ⟨c, hc, hmem⟩
    · exact hname _ hi
    · exact (hchildren c hc).name hmem hi
  param hmem := by
    rcases TypeExpr.mem_parts_iff.mp hmem with heq | ⟨c, hc, hmem⟩
    · exact hparam heq.symm
    · exact (hchildren c hc).param hmem

theorem of_name {i : String} (ht : t.name? = some i)
    (hi : ∃ schema ∈ scope.document.components.schemas.keys, typeName schema = i) :
    scope.Grounded t := by
  refine node ?_ ?_ ?_ ?_
  · intro c hc
    rw [TypeExpr.children_of_name? ht] at hc
    cases hc
  · rintro rfl
    cases ht
  · rintro f arg rfl
    cases ht
  · intro j hj
    cases ht.symm.trans hj
    exact hi

/-- A type that mentions no name itself and is no variable. -/
theorem of_children (hident : t.ident? = none) (hparam : t ≠ .param)
    (h : ∀ c ∈ t.children, scope.Grounded c) : scope.Grounded t := by
  refine node h hparam ?_ ?_
  · rintro f arg rfl
    cases hident
  · intro i hi
    rw [TypeExpr.ident?_of_name? hi] at hident
    cases hident

theorem atom (hident : t.ident? = none) (hparam : t ≠ .param) (h : t.children = []) :
    scope.Grounded t := by
  refine of_children hident hparam fun c hc => ?_
  rw [h] at hc
  cases hc

theorem generic {f : Family} {arg : TypeExpr} (hf : f ∈ Family.all) (h : scope.Grounded arg) :
    scope.Grounded (.generic f.name arg) := by
  refine node (by simpa [TypeExpr.children] using h) TypeExpr.noConfusion ?_ ?_
  · rintro _ _ ⟨⟩
    exact ⟨f, Family.ofName?_eq_some_iff.mpr ⟨hf, rfl⟩⟩
  · rintro i ⟨⟩

theorem wrap {s : Schema} (h : scope.Grounded t) : scope.Grounded (s.wrap t) := by
  unfold Schema.wrap
  split
  · exact of_children rfl TypeExpr.noConfusion (by simpa [TypeExpr.children] using h)
  · exact h

end Grounded

theorem declaredIdent_eq_ok {reference i : String} (h : scope.declaredIdent reference = .ok i) :
    ∃ schema ∈ scope.document.components.schemas.keys, typeName schema = i := by
  unfold declaredIdent at h
  cases hs : scope.document.schema? reference with
  | none => rw [hs] at h; cases h
  | some found =>
      rw [hs] at h
      exact ⟨found.1, Dict.mem_keys_of_find? (find?_of_schema?_eq_some hs), Except.ok.inj h⟩

theorem enumKey_grounded {reference : String} (h : scope.enumKey reference = .ok t) :
    scope.Grounded t := by
  unfold enumKey at h
  split at h
  · cases h
    exact .atom rfl TypeExpr.noConfusion rfl
  · obtain ⟨i, hi, rfl⟩ := map_eq_ok.mp h
    exact .of_name rfl (declaredIdent_eq_ok hi)

theorem suffixParam_grounded (hscope : scope.Indexed) {suffix : String}
    (h : scope.suffixParam suffix = .ok t) : scope.Grounded t := by
  have hscalar (k : Scalar) : scope.Grounded (.scalar k) :=
    .atom rfl TypeExpr.noConfusion rfl
  dsimp only [suffixParam] at h
  split at h
  · cases h
    exact hscalar _
  · split at h
    · cases h
      exact hscalar _
    · split at h
      · cases h
        exact hscalar _
      · split at h
        · rename_i hsome
          cases h
          obtain ⟨schema, hschema⟩ := Option.isSome_iff_exists.mp hsome
          obtain ⟨hkey, -, hident⟩ := hscope.covers.schemaFor_iff.mp hschema
          exact .of_name rfl ⟨schema, hkey, hident⟩
        · cases h

theorem scalarType_eq_ok_cases {s : Schema} {context : String} (h : scalarType s context = .ok t) :
    t = .timestamp ∨ ∃ k, t = .scalar k := by
  dsimp only [scalarType, scalarType.refused] at h
  split at h
  · cases h
    exact .inr ⟨_, rfl⟩
  · cases h
    exact .inl rfl
  · cases h
    exact .inr ⟨_, rfl⟩
  · split at h
    · cases h
      exact .inr ⟨_, rfl⟩
    · cases h
  · split at h
    · cases h
      exact .inr ⟨_, rfl⟩
    · cases h

theorem leafType_grounded {s : Schema} {context : String} {l : Leaf}
    (h : scope.leafType s context l = .ok t) : scope.Grounded t := by
  cases l with
  | key target =>
      obtain ⟨i, hi, rfl⟩ := map_eq_ok.mp h
      exact .of_name rfl (declaredIdent_eq_ok hi)
  | anyObject =>
      cases h
      exact .atom rfl TypeExpr.noConfusion rfl
  | enumeration reference =>
      obtain ⟨i, hi, rfl⟩ := map_eq_ok.mp h
      refine .of_name (i := i) ?_ (declaredIdent_eq_ok hi)
      split <;> rfl
  | scalar =>
      rcases scalarType_eq_ok_cases h with rfl | ⟨k, rfl⟩
      · exact .atom rfl TypeExpr.noConfusion rfl
      · exact .atom rfl TypeExpr.noConfusion rfl
  | refused => cases h

/-- The rules keep to names of schemas and to families with an argument, and they never give the
type variable. -/
theorem Typed.grounded (hscope : scope.Indexed) {x : Subject} (h : scope.Typed x t) :
    scope.Grounded t := by
  induction h with
  | declared h => exact .of_name rfl (target_eq_declared _ h)
  | applied h _ ih =>
      obtain ⟨-, f, rest, hf, rfl⟩ := target_eq_member _ h
      exact .generic (Family.mem_all_of_ofMember? hf) ih
  | suffix _ h => exact suffixParam_grounded hscope h
  | part _ _ ih => exact ih
  | enumKeys _ h => exact enumKey_grounded h
  | freeKeys _ _ ih => exact ih
  | pointer _ _ ih => exact ih
  | alternative _ _ ih => exact ih.wrap
  | dictionary _ _ _ ihk ihv =>
      refine .wrap (.of_children rfl TypeExpr.noConfusion ?_)
      simpa [TypeExpr.children] using ⟨ihk, ihv⟩
  | array _ _ ih =>
      refine .wrap (.of_children rfl TypeExpr.noConfusion ?_)
      simpa [TypeExpr.children] using ih
  | leaf _ h => exact (leafType_grounded h).wrap

end Scope

namespace Scope

variable {scope : Scope} {d : Declaration} {t : TypeExpr}

theorem Declares.isGeneric_of_ofName? {f : Family} (h : scope.Declares d)
    (hf : Family.ofName? d.ident = some f) : d.shape.isGeneric = true := by
  cases h with
  | schema h => cases h.ofName?.symm.trans hf
  | family h => rw [h.shape]; rfl

theorem Declares.isGeneric_of_ofName?_none (h : scope.Declares d)
    (hf : Family.ofName? d.ident = none) : d.shape.isGeneric = false := by
  cases h with
  | schema h => exact h.isGeneric
  | family h => cases h.ofName?.symm.trans hf

/-- What has been declared under a schema's name is no family. -/
theorem Declares.ofName?_none (hscope : scope.Indexed) (h : scope.Declares d) {schema : String}
    (hkey : schema ∈ scope.document.components.schemas.keys) (hname : typeName schema = d.ident) :
    Family.ofName? d.ident = none := by
  cases h with
  | schema h => exact h.ofName?
  | @family f _ _ _ h =>
      -- The schema takes the family's name, and so the family has no members to declare it after.
      obtain ⟨hf, hident⟩ := Family.ofName?_eq_some_iff.mp h.ofName?
      have hnil := hscope.membersOf_eq_nil hkey hf (hname.trans hident.symm)
      have hhead := h.head?
      rw [← hident, hnil] at hhead
      cases hhead

theorem Declares.founded (hscope : scope.Indexed) (h : scope.Declares d) (ht : t ∈ d.types) :
    scope.Founded t := by
  cases h with
  | schema h =>
      obtain ⟨s, hs⟩ := h.given ht
      exact (hs.grounded hscope).toFounded
  | family h =>
      rw [Declaration.types, h.shape] at ht
      obtain ⟨f, hf, rfl⟩ := List.mem_map.mp ht
      obtain ⟨property, -, -, t, htyped, heq⟩ := exists_of_forall₂ h.fields hf
      rw [heq]
      exact (htyped.grounded hscope).toFounded.substitute

end Scope

namespace Bindings

variable (b : Bindings)

/-- The type of a parameter, body, response or field, or what an alias stands for. -/
def Uses (t : TypeExpr) : Prop :=
  (∃ op ∈ b.operations, t ∈ op.types) ∨ ∃ d ∈ b.types, t ∈ d.types

/-- The name is declared, and nothing without the property is declared under it. -/
def DeclaredAs (i : String) (P : Declaration → Prop) : Prop :=
  (∃ d ∈ b.types, d.ident = i) ∧ ∀ d ∈ b.types, d.ident = i → P d

/-- Every name that a type mentions is declared as what it is used for: families, which are
generic structs, are applied to arguments, and all other names stand for types that are not
generic.  The type variable stays inside generic structs. -/
structure WellKinded : Prop where
  family {t arg : TypeExpr} {i : String} : b.Uses t → .generic i arg ∈ t.parts →
    (Family.ofName? i).isSome ∧ b.DeclaredAs i fun d => ∃ fields, d.shape = .struct true fields
  name {t p : TypeExpr} {i : String} : b.Uses t → p ∈ t.parts → p.name? = some i →
    Family.ofName? i = none ∧ b.DeclaredAs i fun d => d.shape.isGeneric = false
  operations {op : Operation} {t : TypeExpr} :
    op ∈ b.operations → t ∈ op.types → .param ∉ t.parts
  types {d : Declaration} {t : TypeExpr} : d ∈ b.types → t ∈ d.types → .param ∈ t.parts →
    ∃ fields, d.shape = .struct true fields

variable {b}

theorem exists_fields_of_isGeneric {shape : Shape} (h : shape.isGeneric = true) :
    ∃ fields, shape = .struct true fields := by
  cases shape with
  | struct generic fields => exact ⟨fields, congrArg (Shape.struct · fields) h⟩
  | _ => cases h

section MadeFrom

variable {scope : Scope} (hscope : scope.Indexed) (h : b.MadeFrom scope) {t : TypeExpr}
  {i : String}
include h

theorem MadeFrom.exists_declaration (ht : b.Uses t) (hi : i ∈ t.dependencies) :
    ∃ d ∈ b.types, d.ident = i := by
  refine h.mem_idents.mpr ?_
  rcases ht with ⟨op, hop, ht⟩ | ⟨d, hd, ht⟩
  · exact .inl ⟨op, hop, TypeExpr.mem_allDependencies.mpr ⟨t, ht, hi⟩⟩
  · exact .inr ⟨d, hd, TypeExpr.mem_allDependencies.mpr ⟨t, ht, hi⟩⟩

include hscope

theorem MadeFrom.founded (ht : b.Uses t) : scope.Founded t := by
  rcases ht with ⟨op, hop, ht⟩ | ⟨d, hd, ht⟩
  · obtain ⟨s, hs⟩ := h.given hop ht
    exact (hs.grounded hscope).toFounded
  · exact (h.declares hd).founded hscope ht

theorem MadeFrom.wellKinded : b.WellKinded where
  family ht hmem := by
    obtain ⟨f, hf⟩ := (h.founded hscope ht).family hmem
    have hdeclared := h.exists_declaration ht (TypeExpr.mem_dependencies_of_mem_parts hmem rfl)
    refine ⟨by rw [hf]; rfl, hdeclared, ?_⟩
    rintro d hd rfl
    exact exists_fields_of_isGeneric ((h.declares hd).isGeneric_of_ofName? hf)
  name ht hmem hi := by
    obtain ⟨schema, hkey, hname⟩ := (h.founded hscope ht).name hmem hi
    obtain ⟨d, hd, rfl⟩ := h.exists_declaration ht
      (TypeExpr.mem_dependencies_of_mem_parts hmem (TypeExpr.ident?_of_name? hi))
    have hnone := (h.declares hd).ofName?_none hscope hkey hname
    refine ⟨hnone, ⟨d, hd, rfl⟩, fun d' hd' hident => ?_⟩
    exact (h.declares hd').isGeneric_of_ofName?_none (hident ▸ hnone)
  operations hop ht := by
    obtain ⟨s, hs⟩ := h.given hop ht
    exact (hs.grounded hscope).param
  types {d t} hd ht hparam := by
    cases h.declares hd with
    | schema hd =>
        obtain ⟨s, hs⟩ := hd.given ht
        exact absurd hparam (hs.grounded hscope).param
    | family hd => exact ⟨_, hd.shape⟩

end MadeFrom

/-- The bindings of a document are well-kinded. -/
theorem wellKinded_ofDocument {doc : Document} {b : Bindings} (h : ofDocument doc = .ok b) :
    b.WellKinded := by
  obtain ⟨scope, hscope, hmade⟩ := madeFrom_of_ofDocument h
  exact hmade.wellKinded (Scope.indexed_of_ofDocument hscope).2

theorem wellKinded_forest : ofDocument forest = .ok forestBindings ∧ forestBindings.WellKinded :=
  ⟨ofDocument_forest, wellKinded_ofDocument ofDocument_forest⟩

end Bindings
end Bindery
