import Bindery.Proofs.Closure
import Bindery.Proofs.Kinds

/-! # The generic declaration of a family

A family is declared after its first member: wherever the argument of this member stands in the
type of a property, the declaration has the type variable.  Where all members are instances of one
shape, the declaration therefore fits a member exactly if the member has the same argument, or
that argument stands in the shape for nothing but the variable (`Bindings.fits_iff`).  A first
member of which another property has the type of the argument makes a declaration that does not
fit the others (`Bindings.not_fits_flags`). -/

namespace Bindery

open Document

/-- The fields by their names on the wire. -/
def fieldTypes (fields : List Field) : List (String × TypeExpr) :=
  fields.map fun f => (f.wireName, f.type)

/-- Puts an argument for the type variable. -/
def instantiate (shape : List (String × TypeExpr)) (arg : TypeExpr) : List (String × TypeExpr) :=
  shape.map fun p => (p.1, p.2.substitute .param arg)

namespace Scope

variable (scope : Scope)

/-- The type argument that a new resolver finds for a member. -/
def argumentOf (member : String) : Except GenerationError TypeExpr :=
  scope.answer {} (.argument member)

/-- A new resolver finds the given types for the properties of a schema. -/
def HasProperties (name : String) (types : List (String × TypeExpr)) : Prop :=
  ∃ s, scope.document.components.schemas.find? name = some s ∧
    List.Forall₂ (fun p t => p.1 = t.1 ∧
      scope.answer {} (.schema p.2 (name ++ "." ++ p.1)) = .ok t.2) s.properties types

/-- Each member of a family has the properties of one shape, its own argument in the place of the
type variable. -/
def InstancesOf (family : String) (shape : List (String × TypeExpr)) : Prop :=
  ∀ m ∈ scope.index.membersOf family, ∃ arg, scope.argumentOf m = .ok arg ∧
    scope.HasProperties m (instantiate shape arg)

variable {scope} {name : String} {types types' : List (String × TypeExpr)}

theorem argumentOf_eq_ok_iff {t : TypeExpr} :
    scope.argumentOf name = .ok t ↔ scope.ArgumentOf name t := memberParam_eq_ok_iff At.empty

theorem hasProperties_iff : scope.HasProperties name types ↔
    ∃ s, scope.document.components.schemas.find? name = some s ∧
      List.Forall₂ (fun p t => p.1 = t.1 ∧ scope.Typed (.schema p.2 none) t.2)
        s.properties types := by
  have hanswer (p : String × Schema) (t : TypeExpr) :
      scope.answer {} (.schema p.2 (name ++ "." ++ p.1)) = .ok t ↔
        scope.Typed (.schema p.2 none) t := resolve_eq_ok_iff At.empty
  simp only [HasProperties, hanswer]

theorem HasProperties.unique (h : scope.HasProperties name types)
    (h' : scope.HasProperties name types') : types = types' := by
  obtain ⟨s, hs, hall⟩ := h
  obtain ⟨s', hs', hall'⟩ := h'
  cases hs.symm.trans hs'
  refine List.right_unique_forall₂' ?_ hall hall'
  rintro p ⟨w, t⟩ ⟨w', t'⟩ ⟨hw, ht⟩ ⟨hw', ht'⟩
  exact Prod.ext (hw.symm.trans hw') (Except.ok.inj (ht.symm.trans ht'))

/-- Arguments are free of the type variable. -/
theorem param_not_mem_argumentOf (hscope : scope.Indexed) {t : TypeExpr}
    (h : scope.argumentOf name = .ok t) : .param ∉ t.parts := by
  obtain ⟨_, _, -, htyped⟩ := argumentOf_eq_ok_iff.mp h
  exact (htyped.grounded hscope).param

/-- The declaration of a family is the shape with the type variable for each occurrence of the
first member's argument. -/
theorem fieldTypes_eq {arg : TypeExpr} {s : Schema} {fields : List Field}
    {shape : List (String × TypeExpr)} (harg : .param ∉ arg.parts)
    (hs : scope.document.components.schemas.find? name = some s)
    (hfields : List.Forall₂ (scope.FieldOf (some arg)) s.properties fields)
    (hshape : scope.HasProperties name (instantiate shape arg)) :
    fieldTypes fields = shape.map fun p => (p.1, p.2.substitute arg .param) := by
  obtain ⟨s', hs', hall⟩ := hasProperties_iff.mp hshape
  cases hs.symm.trans hs'
  rw [instantiate, List.forall₂_map_right_iff] at hall
  clear hshape
  generalize s.properties = properties at hfields hall
  induction hall generalizing fields with
  | nil =>
      cases hfields
      rfl
  | @cons property p _ _ hp _ ih =>
      cases hfields with
      | @cons _ f _ _ hf hfs =>
          obtain ⟨hwire, t, ht, htype⟩ := hf
          have heq : f.type = p.2.substitute arg .param := by
            rw [htype, Option.elim_some, ht.unique hp.2, TypeExpr.substitute_back harg]
          rw [fieldTypes, List.map_cons, List.map_cons, hwire, hp.1, heq]
          exact congrArg (_ :: ·) (ih hfs)

theorem instantiate_eq_iff {arg arg₀ : TypeExpr} {shape : List (String × TypeExpr)}
    (harg : .param ∉ arg₀.parts) :
    instantiate (shape.map fun p => (p.1, p.2.substitute arg₀ .param)) arg =
        instantiate shape arg ↔
      arg = arg₀ ∨ ∀ p ∈ shape, arg₀ ∉ p.2.parts := by
  rw [instantiate, instantiate, List.map_map, List.map_inj_left]
  have hpart (p : String × TypeExpr) :
      ((fun p : String × TypeExpr => (p.1, p.2.substitute .param arg)) ∘
          fun p => (p.1, p.2.substitute arg₀ .param)) p = (p.1, p.2.substitute .param arg) ↔
        arg = arg₀ ∨ arg₀ ∉ p.2.parts := by
    rw [← TypeExpr.substitute_back_eq_iff harg, Function.comp_apply, Prod.mk.injEq]
    exact and_iff_right rfl
  simp only [hpart]
  by_cases heq : arg = arg₀
  · simp [heq]
  · simp [heq]

end Scope

namespace Bindings

/-- Where the members of a family are all instances of one shape, the family's declaration fits a
member exactly if the member has the argument of the first member, after which the declaration is
made, or this argument occurs nowhere in the shape. -/
theorem fits_iff {doc : Document} {b : Bindings} {scope : Scope} {d : Declaration}
    {fields : List Field} {shape : List (String × TypeExpr)} (h : ofDocument doc = .ok b)
    (hscope : Scope.ofDocument doc = .ok scope) (hd : d ∈ b.types)
    (hfields : d.shape = .struct true fields) (hshape : scope.InstancesOf d.ident shape) :
    (scope.index.membersOf d.ident).head? = some d.schema ∧
      ∃ arg₀, scope.argumentOf d.schema = .ok arg₀ ∧
        ∀ m ∈ scope.index.membersOf d.ident, ∀ arg, scope.argumentOf m = .ok arg →
          (scope.HasProperties m (instantiate (fieldTypes fields) arg) ↔
            arg = arg₀ ∨ ∀ p ∈ shape, arg₀ ∉ p.2.parts) := by
  obtain ⟨scope', hscope', hmade⟩ := madeFrom_of_ofDocument h
  cases hscope.symm.trans hscope'
  obtain ⟨-, hindexed⟩ := Scope.indexed_of_ofDocument hscope
  cases hmade.declares hd with
  | schema hd =>
      have hgeneric := hd.isGeneric
      rw [hfields] at hgeneric
      cases hgeneric
  | family hd =>
      have harg := Scope.argumentOf_eq_ok_iff.mpr hd.argument
      have hparam := Scope.param_not_mem_argumentOf hindexed harg
      cases hd.shape.symm.trans hfields
      obtain ⟨arg₁, harg₁, hfirst⟩ := hshape d.schema (List.mem_of_head? hd.head?)
      cases harg.symm.trans harg₁
      -- The first member is an instance too, which tells the declaration from the shape.
      have htypes := Scope.fieldTypes_eq hparam hd.find? hd.fields hfirst
      refine ⟨hd.head?, _, harg, fun m hm arg hm_arg => ?_⟩
      obtain ⟨arg', harg', hproperties⟩ := hshape m hm
      cases hm_arg.symm.trans harg'
      rw [htypes, ← Scope.instantiate_eq_iff hparam]
      exact ⟨fun hfits => hfits.unique hproperties, fun heq => heq ▸ hproperties⟩

/-! ## A flag beside a flag

The data of the first member is a flag, and so is a property that both members share. -/

/-- A component of the given data, which can be switched off. -/
def component (data : Schema) : Schema where
  type := some "object"
  properties := [("data", data), ("disabled", { type := some "boolean" })]

def flags : Document where
  paths := Dict.ofList [("/A/", {
    summary := some "A"
    get := some (answering "#/components/schemas/SingleComponentResponseOfA") })]
  components.schemas := Dict.ofList
    [("SingleComponentResponseOfA", component { type := some "boolean" }),
     ("SingleComponentResponseOfB",
      component { type := some "integer", format := some "int32" })]

def flagsScope : Scope where
  document := flags
  index.members := Dict.ofList [("ComponentResponse",
    ["SingleComponentResponseOfA", "SingleComponentResponseOfB"])]

def flagsShape : List (String × TypeExpr) := [("data", .param), ("disabled", .scalar .bool)]

def flagsFields : List Field :=
  [⟨"data", "data", .param, none⟩, ⟨"disabled", "disabled", .param, none⟩]

def flagsDeclaration : Declaration where
  ident := "ComponentResponse"
  schema := "SingleComponentResponseOfA"
  description := none
  shape := .struct true flagsFields
  table := none

def flagsBindings : Bindings where
  types := [flagsDeclaration]
  operations :=
    [{ name := "A"
       operationId := "A"
       method := .get
       path := "/A/"
       description := none
       deprecated := false
       scopes := []
       params := []
       body := none
       response := .generic "ComponentResponse" (.scalar .bool) }]

theorem ofDocument_flags : ofDocument flags = .ok flagsBindings :=
  ofDocument_of_unsorted (by decide +kernel) (by decide)

theorem scope_flags : Scope.ofDocument flags = .ok flagsScope :=
  scope_of_toOption flagsScope (by decide +kernel)

theorem members_flags : flagsScope.index.membersOf "ComponentResponse" =
    ["SingleComponentResponseOfA", "SingleComponentResponseOfB"] := by decide +kernel

theorem argumentOf_flags :
    flagsScope.argumentOf "SingleComponentResponseOfA" = .ok (.scalar .bool) ∧
      flagsScope.argumentOf "SingleComponentResponseOfB" = .ok (.scalar .i32) :=
  ⟨eq_ok_of_toOption (by decide +kernel), eq_ok_of_toOption (by decide +kernel)⟩

theorem hasProperties_flags :
    flagsScope.HasProperties "SingleComponentResponseOfA"
        (instantiate flagsShape (.scalar .bool)) ∧
      flagsScope.HasProperties "SingleComponentResponseOfB"
        (instantiate flagsShape (.scalar .i32)) :=
  ⟨⟨component { type := some "boolean" }, rfl,
      .cons ⟨rfl, eq_ok_of_toOption (by decide +kernel)⟩
        (.cons ⟨rfl, eq_ok_of_toOption (by decide +kernel)⟩ .nil)⟩,
    ⟨component { type := some "integer", format := some "int32" }, rfl,
      .cons ⟨rfl, eq_ok_of_toOption (by decide +kernel)⟩
        (.cons ⟨rfl, eq_ok_of_toOption (by decide +kernel)⟩ .nil)⟩⟩

theorem instancesOf_flags : flagsScope.InstancesOf flagsDeclaration.ident flagsShape := by
  intro m hm
  rw [flagsDeclaration, members_flags] at hm
  rcases List.mem_pair.mp hm with rfl | rfl
  · exact ⟨_, argumentOf_flags.1, hasProperties_flags.1⟩
  · exact ⟨_, argumentOf_flags.2, hasProperties_flags.2⟩

/-- The declaration does not fit the second member: it has the member's data for a flag. -/
theorem not_fits_flags :
    ofDocument flags = .ok flagsBindings ∧ Scope.ofDocument flags = .ok flagsScope ∧
      flagsDeclaration ∈ flagsBindings.types ∧
      flagsDeclaration.shape = .struct true flagsFields ∧
      flagsScope.InstancesOf flagsDeclaration.ident flagsShape ∧
      ¬ ∀ m ∈ flagsScope.index.membersOf flagsDeclaration.ident, ∀ arg,
        flagsScope.argumentOf m = .ok arg →
          flagsScope.HasProperties m (instantiate (fieldTypes flagsFields) arg) := by
  refine ⟨ofDocument_flags, scope_flags, List.mem_singleton_self _, rfl, instancesOf_flags, ?_⟩
  intro hfits
  have hmem : "SingleComponentResponseOfB" ∈
      flagsScope.index.membersOf flagsDeclaration.ident := by
    rw [flagsDeclaration, members_flags]
    exact List.mem_cons_of_mem _ List.mem_cons_self
  have hfit := hfits _ hmem _ argumentOf_flags.2
  have heq := hfit.unique hasProperties_flags.2
  revert heq
  decide

theorem fits_iff_flags :
    flagsScope.InstancesOf flagsDeclaration.ident flagsShape ∧
      ∃ arg₀, flagsScope.argumentOf flagsDeclaration.schema = .ok arg₀ ∧
        ∀ m ∈ flagsScope.index.membersOf flagsDeclaration.ident, ∀ arg,
          flagsScope.argumentOf m = .ok arg →
            (flagsScope.HasProperties m (instantiate (fieldTypes flagsFields) arg) ↔
              arg = arg₀ ∨ ∀ p ∈ flagsShape, arg₀ ∉ p.2.parts) :=
  ⟨instancesOf_flags,
    (fits_iff ofDocument_flags scope_flags (List.mem_singleton_self _) rfl instancesOf_flags).2⟩

end Bindings
end Bindery
