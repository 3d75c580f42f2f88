import Bindery.Proofs.Declared
import Bindery.Proofs.Extension.Lookup

/-! # What a step does in a document and in one that contains it

A step performs a value when it returns it, and marks the same names, from every state between two
questions (`Scope.Performs`); then it returns nothing else.  A step of a scope carries over to a
step of another one when the second performs whatever the first has returned from some state
(`Scope.Carries`).  The steps that make an operation or a declaration carry over from each scope
to every scope that it is part of, itself among them (`Operation.ofHandler_carries`,
`Declaration.ofIdent_carries`). -/

namespace Bindery

open Document Generation

namespace Scope

/-- From every state between two questions the step returns the value and marks the names. -/
def Performs (scope : Scope) {α : Type} (step : GenerationM α) (a : α) (names : List String) :
    Prop :=
  ∀ g, scope.At [] g.resolver → ∃ g', Returns step g a g' ∧ scope.Marks g names g'

/-- What the first step has returned in the first scope, the second performs in the second. -/
def Carries (scope scope' : Scope) {α : Type} (step step' : GenerationM α) : Prop :=
  ∀ g a g₁, scope.At [] g.resolver → Returns step g a g₁ →
    ∃ names, scope.Marks g names g₁ ∧ scope'.Performs step' a names

variable {scope scope' : Scope} {α β : Type}

theorem Marks.refl {g : Generation} (hg : scope.At [] g.resolver) : scope.Marks g [] g := ⟨hg, rfl⟩

namespace Performs

variable {step : GenerationM α} {f : α → GenerationM β} {a a' : α} {b : β}
  {names names' : List String}

theorem unique (h : scope.Performs step a names) (h' : scope.Performs step a' names') :
    a = a' := by
  obtain ⟨_, ⟨hok, -⟩, -⟩ := h {} At.empty
  obtain ⟨_, ⟨hok', -⟩, -⟩ := h' {} At.empty
  exact Except.ok.inj (hok.symm.trans hok')

theorem bind (h : scope.Performs step a names) (h' : scope.Performs (f a) b names') :
    scope.Performs (step >>= f) b (names ++ names') := by
  intro g hg
  obtain ⟨g₁, hret, hmarks⟩ := h g hg
  obtain ⟨g₂, hret', hmarks'⟩ := h' g₁ hmarks.resolver
  exact ⟨g₂, returns_bind.mpr ⟨a, g₁, hret, hret'⟩, hmarks.trans hmarks'⟩

end Performs

namespace Carries

variable {step step' : GenerationM α} {f f' : α → GenerationM β}

/-- A step that has returned a value performs it in every scope that it carries over to. -/
theorem performs (h : Carries scope scope' step step') {a : α} {names : List String}
    (ha : scope.Performs step a names) : ∃ names', scope'.Performs step' a names' := by
  obtain ⟨g₁, hret, -⟩ := ha {} At.empty
  obtain ⟨names', -, hperforms⟩ := h {} a g₁ At.empty hret
  exact ⟨names', hperforms⟩

theorem pure (a : α) : Carries scope scope' (pure a) (pure a) := by
  intro g a' g₁ hg hret
  obtain ⟨rfl, rfl⟩ := returns_pure.mp hret
  exact ⟨[], .refl hg, fun g' hg' => ⟨g', returns_pure.mpr ⟨rfl, rfl⟩, .refl hg'⟩⟩

/-- What fails carries over to anything. -/
theorem throw (e : GenerationError) : Carries scope scope' (throw e) step' :=
  fun _ _ _ _ hret => absurd hret returns_throw

theorem unsupported (context detail : String) :
    Carries scope scope' (unsupported context detail) step' :=
  fun _ _ _ _ hret => absurd hret returns_unsupported

theorem lift (e : Except GenerationError α) :
    Carries scope scope' (liftExcept e) (liftExcept e) := by
  intro g a g₁ hg hret
  obtain ⟨hok, rfl⟩ := returns_liftExcept.mp hret
  exact ⟨[], .refl hg, fun g' hg' => ⟨g', returns_liftExcept.mpr ⟨hok, rfl⟩, .refl hg'⟩⟩

theorem bind (h : Carries scope scope' step step') (hf : ∀ a, Carries scope scope' (f a) (f' a)) :
    Carries scope scope' (step >>= f) (step' >>= f') := by
  intro g b g₂ hg hret
  obtain ⟨a, g₁, hstep, hrest⟩ := returns_bind.mp hret
  obtain ⟨names, hmarks, hperforms⟩ := h g a g₁ hg hstep
  obtain ⟨names', hmarks', hperforms'⟩ := hf a g₁ b g₂ hmarks.resolver hrest
  exact ⟨names ++ names', hmarks.trans hmarks', hperforms.bind hperforms'⟩

theorem ite {c : Prop} [Decidable c] {x x' y y' : GenerationM α}
    (hx : Carries scope scope' x x') (hy : Carries scope scope' y y') :
    Carries scope scope' (if c then x else y) (if c then x' else y') := by
  by_cases hc : c
  · rwa [if_pos hc, if_pos hc]
  · rwa [if_neg hc, if_neg hc]

theorem map (g : α → β) (h : Carries scope scope' step step') :
    Carries scope scope' (g <$> step) (g <$> step') := by
  rw [map_eq_pure_bind, map_eq_pure_bind]
  exact h.bind fun a => pure (g a)

theorem mapM {γ : Type} {step step' : γ → GenerationM α}
    (h : ∀ c, Carries scope scope' (step c) (step' c)) (l : List γ) :
    Carries scope scope' (l.mapM step) (l.mapM step') := by
  induction l with
  | nil => exact pure []
  | cons c l ih =>
      rw [List.mapM_cons, List.mapM_cons]
      exact (h c).bind fun a => ih.bind fun as => pure (a :: as)

theorem optionMapM {γ : Type} {step step' : γ → GenerationM α}
    (h : ∀ c, Carries scope scope' (step c) (step' c)) (o : Option γ) :
    Carries scope scope' (o.mapM step) (o.mapM step') := by
  cases o with
  | none => exact pure none
  | some c => exact (h c).map some

end Carries
end Scope

/-! ## Steps of a run -/

namespace Generation

open Scope

variable {scope scope' : Scope}

theorem note_carries (level : Log.Level) (target message : String) :
    Carries scope scope' (note level target message) (note level target message) :=
  fun _ _ _ hg hret => ⟨[], note_marks hg hret,
    fun _ hg' => ⟨_, returns_modify.mpr rfl, hg', rfl⟩⟩

theorem require_carries (t : TypeExpr) : Carries scope scope' (require t) (require t) :=
  fun _ _ _ hg hret => ⟨t.dependencies, require_marks hg hret,
    fun _ hg' => ⟨_, returns_modify.mpr rfl, hg', rfl⟩⟩

section PartOf

variable (h : scope.PartOf scope')
include h

theorem resolving_carries (s : Schema) (context : String) :
    Carries scope scope' (resolving (scope.resolve s context))
      (resolving (scope'.resolve s context)) := by
  intro g t g₁ hg hret
  obtain ⟨htyped, hmarks⟩ := resolving_marks hg hret
  refine ⟨[], hmarks, fun g' hg' => ⟨_, returns_resolving.mpr ⟨?_, rfl⟩, ?_, rfl⟩⟩
  · exact (resolve_eq_ok_iff hg').mpr (htyped.of_partOf h)
  · exact hg'.ask (.schema s context)

theorem resolving_argument_carries (reference : String) :
    Carries scope scope' (resolving (scope.memberParam reference))
      (resolving (scope'.memberParam reference)) := by
  intro g t g₁ hg hret
  obtain ⟨⟨name, s, hs, htyped⟩, hmarks⟩ := resolving_argument_marks hg hret
  refine ⟨[], hmarks, fun g' hg' => ⟨_, returns_resolving.mpr ⟨?_, rfl⟩, ?_, rfl⟩⟩
  · exact (memberParam_eq_ok_iff hg').mpr ⟨name, s, h.schema? hs, htyped.of_partOf h⟩
  · exact hg'.ask (.argument reference)

theorem resolveWanted_carries (s : Schema) (context : String) :
    Carries scope scope' (resolveWanted scope s context) (resolveWanted scope' s context) :=
  (resolving_carries h s context).bind fun t => (require_carries t).bind fun _ => .pure t

end PartOf
end Generation

/-! ## Operations -/

namespace Operation

open Scope

variable {scope scope' : Scope} (h : scope.PartOf scope')
include h

theorem paramOf_carries (operation : String) (p : Parameter) :
    Carries scope scope' (paramOf scope operation p) (paramOf scope' operation p) := by
  unfold paramOf
  cases location? p.location with
  | none => exact .throw _
  | some location =>
    cases p.schema with
    | none => exact .unsupported _ _
    | some s => exact (resolveWanted_carries h s _).bind fun _ => .pure _

theorem bodyOf_carries (operation : String) (b : RequestBody) :
    Carries scope scope' (bodyOf scope operation b) (bodyOf scope' operation b) := by
  unfold bodyOf
  cases jsonSchema? b.content with
  | none => exact .unsupported _ _
  | some s => exact (resolveWanted_carries h s _).bind fun _ => .pure _

/-- A payload that is found through a reference to an envelope is found in the whole too. -/
theorem payload?_of_partOf {handler : Handler} {s : Schema}
    (hs : payload? scope.document handler = some s) :
    payload? scope'.document handler = some s := by
  unfold payload? at hs ⊢
  obtain ⟨response, hresponse, hs⟩ := Option.bind_eq_some_iff.mp hs
  obtain ⟨r, hr, hs⟩ := Option.bind_eq_some_iff.mp hs
  obtain ⟨content, hcontent, hs⟩ := Option.bind_eq_some_iff.mp hs
  refine Option.bind_eq_some_iff.mpr ⟨response, hresponse, ?_⟩
  refine Option.bind_eq_some_iff.mpr ⟨r, (h.response? response).trans hr, ?_⟩
  refine Option.bind_eq_some_iff.mpr ⟨content, hcontent, ?_⟩
  dsimp only at hs ⊢
  cases hreference : content.reference with
  | none =>
      rw [hreference] at hs
      exact hs
  | some reference =>
      rw [hreference] at hs
      obtain ⟨envelope, henvelope, hs⟩ := Option.bind_eq_some_iff.mp hs
      obtain ⟨⟨name, s'⟩, hfound, heq⟩ := Option.map_eq_some_iff.mp henvelope
      have hfound' := Option.map_eq_some_iff.mpr ⟨(name, s'), h.schema? hfound, heq⟩
      exact Option.bind_eq_some_iff.mpr ⟨envelope, hfound', hs⟩

theorem ofHandler_carries (path : String) (item : PathItem) (method : Method)
    (handler : Handler) :
    Carries scope scope' (ofHandler scope path item method handler)
      (ofHandler scope' path item method handler) := by
  unfold ofHandler
  cases name? item handler with
  | none => exact .throw _
  | some name =>
    refine (Carries.mapM (paramOf_carries h name) _).bind fun params => ?_
    refine (Carries.optionMapM (bodyOf_carries h name) _).bind fun body => ?_
    cases hpayload : payload? scope.document handler with
    | none => exact .throw _
    | some payload =>
      rw [payload?_of_partOf h hpayload]
      exact (resolveWanted_carries h payload _).bind fun _ => .pure _

theorem ofPaths_carries (before : List Operation) (paths : List (String × PathItem)) :
    Carries scope scope' (ofPaths scope before paths) (ofPaths scope' before paths) := by
  induction paths generalizing before with
  | nil => exact .pure _
  | cons entry rest ih =>
      obtain ⟨path, item⟩ := entry
      unfold ofPaths
      cases handler? item with
      | none => exact .throw _
      | some found =>
        refine (ofHandler_carries h path item found.1 found.2).bind fun op => ?_
        exact .ite (.throw _) (.ite (.throw _) (ih _))

end Operation

/-! ## Declarations -/

namespace Declaration

open Scope

variable {scope scope' : Scope}

theorem namedValues_carries (name : String) (number : Scalar) (before : List NamedValue)
    (values : List EnumValue) :
    Carries scope scope' (namedValues name number before values)
      (namedValues name number before values) := by
  induction values generalizing before with
  | nil => exact .pure _
  | cons v rest ih =>
      unfold namedValues
      refine (Carries.lift _).bind fun literal => ?_
      exact .ite ((note_carries _ _ _).bind fun _ => ih _) (ih _)

theorem enumeration_carries (name : String) (s : Schema) :
    Carries scope scope' (enumeration name s) (enumeration name s) := by
  unfold enumeration
  cases enumNumber? s.format with
  | none => exact .unsupported _ _
  | some number => exact (namedValues_carries name number [] _).bind fun _ => .pure _

variable (h : scope.PartOf scope')
include h

theorem fields_carries (name : String) (s : Schema) (arg : Option TypeExpr) :
    Carries scope scope' (fields scope name s arg) (fields scope' name s arg) := by
  unfold fields
  refine Carries.mapM (fun entry => ?_) _
  exact (resolving_carries h _ _).bind fun t => (require_carries _).bind fun _ => .pure _

theorem shapeOf_carries (name : String) (s : Schema) :
    Carries scope scope' (shapeOf scope name s) (shapeOf scope' name s) := by
  unfold shapeOf
  refine .ite (enumeration_carries name s) (.ite ?_ (.ite ?_ (.ite (.pure _) (.unsupported _ _))))
  · exact (resolveWanted_carries h s name).bind fun _ => .pure _
  · exact (fields_carries h name s none).bind fun _ => .pure _

theorem ofSchema_carries (name : String) :
    Carries scope scope' (ofSchema scope name) (ofSchema scope' name) := by
  unfold ofSchema
  cases hs : scope.document.components.schemas.find? name with
  | none => exact .throw _
  | some s =>
      rw [h.schemas hs]
      exact (shapeOf_carries h name s).bind fun _ => .pure _

theorem ofFamily_carries (f : Family) :
    Carries scope scope' (ofFamily scope f) (ofFamily scope' f) := by
  unfold ofFamily
  rw [h.membersOf]
  cases scope.index.membersOf f.name with
  | nil => exact .throw _
  | cons template rest =>
    dsimp only
    cases hs : scope.document.components.schemas.find? template with
    | none => exact .throw _
    | some s =>
        rw [h.schemas hs]
        refine .ite (.unsupported _ _) ((resolving_argument_carries h template).bind fun arg => ?_)
        refine (fields_carries h template s (some arg)).bind fun _ => ?_
        exact (note_carries _ _ _).bind fun _ => .pure _

theorem ofIdent_carries (ident : String) :
    Carries scope scope' (ofIdent scope ident) (ofIdent scope' ident) := by
  unfold ofIdent
  cases Family.ofName? ident with
  | some f => exact ofFamily_carries h f
  | none =>
      dsimp only
      cases hname : scope.index.schemaFor? ident with
      | none => exact .throw _
      | some name =>
          rw [h.schemaFor? hname]
          exact ofSchema_carries h name

end Declaration
end Bindery
