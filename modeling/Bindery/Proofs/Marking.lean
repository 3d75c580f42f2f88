import Bindery.Proofs.Operations
import Bindery.Proofs.Typing.History

/-! # What building an operation marks

A step of a generation run yields its value when its value has a given property, the names that
the value mentions are the names that the step has marked, in their order, and the resolver is
between two questions again (`Scope.Yields`).  The steps that build operations all do
(`Operation.ofDocument_yields`). -/

namespace Bindery

open Document

namespace Wanted

variable (w : Wanted) (names names' : List String)

theorem addAll_append : w.addAll (names ++ names') = (w.addAll names).addAll names' :=
  List.foldl_append

theorem handed_add (ident : String) : (w.add ident).handed = w.handed := by
  unfold add
  split <;> rfl

theorem handed_addAll : (w.addAll names).handed = w.handed := by
  induction names generalizing w with
  | nil => rfl
  | cons ident names ih => exact (ih (w.add ident)).trans (w.handed_add ident)

theorem mem_marked_add {ident other : String} :
    other ∈ (w.add ident).marked ↔ other ∈ w.marked ∨ other = ident := by
  rw [marked_add]
  split
  · rename_i hmem
    exact ⟨.inl, fun h => h.elim id fun heq => heq ▸ hmem⟩
  · rw [List.mem_append, List.mem_singleton]

theorem mem_marked_addAll {other : String} :
    other ∈ (w.addAll names).marked ↔ other ∈ w.marked ∨ other ∈ names := by
  induction names generalizing w with
  | nil => simp [addAll]
  | cons ident names ih =>
      show other ∈ ((w.add ident).addAll names).marked ↔ _
      rw [ih, mem_marked_add, List.mem_cons, or_assoc]

end Wanted

namespace TypeExpr

/-- The declared names that types mention, from left to right. -/
def allDependencies (ts : List TypeExpr) : List String := ts.flatMap dependencies

theorem mem_allDependencies {ts : List TypeExpr} {ident : String} :
    ident ∈ allDependencies ts ↔ ∃ t ∈ ts, ident ∈ t.dependencies := List.mem_flatMap

end TypeExpr

namespace Scope

variable (scope : Scope)

/-- From the one state to the other the given names have been marked, and the resolver is between
two questions. -/
structure Marks (g : Generation) (names : List String) (g' : Generation) : Prop where
  resolver : scope.At [] g'.resolver
  wanted : g'.wanted = g.wanted.addAll names

variable {scope}

theorem Marks.trans {g g' g'' : Generation} {names names' : List String}
    (h : scope.Marks g names g') (h' : scope.Marks g' names' g'') :
    scope.Marks g (names ++ names') g'' :=
  ⟨h'.resolver, by rw [h'.wanted, h.wanted, Wanted.addAll_append]⟩

variable (scope)

/-- The step's values have the property, and the step has marked the names of each. -/
def Yields {α : Type} (step : GenerationM α) (names : α → List String) (P : α → Prop) : Prop :=
  ∀ g a g', scope.At [] g.resolver → Returns step g a g' → P a ∧ scope.Marks g (names a) g'

/-- The rules give the type to some schema. -/
def Given (t : TypeExpr) : Prop := ∃ s, scope.Typed (.schema s none) t

variable {scope}

theorem exists_of_forall₂ {α β : Type} {P : α → β → Prop} {l : List α} {l' : List β} {b : β}
    (h : List.Forall₂ P l l') (hb : b ∈ l') : ∃ a ∈ l, P a b := by
  induction h with
  | nil => cases hb
  | cons hP _ ih =>
      rcases List.mem_cons.mp hb with rfl | hb
      · exact ⟨_, List.mem_cons_self, hP⟩
      · obtain ⟨a, ha, hP⟩ := ih hb
        exact ⟨a, List.mem_cons_of_mem _ ha, hP⟩

theorem Yields.mapM {α β : Type} {step : α → GenerationM β} {names : β → List String}
    {P : α → β → Prop} {l : List α} (h : ∀ a ∈ l, scope.Yields (step a) names (P a)) :
    scope.Yields (l.mapM step) (fun bs => bs.flatMap names) (fun bs => List.Forall₂ P l bs) := by
  induction l with
  | nil =>
      intro g bs g' hg hret
      simp only [List.mapM_nil, returns_pure] at hret
      obtain ⟨rfl, rfl⟩ := hret
      exact ⟨.nil, hg, rfl⟩
  | cons a l ih =>
      intro g bs g' hg hret
      simp only [List.mapM_cons, returns_bind, returns_pure] at hret
      obtain ⟨b, t, hb, bs, t', hbs, rfl, rfl⟩ := hret
      obtain ⟨hP, hmarks⟩ := h a List.mem_cons_self g b t hg hb
      obtain ⟨hPs, hmarks'⟩ :=
        ih (fun a ha => h a (List.mem_cons_of_mem _ ha)) t bs t' hmarks.resolver hbs
      exact ⟨.cons hP hPs, hmarks.trans hmarks'⟩

end Scope

namespace Generation

variable {scope : Scope} {g g' : Generation}

theorem returns_resolving {α : Type} {step : ResolveM α} {a : α} :
    Returns (resolving step) g a g' ↔
      (step.run g.resolver).1 = .ok a ∧ { g with resolver := (step.run g.resolver).2 } = g' :=
  Iff.rfl

theorem note_marks (hg : scope.At [] g.resolver) {level : Log.Level} {target message : String}
    {u : PUnit} (h : Returns (note level target message) g u g') : scope.Marks g [] g' := by
  obtain rfl := returns_modify.mp h
  exact ⟨hg, rfl⟩

theorem require_marks (hg : scope.At [] g.resolver) {t : TypeExpr} {u : PUnit}
    (h : Returns (require t) g u g') : scope.Marks g t.dependencies g' := by
  obtain rfl := returns_modify.mp h
  exact ⟨hg, rfl⟩

/-- Asking the resolver marks nothing. -/
theorem resolving_marks (hg : scope.At [] g.resolver) {s : Schema} {context : String}
    {t : TypeExpr} (h : Returns (resolving (scope.resolve s context)) g t g') :
    scope.Typed (.schema s none) t ∧ scope.Marks g [] g' := by
  obtain ⟨hok, rfl⟩ := returns_resolving.mp h
  exact ⟨(Scope.resolve_eq_ok_iff hg).mp hok, hg.ask (.schema s context), rfl⟩

theorem resolveWanted_yields (s : Schema) (context : String) :
    scope.Yields (resolveWanted scope s context) TypeExpr.dependencies
      fun t => scope.Typed (.schema s none) t := by
  intro g t g' hg h
  simp only [resolveWanted, returns_bind, returns_pure] at h
  obtain ⟨t, g₁, hresolve, u, g₂, hrequire, rfl, rfl⟩ := h
  obtain ⟨htyped, hmarks⟩ := resolving_marks hg hresolve
  exact ⟨htyped, hmarks.trans (require_marks hmarks.resolver hrequire)⟩

end Generation

/-! ## Operations -/

/-- A parameter with its description in the document, by which its type is the one that the rules
give. -/
structure Param.DescribedBy (scope : Scope) (p : Parameter) (q : Param) : Prop
    extends Param.TakenFrom p q where
  typed : ∃ s, p.schema = some s ∧ scope.Typed (.schema s none) q.type

namespace Operation

/-- The types of an operation's parameters, body and response. -/
def types (op : Operation) : List TypeExpr :=
  op.params.map Param.type ++ op.body.toList.map Body.type ++ [op.response]

def dependencies (op : Operation) : List String := TypeExpr.allDependencies op.types

open Generation

variable {scope : Scope}

theorem paramOf_yields (operation : String) (p : Parameter) :
    scope.Yields (paramOf scope operation p) (fun p => p.type.dependencies)
      (Param.DescribedBy scope p) := by
  intro g q g' hg h
  have htaken := takenFrom_of_returns_paramOf h
  obtain ⟨location, s, t, -, hs, hresolve, rfl⟩ := returns_paramOf.mp h
  obtain ⟨htyped, hmarks⟩ := resolveWanted_yields s _ g t g' hg hresolve
  exact ⟨⟨htaken, s, hs, htyped⟩, hmarks⟩

theorem bodyOf_yields (operation : String) (b : RequestBody) :
    scope.Yields (bodyOf scope operation b) (fun b => b.type.dependencies)
      fun b => scope.Given b.type := by
  intro g body g' hg h
  obtain ⟨s, t, -, hresolve, rfl⟩ := returns_bodyOf.mp h
  obtain ⟨htyped, hmarks⟩ := resolveWanted_yields s _ g t g' hg hresolve
  exact ⟨⟨s, htyped⟩, hmarks⟩

theorem optionBody_yields (operation : String) (b : Option RequestBody) :
    scope.Yields (b.mapM (bodyOf scope operation))
      (fun b => TypeExpr.allDependencies (b.toList.map Body.type))
      fun b => ∀ t ∈ b.toList.map Body.type, scope.Given t := by
  intro g body g' hg h
  cases b with
  | none =>
      simp only [Option.mapM_none, returns_pure] at h
      obtain ⟨rfl, rfl⟩ := h
      exact ⟨by simp, hg, rfl⟩
  | some b =>
      simp only [Option.mapM_some, returns_map] at h
      obtain ⟨body, hbody, rfl⟩ := h
      obtain ⟨hgiven, hmarks⟩ := bodyOf_yields operation b g body g' hg hbody
      exact ⟨by simpa using hgiven, by simpa [TypeExpr.allDependencies] using hmarks⟩

theorem ofHandler_yields (path : String) (item : PathItem) (method : Method) (handler : Handler) :
    scope.Yields (ofHandler scope path item method handler) dependencies fun op =>
      List.Forall₂ (Param.DescribedBy scope) (parameters item handler) op.params ∧
        ∀ t ∈ op.types, scope.Given t := by
  intro g op g' hg h
  obtain ⟨name, payload, params, g₁, body, g₂, response, -, -, hparams, hbody, hresponse, rfl⟩ :=
    returns_ofHandler.mp h
  obtain ⟨hdescribed, hmarks₁⟩ :=
    Scope.Yields.mapM (fun p _ => paramOf_yields name p) g params g₁ hg hparams
  obtain ⟨hgiven, hmarks₂⟩ := optionBody_yields name _ g₁ body g₂ hmarks₁.resolver hbody
  obtain ⟨htyped, hmarks₃⟩ := resolveWanted_yields payload _ g₂ response g' hmarks₂.resolver
    hresponse
  refine ⟨⟨hdescribed, fun t ht => ?_⟩, ?_⟩
  · simp only [types, List.mem_append, List.mem_singleton] at ht
    rcases ht with (hparam | hbody) | rfl
    · obtain ⟨p, hp, rfl⟩ := List.mem_map.mp hparam
      obtain ⟨_, -, hdescribed⟩ := Scope.exists_of_forall₂ hdescribed hp
      obtain ⟨s, -, htyped⟩ := hdescribed.typed
      exact ⟨s, htyped⟩
    · exact hgiven t hbody
    · exact ⟨payload, htyped⟩
  · have hmarks := (hmarks₁.trans hmarks₂).trans hmarks₃
    simpa [dependencies, types, TypeExpr.allDependencies, List.flatMap_map] using hmarks

theorem ofPaths_yields (before : List Operation) (paths : List (String × PathItem)) (g : Generation)
    (ops : List Operation) (g' : Generation) (hg : scope.At [] g.resolver)
    (h : Returns (ofPaths scope before paths) g ops g') :
    ∃ new, ops = before ++ new ∧ (∀ op ∈ new, ∀ t ∈ op.types, scope.Given t) ∧
      scope.Marks g (new.flatMap dependencies) g' := by
  induction paths generalizing before g with
  | nil =>
      simp only [ofPaths, returns_pure] at h
      obtain ⟨rfl, rfl⟩ := h
      exact ⟨[], by simp, by simp, hg, rfl⟩
  | cons entry rest ih =>
      obtain ⟨method, handler, op, g₁, -, hop, -, -, h⟩ := returns_ofPaths_cons.mp h
      obtain ⟨⟨-, hgiven⟩, hmarks⟩ := ofHandler_yields entry.1 entry.2 method handler g op g₁ hg hop
      obtain ⟨new, rfl, hnew, hmarks'⟩ := ih (before ++ [op]) g₁ hmarks.resolver h
      refine ⟨op :: new, by simp, ?_, ?_⟩
      · intro op' hop'
        rcases List.mem_cons.mp hop' with rfl | hop'
        · exact hgiven
        · exact hnew op' hop'
      · rw [List.flatMap_cons]
        exact hmarks.trans hmarks'

theorem ofDocument_yields : scope.Yields (ofDocument scope)
    (fun ops => ops.flatMap dependencies) fun ops => ∀ op ∈ ops, ∀ t ∈ op.types, scope.Given t := by
  intro g ops g' hg h
  obtain ⟨g₁, hops, hnote⟩ := returns_ofDocument.mp h
  obtain ⟨new, rfl, hgiven, hmarks⟩ := ofPaths_yields [] _ g ops g₁ hg hops
  refine ⟨hgiven, ?_⟩
  simpa using hmarks.trans (note_marks hmarks.resolver hnote)

end Operation
end Bindery
