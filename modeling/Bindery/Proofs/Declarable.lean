import Bindery.Proofs.Kinds

/-! # Which names can be declared

Every name that a type mentions belongs to a schema or to a family with members
(`Scope.Typed.known`).  Such a name can be declared after a schema, the first member of the family
or the only schema of the name, unless it is the name of a member itself, which mapped definitions
and enumerations can point to, or that of a family which a schema has taken while the family has
no members (`Scope.Known.xor`).  The names that wait for their declaration are of this kind at any
time, so exactly the names of these two sorts are refused when their turn comes
(`Scope.xor_declarable`). -/

namespace Bindery

open Document Naming

namespace TypeExpr

theorem dependencies_wrap (s : Schema) (t : TypeExpr) :
    (s.wrap t).dependencies = t.dependencies := by
  unfold Schema.wrap
  split <;> rfl

end TypeExpr

namespace Scope

variable (scope : Scope)

/-- The name of a schema, or of a family with members. -/
inductive Known (i : String) : Prop
  | schema {name : String} (key : name ∈ scope.document.components.schemas.keys)
      (named : typeName name = i)
  | family {f : Family} (mem : f ∈ Family.all) (named : f.name = i)
      (members : scope.index.membersOf f.name ≠ [])

/-- A name that is declared after a schema that is there: a family's after the first member, any
other after the only schema of the name. -/
inductive Declarable (i : String) : Prop
  | family {f : Family} {first : String} {rest : List String} {s : Schema}
      (named : Family.ofName? i = some f)
      (members : scope.index.membersOf f.name = first :: rest)
      (schema : scope.document.components.schemas.find? first = some s)
  | schema {name : String} {s : Schema} (named : Family.ofName? i = none)
      (indexed : scope.index.schemaFor? i = some name)
      (schema : scope.document.components.schemas.find? name = some s)
      (unique : ∀ other ∈ scope.document.components.schemas.keys, typeName other = i →
        other = name)

/-- The name of a member, or of a family without members. -/
inductive Undeclarable (i : String) : Prop
  | member {f : Family} {rest : String} (named : Family.ofMember? i = some (f, rest))
  | deserted {f : Family} (named : Family.ofName? i = some f)
      (members : scope.index.membersOf f.name = [])

variable {scope} {i : String}

/-! ## Names and their schemas -/

section Indexed

variable (hscope : scope.Indexed)
include hscope

theorem Indexed.membersOf_ne_nil {name rest : String} {f : Family}
    (hkey : name ∈ scope.document.components.schemas.keys)
    (hf : Family.ofMember? (typeName name) = some (f, rest)) :
    scope.index.membersOf f.name ≠ [] := by
  rw [hscope.covers.membersOf_eq]
  refine List.ne_nil_of_mem (a := name) (List.mem_filter.mpr ⟨hkey, ?_⟩)
  simp [NameIndex.isMemberOf, hf]

theorem Indexed.mem_keys_of_mem_membersOf {family name : String}
    (h : name ∈ scope.index.membersOf family) :
    name ∈ scope.document.components.schemas.keys := by
  rw [hscope.covers.membersOf_eq, List.mem_filter] at h
  exact h.1

theorem Declarable.of_member {f : Family} (hf : f ∈ Family.all)
    (hmembers : scope.index.membersOf f.name ≠ []) : scope.Declarable f.name := by
  obtain ⟨first, rest, hcons⟩ := List.exists_cons_of_ne_nil hmembers
  obtain ⟨s, hs⟩ := Dict.mem_keys_iff.mp
    (hscope.mem_keys_of_mem_membersOf (hcons ▸ List.mem_cons_self))
  exact .family (Family.ofName?_eq_some_iff.mpr ⟨hf, rfl⟩) hcons hs

theorem Declarable.of_key {name : String}
    (hkey : name ∈ scope.document.components.schemas.keys)
    (hmember : Family.ofMember? (typeName name) = none)
    (hfamily : Family.ofName? (typeName name) = none) : scope.Declarable (typeName name) := by
  obtain ⟨s, hs⟩ := Dict.mem_keys_iff.mp hkey
  have hindexed := hscope.covers.schemaFor_iff.mpr ⟨hkey, hmember, rfl⟩
  refine .schema hfamily hindexed hs fun other hother heq => ?_
  -- The index has one schema for a type name, and both would be it.
  have hnot : Family.ofMember? (typeName other) = none := by rw [heq, hmember]
  have hother := hscope.covers.schemaFor_iff.mpr ⟨hother, hnot, heq⟩
  exact Option.some.inj (hother.symm.trans hindexed)

theorem Declarable.not_undeclarable (h : scope.Declarable i) : ¬ scope.Undeclarable i := by
  intro hun
  cases h with
  | family hf hcons =>
      obtain ⟨hmem, rfl⟩ := Family.ofName?_eq_some_iff.mp hf
      cases hun with
      | member hm => cases (Family.ofMember?_name hmem).symm.trans hm
      | deserted hf' hnil =>
          cases hf.symm.trans hf'
          cases hcons.symm.trans hnil
  | schema hnone hindexed =>
      cases hun with
      | member hm =>
          obtain ⟨-, hnot, rfl⟩ := hscope.covers.schemaFor_iff.mp hindexed
          cases hnot.symm.trans hm
      | deserted hf => cases hnone.symm.trans hf

/-- What is known can be declared, or is of one of the two sorts that cannot. -/
theorem Known.xor (h : scope.Known i) : Xor (scope.Declarable i) (scope.Undeclarable i) := by
  suffices h : scope.Declarable i ∨ scope.Undeclarable i from
    h.elim (fun h => .inl ⟨h, h.not_undeclarable hscope⟩)
      fun h => .inr ⟨h, fun hd => hd.not_undeclarable hscope h⟩
  cases h with
  | family hf hname hmembers => exact .inl (hname ▸ .of_member hscope hf hmembers)
  | @schema name hkey hname =>
      subst hname
      cases hm : Family.ofMember? (typeName name) with
      | some m => exact .inr (.member hm)
      | none =>
        cases hf : Family.ofName? (typeName name) with
        | none => exact .inl (.of_key hscope hkey hm hf)
        | some f =>
            obtain ⟨hmem, heq⟩ := Family.ofName?_eq_some_iff.mp hf
            exact .inr (.deserted hf (hscope.membersOf_eq_nil hkey hmem heq.symm))

/-- Declaring a name that cannot be declared fails when the name is looked up. -/
theorem Undeclarable.run_ofIdent (h : scope.Undeclarable i) (g : Generation) :
    (Declaration.ofIdent scope i).run g = (.error (.unresolvedReference i), g) := by
  cases h with
  | @member f rest hm =>
      have hname : Family.ofName? i = none := by
        refine Option.eq_none_iff_forall_ne_some.mpr fun f' hf' => ?_
        obtain ⟨hmem, rfl⟩ := Family.ofName?_eq_some_iff.mp hf'
        cases (Family.ofMember?_name hmem).symm.trans hm
      have hindex : scope.index.schemaFor? i = none := by
        refine Option.eq_none_iff_forall_ne_some.mpr fun name hindexed => ?_
        obtain ⟨-, hnot, rfl⟩ := hscope.covers.schemaFor_iff.mp hindexed
        cases hnot.symm.trans hm
      rw [Declaration.ofIdent, hname]
      simp only [hindex]
      exact run_throw _ g
  | deserted hf hnil =>
      obtain ⟨-, rfl⟩ := Family.ofName?_eq_some_iff.mp hf
      rw [Declaration.ofIdent, hf]
      simp only [Declaration.ofFamily, hnil]
      exact run_throw _ g

end Indexed

/-! ## Names in types -/

variable {t : TypeExpr}

theorem Grounded.known (h : scope.Grounded t) (hchildren : t.children = [])
    (hi : i ∈ t.dependencies) : scope.Known i := by
  rw [TypeExpr.dependencies_eq, hchildren, List.flatMap_nil, List.append_nil,
    Option.mem_toList] at hi
  have hname : t.name? = some i := by
    cases t with
    | generic family arg => cases hchildren
    | _ => exact hi
  obtain ⟨name, hkey, hname⟩ := h.name (TypeExpr.mem_parts_self t) hname
  exact .schema hkey hname

theorem children_of_enumKey {reference : String} (h : scope.enumKey reference = .ok t) :
    t.children = [] := by
  unfold enumKey at h
  split at h
  · cases h
    rfl
  · obtain ⟨_, -, rfl⟩ := map_eq_ok.mp h
    rfl

theorem children_of_suffixParam {suffix : String} (h : scope.suffixParam suffix = .ok t) :
    t.children = [] := by
  dsimp only [suffixParam] at h
  repeat' split at h
  all_goals cases h
  all_goals rfl

theorem children_of_leafType {s : Schema} {context : String} {l : Leaf}
    (h : scope.leafType s context l = .ok t) : t.children = [] := by
  cases l with
  | key target =>
      obtain ⟨_, -, rfl⟩ := map_eq_ok.mp h
      rfl
  | anyObject =>
      cases h
      rfl
  | enumeration reference =>
      obtain ⟨_, -, rfl⟩ := map_eq_ok.mp h
      split <;> rfl
  | scalar =>
      rcases scalarType_eq_ok_cases h with rfl | ⟨_, rfl⟩ <;> rfl
  | refused => cases h

/-- The rules mention families only where these have members, and otherwise names of schemas. -/
theorem Typed.known (hscope : scope.Indexed) {x : Subject} (h : scope.Typed x t)
    (hi : i ∈ t.dependencies) : scope.Known i := by
  induction h with
  | declared h =>
      obtain rfl := List.mem_singleton.mp hi
      obtain ⟨name, hkey, hname⟩ := target_eq_declared _ h
      exact .schema hkey hname
  | applied h _ ih =>
      obtain ⟨hs, f, rest, hf, rfl⟩ := target_eq_member _ h
      rcases List.mem_cons.mp hi with rfl | hi
      · exact .family (Family.mem_all_of_ofMember? hf) rfl
          (hscope.membersOf_ne_nil (Dict.mem_keys_of_find? hs) hf)
      · exact ih hi
  | suffix _ h => exact (suffixParam_grounded hscope h).known (children_of_suffixParam h) hi
  | part _ _ ih => exact ih hi
  | enumKeys _ h => exact (enumKey_grounded h).known (children_of_enumKey h) hi
  | freeKeys _ _ ih => exact ih hi
  | pointer _ _ ih => exact ih hi
  | alternative _ _ ih =>
      rw [TypeExpr.dependencies_wrap] at hi
      exact ih hi
  | dictionary _ _ _ ihk ihv =>
      rw [TypeExpr.dependencies_wrap, TypeExpr.dependencies, List.mem_append] at hi
      exact hi.elim ihk ihv
  | array _ _ ih =>
      rw [TypeExpr.dependencies_wrap] at hi
      exact ih hi
  | leaf _ h =>
      rw [TypeExpr.dependencies_wrap] at hi
      exact (leafType_grounded h).known (children_of_leafType h) hi

/-! ## Names that wait -/

theorem Declares.known (hscope : scope.Indexed) {d : Declaration} (h : scope.Declares d)
    (hi : i ∈ d.dependencies) : scope.Known i := by
  obtain ⟨t, ht, hi⟩ := TypeExpr.mem_allDependencies.mp hi
  cases h with
  | schema h =>
      obtain ⟨s, hs⟩ := h.given ht
      exact hs.known hscope hi
  | family h =>
      rw [Declaration.types, h.shape] at ht
      obtain ⟨f, hf, rfl⟩ := List.mem_map.mp ht
      obtain ⟨property, -, -, t, htyped, heq⟩ := exists_of_forall₂ h.fields hf
      rw [heq] at hi
      rcases TypeExpr.mem_dependencies_substitute hi with hi | hi
      · exact htyped.known hscope hi
      · cases hi

/-- A name that waits after any number of declarations. -/
theorem known_of_waiting (hscope : scope.Indexed) {journal : List Log.Event}
    {ops : List Operation} {g g' : Generation} {n : Nat} {ds : List Declaration} {w : Wanted}
    (hops : Returns (Operation.ofDocument scope) { journal } ops g)
    (hds : Returns (Declaration.declareWithin scope n) g ds g')
    (hnext : g'.wanted.next? = some (i, w)) : scope.Known i := by
  obtain ⟨hgiven, hmarks⟩ := Operation.ofDocument_yields _ ops g At.empty hops
  obtain ⟨hdrained, -⟩ := Declaration.declareWithin_drained hscope n hmarks.resolver hds
  rcases hdrained.mem_marked.mp (Wanted.mem_marked_of_next? hnext) with hi | ⟨d, hd, hi⟩
  · rw [hmarks.wanted, Wanted.mem_marked_addAll] at hi
    rcases hi with hi | hi
    · cases hi
    · obtain ⟨op, hop, hi⟩ := List.mem_flatMap.mp hi
      obtain ⟨t, ht, hi⟩ := TypeExpr.mem_allDependencies.mp hi
      obtain ⟨s, hs⟩ := hgiven op hop t ht
      exact hs.known hscope hi
  · exact (hdrained.declares hd).known hscope hi

/-- A name in an answer of the resolver can be declared, or else is the name of a member or of a
family without members.  This holds of the names that wait for their declaration too: those that
can be declared have a schema to be declared after, and all others are refused. -/
theorem xor_declarable {doc : Document} {scope : Scope} (h : Scope.ofDocument doc = .ok scope) :
    (∀ qs s context t, scope.answer (scope.after qs) (.schema s context) = .ok t →
      ∀ i ∈ t.dependencies, Xor (scope.Declarable i) (scope.Undeclarable i)) ∧
    ∀ journal ops g n ds g' i w, Returns (Operation.ofDocument scope) { journal } ops g →
      Returns (Declaration.declareWithin scope n) g ds g' → g'.wanted.next? = some (i, w) →
      Xor (scope.Declarable i) (scope.Undeclarable i ∧
        ∀ g, (Declaration.ofIdent scope i).run g = (.error (.unresolvedReference i), g)) := by
  have hscope := (indexed_of_ofDocument h).2
  constructor
  · intro qs s context t ht i hi
    exact (((resolve_eq_ok_iff (scope.after_at qs)).mp ht).known hscope hi).xor hscope
  · intro journal ops g n ds g' i w hops hds hnext
    rcases (known_of_waiting hscope hops hds hnext).xor hscope with ⟨hd, hun⟩ | ⟨hun, hd⟩
    · exact .inl ⟨hd, fun h => hun h.1⟩
    · exact .inr ⟨⟨hun, hun.run_ofIdent hscope⟩, hd⟩

/-! ## Two names that cannot be declared -/

/-- A schema that takes the name of a family without members, a member of another family, and an
operation that answers with the first. -/
def strays : Document where
  paths := Dict.ofList [("/Search/", {
    summary := some "Search"
    get := some (Bindings.answering "#/components/schemas/SearchResult") })]
  components.schemas := Dict.ofList
    [("ItemComponentSetOfint64", { type := some "object" }),
     ("SearchResult", { type := some "object" })]

def straysScope : Scope where
  document := strays
  index.types := Dict.ofList [("SearchResult", "SearchResult")]
  index.members := Dict.ofList [("ItemComponentSet", ["ItemComponentSetOfint64"])]

/-- The key of a record that is a member of a family. -/
def memberKey : Schema where
  type := some "integer"
  format := some "int64"
  mappedDefinition := some "#/components/schemas/ItemComponentSetOfint64"

theorem ofDocument_strays : Scope.ofDocument strays = .ok straysScope :=
  Bindings.scope_of_toOption straysScope (by decide +kernel)

theorem answer_memberKey : straysScope.answer (straysScope.after []) (.schema memberKey "key") =
    .ok (.hashRef "ItemComponentSetOfint64") :=
  Bindings.eq_ok_of_toOption (by decide +kernel)

theorem returns_strays : ∃ ops g w, Returns (Operation.ofDocument straysScope) {} ops g ∧
    g.wanted.next? = some ("SearchResult", w) := by
  have hops : (((Operation.ofDocument straysScope).run {}).1.toOption).isSome := by decide +kernel
  have hnext : ((Operation.ofDocument straysScope).run {}).2.wanted.next?.map Prod.fst =
      some "SearchResult" := by decide +kernel
  obtain ⟨ops, hops⟩ := Option.isSome_iff_exists.mp hops
  obtain ⟨⟨_, w⟩, hnext, rfl⟩ := Option.map_eq_some_iff.mp hnext
  exact ⟨ops, _, w, ⟨Bindings.eq_ok_of_toOption hops, rfl⟩, hnext⟩

/-- The resolver gives a type that names a member, which is neither a family nor the name that a
schema is indexed under. -/
theorem not_indexed_strays : Scope.ofDocument strays = .ok straysScope ∧
    ¬ ∀ qs s context t, straysScope.answer (straysScope.after qs) (.schema s context) = .ok t →
      ∀ i ∈ t.dependencies,
        (∃ f, Family.ofName? i = some f ∧ straysScope.index.membersOf f.name ≠ []) ∨
          (Family.ofName? i = none ∧ (straysScope.index.schemaFor? i).isSome) := by
  refine ⟨ofDocument_strays, fun h => ?_⟩
  have hmember := h [] memberKey "key" _ answer_memberKey _ List.mem_cons_self
  rcases hmember with ⟨f, hf, -⟩ | ⟨-, hindexed⟩
  · have hnone : Family.ofName? "ItemComponentSetOfint64" = none := by decide
    cases hnone.symm.trans hf
  · revert hindexed
    decide +kernel

theorem xor_declarable_strays : Scope.ofDocument strays = .ok straysScope ∧
    straysScope.answer (straysScope.after []) (.schema memberKey "key") =
      .ok (.hashRef "ItemComponentSetOfint64") ∧
    Xor (straysScope.Declarable "ItemComponentSetOfint64")
      (straysScope.Undeclarable "ItemComponentSetOfint64") ∧
    Xor (straysScope.Declarable "SearchResult") (straysScope.Undeclarable "SearchResult" ∧
      ∀ g, (Declaration.ofIdent straysScope "SearchResult").run g =
        (.error (.unresolvedReference "SearchResult"), g)) := by
  obtain ⟨hanswer, hwaiting⟩ := xor_declarable ofDocument_strays
  obtain ⟨ops, g, w, hops, hnext⟩ := returns_strays
  have hnone : Returns (Declaration.declareWithin straysScope 0) g [] g :=
    returns_pure.mpr ⟨rfl, rfl⟩
  exact ⟨ofDocument_strays, answer_memberKey,
    hanswer [] memberKey "key" _ answer_memberKey _ List.mem_cons_self,
    hwaiting [] ops g 0 [] g _ w hops hnone hnext⟩

end Scope
end Bindery
