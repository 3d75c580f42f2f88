import Bindery.Proofs.Closure
import Bindery.Proofs.Extension.Runs

/-! # Further schemas

A schema outside the families whose type name is its own leaves the index as it is for all the
others (`Document.FurtherSchemas.partOf`).  Declaring what is wanted goes the same way in the
larger document and stops at the same point, though it might go on for longer
(`Declaration.closure_of_partOf`), so that the module stays the same
(`Bindings.text_of_furtherSchemas`). -/

namespace Bindery

open Document Naming

namespace Document

/-- A schema that only the second document has. -/
structure NewSchema (doc doc' : Document) (name : String) : Prop where
  mem : name ∈ doc'.components.schemas.keys
  not_mem : name ∉ doc.components.schemas.keys

/-- The second document has what the first has, and further schemas.  These are no members of
families, and their type names differ from one another, from the imported names, from the type
names of the first document's schemas outside the families, and from the names of the families
that have members there. -/
structure FurtherSchemas (doc doc' : Document) : Prop where
  paths : doc'.paths = doc.paths
  responses : doc'.components.responses = doc.components.responses
  schemas {name : String} {s : Schema} : doc.components.schemas.find? name = some s →
    doc'.components.schemas.find? name = some s
  ofMember? {name : String} : doc.NewSchema doc' name → Family.ofMember? (typeName name) = none
  eq_of_typeName_eq {name other : String} : doc.NewSchema doc' name → doc.NewSchema doc' other →
    typeName name = typeName other → name = other
  not_imported {name : String} : doc.NewSchema doc' name →
    typeName name ∉ Emission.importedNames
  typeName_ne {name other : String} : doc.NewSchema doc' name →
    other ∈ doc.components.schemas.keys → Family.ofMember? (typeName other) = none →
      typeName name ≠ typeName other
  family_ne {name member rest : String} {f : Family} : doc.NewSchema doc' name →
    member ∈ doc.components.schemas.keys → Family.ofMember? (typeName member) = some (f, rest) →
      typeName name ≠ f.name

namespace FurtherSchemas

variable {doc doc' : Document} (h : doc.FurtherSchemas doc')
include h

theorem isMemberOf_eq_false {name : String} (hname : doc.NewSchema doc' name) (family : String) :
    NameIndex.isMemberOf family name = false := by
  rw [NameIndex.isMemberOf, h.ofMember? hname]
  rfl

theorem indexable (hdoc : NameIndex.Indexable doc.components.schemas.keys) :
    NameIndex.Indexable doc'.components.schemas.keys := by
  constructor
  · intro name other hname hother hnone heq
    have hnone' : Family.ofMember? (typeName other) = none := by rw [heq]; exact hnone
    by_cases hold : name ∈ doc.components.schemas.keys
    · by_cases hold' : other ∈ doc.components.schemas.keys
      · exact hdoc.eq_of_typeName_eq hold hold' hnone heq
      · exact absurd heq (h.typeName_ne ⟨hother, hold'⟩ hold hnone)
    · by_cases hold' : other ∈ doc.components.schemas.keys
      · exact absurd heq.symm (h.typeName_ne ⟨hname, hold⟩ hold' hnone')
      · exact h.eq_of_typeName_eq ⟨hother, hold'⟩ ⟨hname, hold⟩ heq
  · intro name hname hnone
    by_cases hold : name ∈ doc.components.schemas.keys
    · exact hdoc.not_imported hold hnone
    · exact h.not_imported ⟨hname, hold⟩
  · intro name member hname hmember hnone
    by_cases hold' : member ∈ doc.components.schemas.keys
    · by_cases hold : name ∈ doc.components.schemas.keys
      · exact hdoc.not_taken hold hold' hnone
      · cases hfamily : Family.ofMember? (typeName member) with
        | none => rw [NameIndex.isMemberOf, hfamily, Option.any_none]
        | some found =>
            have hne := h.family_ne ⟨hname, hold⟩ hold' hfamily
            rw [NameIndex.isMemberOf, hfamily, Option.any_some]
            exact beq_false_of_ne hne.symm
    · exact h.isMemberOf_eq_false ⟨hmember, hold'⟩ _

theorem partOf {scope scope' : Scope} (hscope : Scope.ofDocument doc = .ok scope)
    (hscope' : Scope.ofDocument doc' = .ok scope') : scope.PartOf scope' := by
  obtain ⟨rfl, hix⟩ := Scope.indexed_of_ofDocument hscope
  obtain ⟨rfl, hix'⟩ := Scope.indexed_of_ofDocument hscope'
  refine ⟨h.schemas, h.responses, fun {ident name} hname => ?_, fun family => ?_⟩
  · obtain ⟨hmem, hrest⟩ := hix.covers.schemaFor_iff.mp hname
    exact hix'.covers.schemaFor_iff.mpr ⟨Dict.keys_subset (fun _ _ => h.schemas) hmem, hrest⟩
  · rw [hix.covers.membersOf_eq, hix'.covers.membersOf_eq,
      ← Dict.filter_contains_keys fun _ _ => h.schemas, List.filter_filter]
    refine List.filter_congr fun name hname => ?_
    -- A name that the first document lacks belongs to no family.
    cases hold : scope.document.components.schemas.contains name with
    | true => rw [Bool.and_true]
    | false =>
      have hnew : scope.document.NewSchema scope'.document name := by
        refine ⟨hname, fun hmem => ?_⟩
        obtain ⟨s, hs⟩ := Dict.mem_keys_iff.mp hmem
        simp [Dict.contains, hs] at hold
      rw [h.isMemberOf_eq_false hnew, Bool.false_and]

end FurtherSchemas
end Document

namespace Operation

variable {scope scope' : Scope}

theorem ofDocument_carries (h : scope.PartOf scope')
    (hpaths : scope'.document.paths = scope.document.paths) :
    Scope.Carries scope scope' (ofDocument scope) (ofDocument scope') := by
  unfold ofDocument
  rw [hpaths]
  refine (ofPaths_carries h [] _).bind fun ops => ?_
  exact (Generation.note_carries _ _ _).bind fun _ => .pure _

end Operation

namespace Declaration

open Generation

variable {scope scope' : Scope}

theorem declareWithin_nil (n : Nat) {g : Generation} (h : g.wanted.waiting = []) :
    Returns (declareWithin scope n) g [] g := by
  cases n with
  | zero => exact returns_pure.mpr ⟨rfl, rfl⟩
  | succ n => exact (returns_declareWithin_succ scope).mpr (.inl ⟨h, rfl, rfl⟩)

variable (h : scope.PartOf scope')
include h

/-- What is wanted is declared alike in the whole, where as many or more declarations are
allowed, once nothing is left to be declared. -/
theorem declareWithin_of_partOf {n n' : Nat} (hle : n ≤ n') {ds : List Declaration}
    {g g₁ g' : Generation} (hg : scope.At [] g.resolver) (hg' : scope'.At [] g'.resolver)
    (hwanted : g'.wanted = g.wanted) (hret : Returns (declareWithin scope n) g ds g₁)
    (hdone : g₁.wanted.waiting = []) :
    ∃ g₁', Returns (declareWithin scope' n') g' ds g₁' := by
  induction n generalizing n' ds g g' with
  | zero =>
      simp only [declareWithin, returns_pure] at hret
      obtain ⟨rfl, rfl⟩ := hret
      exact ⟨g', declareWithin_nil n' (hwanted ▸ hdone)⟩
  | succ n ih =>
      rcases (returns_declareWithin_succ scope).mp hret with
        ⟨-, rfl, rfl⟩ | ⟨ident, w, d, g₂, ds, hsome, hd, hds, rfl⟩
      · exact ⟨g', declareWithin_nil n' (hwanted ▸ hdone)⟩
      · obtain ⟨n', rfl⟩ := Nat.exists_eq_add_of_le' (Nat.le_trans (Nat.le_add_left 1 n) hle)
        -- Both runs hand out the same name, and its declaration marks the same names in both.
        obtain ⟨names, hmarks, hperforms⟩ :=
          ofIdent_carries h ident { g with wanted := w } d g₂ hg hd
        obtain ⟨g₂', hd', hmarks'⟩ := hperforms { g' with wanted := w } hg'
        have hsame : g₂'.wanted = g₂.wanted := hmarks'.wanted.trans hmarks.wanted.symm
        obtain ⟨g₁', hds'⟩ :=
          ih (Nat.le_of_succ_le_succ hle) hmarks.resolver hmarks'.resolver hsame hds
        rw [← hwanted] at hsome
        exact ⟨g₁', (returns_declareWithin_succ scope').mpr
          (.inr ⟨ident, w, d, g₂', ds, hsome, hd', hds', rfl⟩)⟩

theorem closureBudget_le : closureBudget scope ≤ closureBudget scope' := by
  have hle := (Dict.nodup_keys _).length_le_of_subset (Dict.keys_subset fun _ _ => h.schemas)
  simp only [Dict.length_keys] at hle
  unfold closureBudget
  omega

theorem closure_of_partOf (hscope : scope.Indexed) {ds : List Declaration}
    {g g₁ g' : Generation} (hg : scope.At [] g.resolver) (hg' : scope'.At [] g'.resolver)
    (hwanted : g'.wanted = g.wanted) (hret : Returns (closure scope) g ds g₁) :
    ∃ g₁', Returns (closure scope') g' ds g₁' := by
  simp only [closure, returns_bind, returns_pure] at hret ⊢
  obtain ⟨made, g₂, hmade, u, _, hnote, rfl, rfl⟩ := hret
  obtain ⟨hdrained, hdone⟩ := declareWithin_drained hscope _ hg hmade
  have hdone := hdone.resolve_right (Nat.ne_of_lt hdrained.length_lt)
  obtain ⟨g₂', hmade'⟩ :=
    declareWithin_of_partOf h (closureBudget_le h) hg hg' hwanted hmade hdone
  exact ⟨_, made, g₂', hmade', u, _, returns_modify.mpr rfl, rfl, rfl⟩

end Declaration

namespace Bindings

theorem gather_of_partOf {scope scope' : Scope} (h : scope.PartOf scope')
    (hscope : scope.Indexed) (hpaths : scope'.document.paths = scope.document.paths)
    {b : Bindings} {g g₁ g' : Generation} (hg : scope.At [] g.resolver)
    (hg' : scope'.At [] g'.resolver) (hwanted : g'.wanted = g.wanted)
    (hret : Returns (gather scope) g b g₁) : ∃ g₁', Returns (gather scope') g' b g₁' := by
  simp only [gather, returns_bind, returns_pure] at hret ⊢
  obtain ⟨ops, g₂, hops, ds, _, hds, u, _, -, rfl, -⟩ := hret
  obtain ⟨names, hmarks, hperforms⟩ := Operation.ofDocument_carries h hpaths g ops g₂ hg hops
  obtain ⟨g₂', hops', hmarks'⟩ := hperforms g' hg'
  have hsame : g₂'.wanted = g₂.wanted := by rw [hmarks'.wanted, hmarks.wanted, hwanted]
  obtain ⟨g₃', hds'⟩ :=
    Declaration.closure_of_partOf h hscope hmarks.resolver hmarks'.resolver hsame hds
  exact ⟨_, ops, g₂', hops', ds, g₃', hds', u, _, returns_modify.mpr rfl, rfl, rfl⟩

theorem ofDocument_of_furtherSchemas {doc doc' : Document} {b : Bindings}
    (hfurther : doc.FurtherSchemas doc') (h : ofDocument doc = .ok b) :
    ofDocument doc' = .ok b := by
  obtain ⟨scope, hscope, -⟩ := madeFrom_of_ofDocument h
  have hindexable := hfurther.indexable (Scope.indexable_of_ofDocument hscope)
  obtain ⟨scope', hscope'⟩ := Scope.exists_ofDocument_iff.mpr hindexable
  have hpart := hfurther.partOf hscope hscope'
  obtain ⟨rfl, hindexed⟩ := Scope.indexed_of_ofDocument hscope
  obtain ⟨rfl, -⟩ := Scope.indexed_of_ofDocument hscope'
  unfold ofDocument run at h ⊢
  rw [hscope] at h
  rw [hscope']
  obtain ⟨g₁', hok, -⟩ := gather_of_partOf hpart hindexed hfurther.paths Scope.At.empty
    Scope.At.empty rfl ⟨h, rfl⟩
  exact hok

theorem generate_eq_ok {json : String} {doc : Document} {b : Bindings}
    (hjson : Document.ofJson json = .ok doc) (h : ofDocument doc = .ok b) :
    generate json = .ok b.text := by
  unfold ofDocument at h
  simp only [generate, generateWithLog, hjson, h]
  rfl

/-- The bindings of a document are also those of the document with further schemas, and the same
module is generated from every text of the one and of the other. -/
theorem text_of_furtherSchemas {doc doc' : Document} {b : Bindings}
    (hfurther : doc.FurtherSchemas doc') (h : ofDocument doc = .ok b) :
    ofDocument doc' = .ok b ∧ ∀ json json', Document.ofJson json = .ok doc →
      Document.ofJson json' = .ok doc' →
        generate json = .ok b.text ∧ generate json' = .ok b.text := by
  have h' := ofDocument_of_furtherSchemas hfurther h
  exact ⟨h', fun _ _ hjson hjson' => ⟨generate_eq_ok hjson h, generate_eq_ok hjson' h'⟩⟩

/-! ## An overgrown forest -/

/-- The forest with two further schemas, one of which has the name of a family that has no members
there. -/
def overgrown : Document :=
  { forest with
    components.schemas := (forest.components.schemas.insert "Moss.Fern" {}).insert
      "ItemComponentSet" { type := some "object" } }

theorem newSchema_overgrown {name : String} (h : forest.NewSchema overgrown name) :
    name ∈ ["ItemComponentSet", "Moss.Fern"] := by
  have hkeys : overgrown.components.schemas.keys =
      ["ItemComponentSet", "Leaf", "Moss.Fern", "SearchResultOfTree", "Tree"] := by
    decide +kernel
  have hold : forest.components.schemas.keys = ["Leaf", "SearchResultOfTree", "Tree"] := by
    decide +kernel
  have hmem := h.mem
  have hnot := h.not_mem
  rw [hkeys] at hmem
  rw [hold] at hnot
  simp only [List.mem_cons, List.not_mem_nil, or_false, not_or] at hmem hnot ⊢
  tauto

theorem furtherSchemas_overgrown : forest.FurtherSchemas overgrown where
  paths := rfl
  responses := rfl
  schemas {name s} hs := by
    have hold := Dict.mem_keys_of_find? hs
    have hne : ∀ other ∈ forest.components.schemas.keys,
        other ≠ "ItemComponentSet" ∧ other ≠ "Moss.Fern" := by decide +kernel
    obtain ⟨hne, hne'⟩ := hne name hold
    rw [overgrown, Dict.find?_insert, if_neg hne, Dict.find?_insert, if_neg hne']
    exact hs
  ofMember? hname := by
    have hall : ∀ name ∈ ["ItemComponentSet", "Moss.Fern"],
        Family.ofMember? (typeName name) = none := by decide +kernel
    exact hall _ (newSchema_overgrown hname)
  eq_of_typeName_eq hname hother := by
    have hall : ∀ name ∈ ["ItemComponentSet", "Moss.Fern"],
        ∀ other ∈ ["ItemComponentSet", "Moss.Fern"],
          typeName name = typeName other → name = other := by decide +kernel
    exact hall _ (newSchema_overgrown hname) _ (newSchema_overgrown hother)
  not_imported hname := by
    have hall : ∀ name ∈ ["ItemComponentSet", "Moss.Fern"],
        typeName name ∉ Emission.importedNames := by decide +kernel
    exact hall _ (newSchema_overgrown hname)
  typeName_ne hname hother := by
    have hall : ∀ name ∈ ["ItemComponentSet", "Moss.Fern"],
        ∀ other ∈ forest.components.schemas.keys, Family.ofMember? (typeName other) = none →
          typeName name ≠ typeName other := by decide +kernel
    exact hall _ (newSchema_overgrown hname) _ hother
  family_ne hname hmember hfamily := by
    have hall : ∀ name ∈ ["ItemComponentSet", "Moss.Fern"],
        ∀ member ∈ forest.components.schemas.keys,
          ∀ m ∈ Family.ofMember? (typeName member), typeName name ≠ m.1.name := by decide +kernel
    exact hall _ (newSchema_overgrown hname) _ hmember _ hfamily

theorem text_of_furtherSchemas_overgrown :
    forest.FurtherSchemas overgrown ∧ ofDocument forest = .ok forestBindings ∧
      ofDocument overgrown = .ok forestBindings ∧
      ∀ json json', Document.ofJson json = .ok forest → Document.ofJson json' = .ok overgrown →
        generate json = .ok forestBindings.text ∧ generate json' = .ok forestBindings.text :=
  ⟨furtherSchemas_overgrown, ofDocument_forest,
    text_of_furtherSchemas furtherSchemas_overgrown ofDocument_forest⟩

end Bindings
end Bindery
