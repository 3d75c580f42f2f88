import Bindery.Generation
import Bindery.Proofs.Dictionary

/-! # What the index of names holds

An index of a document answers two questions exactly: which schema declares a type name
(`schemaFor_iff`), and which schemas are the members of a family (`membersOf_eq`).  A family with
members shares its name with no schema outside the families (`untaken`).

A document has an index exactly when the type names outside the families differ from one another,
from the imported names, and from the families that have members
(`Scope.exists_ofDocument_iff`).  The index is then determined by the names of the schemas
(`Scope.index_exact`). -/

namespace Bindery

open Naming

namespace Family

theorem mem_all_of_ofMember? {ident rest : String} {f : Family}
    (h : ofMember? ident = some (f, rest)) : f ∈ all := by
  obtain ⟨g, hg, hs⟩ := List.exists_of_findSome?_eq_some h
  obtain ⟨r, -, hr⟩ := Option.map_eq_some_iff.mp hs
  exact (Prod.mk.inj hr).1 ▸ hg

theorem ofName?_eq_some_iff {name : String} {f : Family} :
    ofName? name = some f ↔ f ∈ all ∧ f.name = name := by
  constructor
  · intro h
    exact ⟨List.mem_of_find?_eq_some h, by simpa using List.find?_some h⟩
  · rintro ⟨h, rfl⟩
    revert f
    decide

/-- The name of a family is not the name of a member. -/
theorem ofMember?_name {f : Family} (h : f ∈ all) : ofMember? f.name = none := by
  revert f
  decide

theorem not_imported {f : Family} (h : f ∈ all) : f.name ∉ Emission.importedNames := by
  revert f
  decide

end Family

namespace NameIndex

deriving instance DecidableEq for NameIndex

/-- Whether a schema's type name makes it a member of the family of the given name. -/
def isMemberOf (family name : String) : Bool :=
  (Family.ofMember? (typeName name)).any fun m => m.1.name == family

/-- The index answers for exactly the given schemas. -/
structure Covers (ix : NameIndex) (names : List String) : Prop where
  schemaFor_iff {ident name : String} : ix.schemaFor? ident = some name ↔
    name ∈ names ∧ Family.ofMember? (typeName name) = none ∧ typeName name = ident
  membersOf_eq (family : String) : ix.membersOf family = names.filter (isMemberOf family)

theorem isMemberOf_iff {family name : String} : isMemberOf family name ↔
    ∃ f rest, Family.ofMember? (typeName name) = some (f, rest) ∧ f.name = family := by
  unfold isMemberOf
  cases Family.ofMember? (typeName name) with
  | none => simp
  | some m =>
      rw [Option.any_some, beq_iff_eq]
      constructor
      · exact fun h => ⟨m.1, m.2, rfl, h⟩
      · rintro ⟨f, rest, heq, rfl⟩
        cases heq
        rfl

theorem Covers.empty : Covers {} [] where
  schemaFor_iff := by simp [schemaFor?, Dict.find?_empty]
  membersOf_eq family := by simp [membersOf, Dict.find?_empty]

/-- A schema is added to its family, or under a type name that nothing has taken. -/
theorem add_eq_ok {ix ix' : NameIndex} {name : String} (h : ix.add name = .ok ix') :
    (∃ f rest, Family.ofMember? (typeName name) = some (f, rest) ∧
      ix' = { ix with members := ix.members.insert f.name (ix.membersOf f.name ++ [name]) }) ∨
    (Family.ofMember? (typeName name) = none ∧ typeName name ∉ Emission.importedNames ∧
      ix.schemaFor? (typeName name) = none ∧
      ix' = { ix with types := ix.types.insert (typeName name) name }) := by
  dsimp only [NameIndex.add] at h
  split at h
  · rename_i f rest hf
    cases h
    exact .inl ⟨f, rest, hf, rfl⟩
  · rename_i hf
    split at h
    · cases h
    · rename_i himp
      split at h
      · cases h
      · rename_i hfree
        cases h
        exact .inr ⟨hf, by simpa using himp, hfree, rfl⟩

/-- Adding a schema extends what the index answers for by this schema. -/
theorem Covers.add {ix ix' : NameIndex} {names : List String} {name : String}
    (h : ix.Covers names) (hadd : ix.add name = .ok ix') : ix'.Covers (names ++ [name]) := by
  rcases add_eq_ok hadd with ⟨f, rest, hf, rfl⟩ | ⟨hf, -, hfree, rfl⟩
  · constructor
    · intro ident other
      show ix.schemaFor? ident = some other ↔ _
      rw [List.mem_append, List.mem_singleton, h.schemaFor_iff]
      constructor
      · rintro ⟨hmem, hrest⟩
        exact ⟨.inl hmem, hrest⟩
      · rintro ⟨hmem | rfl, hnone, heq⟩
        · exact ⟨hmem, hnone, heq⟩
        · simp [hf] at hnone
    · intro family
      rw [membersOf, Dict.find?_insert, List.filter_append, ← h.membersOf_eq family]
      by_cases hfam : family = f.name
      · simp [hfam, isMemberOf, hf]
      · simp [hfam, isMemberOf, hf, membersOf, Ne.symm hfam]
  · constructor
    · intro ident other
      rw [List.mem_append, List.mem_singleton, schemaFor?, Dict.find?_insert]
      by_cases hident : ident = typeName name
      · subst hident
        rw [if_pos rfl, Option.some.injEq]
        constructor
        · rintro rfl
          exact ⟨.inr rfl, hf, rfl⟩
        · rintro ⟨hmem | rfl, hnone, heq⟩
          · have := h.schemaFor_iff.mpr ⟨hmem, hnone, heq⟩
            rw [hfree] at this
            cases this
          · rfl
      · rw [if_neg hident, show ix.types.find? ident = ix.schemaFor? ident from rfl,
          h.schemaFor_iff]
        constructor
        · rintro ⟨hmem, hrest⟩
          exact ⟨.inl hmem, hrest⟩
        · rintro ⟨hmem | rfl, hnone, heq⟩
          · exact ⟨hmem, hnone, heq⟩
          · exact absurd heq.symm hident
    · intro family
      show ix.membersOf family = _
      rw [List.filter_append, h.membersOf_eq family]
      simp [isMemberOf, hf]

theorem Covers.foldlM {ix ix' : NameIndex} {names rest : List String} (h : ix.Covers names)
    (hfold : rest.foldlM NameIndex.add ix = .ok ix') : ix'.Covers (names ++ rest) := by
  induction rest generalizing ix names with
  | nil =>
      cases hfold
      simpa using h
  | cons name rest ih =>
      rw [List.foldlM_cons] at hfold
      cases hadd : ix.add name with
      | error e => rw [hadd] at hfold; cases hfold
      | ok mid =>
          rw [hadd] at hfold
          simpa using ih (h.add hadd) hfold

/-- Where no family's name is taken, a family with members shares its name with no schema. -/
theorem schemaFor?_of_takenFamily? {ix : NameIndex} (h : ix.takenFamily? = none) {family : String}
    (hmem : ix.membersOf family ≠ []) : ix.schemaFor? family = none := by
  rw [membersOf] at hmem
  cases hfind : ix.members.find? family with
  | none => simp [hfind] at hmem
  | some names =>
      obtain ⟨before, after, hentries, -⟩ := List.lookup_eq_some_iff.mp hfind
      have hin : (family, names) ∈ ix.members.entries := by simp [hentries]
      have hnone := List.findSome?_eq_none_iff.mp h _ hin
      cases names with
      | nil => simp [hfind] at hmem
      | cons first rest =>
          cases htype : ix.schemaFor? family with
          | none => rfl
          | some existing => simp [htype] at hnone

theorem takenFamily?_eq_none {ix : NameIndex}
    (h : ∀ family, ix.membersOf family ≠ [] → ix.schemaFor? family = none) :
    ix.takenFamily? = none := by
  refine List.findSome?_eq_none_iff.mpr fun (family, names) hmem => ?_
  have hfind := Dict.find?_eq_some_iff.mpr hmem
  cases names with
  | nil => cases htype : ix.schemaFor? family <;> simp [htype]
  | cons first rest =>
      have hne : ix.membersOf family ≠ [] := by simp [membersOf, hfind]
      simp [h family hne]

/-! ## What can be indexed -/

/-- The type names of schemas outside the families are their own: no other schema has them, they
are not imported, and no family with members is called like them. -/
structure Indexable (names : List String) : Prop where
  eq_of_typeName_eq {name other : String} : name ∈ names → other ∈ names →
    Family.ofMember? (typeName name) = none → typeName other = typeName name → other = name
  not_imported {name : String} : name ∈ names → Family.ofMember? (typeName name) = none →
    typeName name ∉ Emission.importedNames
  not_taken {name member : String} : name ∈ names → member ∈ names →
    Family.ofMember? (typeName name) = none → isMemberOf (typeName name) member = false

/-- A schema can be added unless its type name is imported or another schema has it. -/
theorem Covers.exists_add {ix : NameIndex} {names : List String} {name : String}
    (h : ix.Covers names)
    (himported : Family.ofMember? (typeName name) = none →
      typeName name ∉ Emission.importedNames)
    (hfree : Family.ofMember? (typeName name) = none →
      ∀ other ∈ names, typeName other ≠ typeName name) :
    ∃ ix', ix.add name = .ok ix' := by
  dsimp only [NameIndex.add]
  cases hmember : Family.ofMember? (typeName name) with
  | some found => exact ⟨_, rfl⟩
  | none =>
      have hnone : ix.schemaFor? (typeName name) = none := by
        refine Option.eq_none_iff_forall_ne_some.mpr fun other hother => ?_
        obtain ⟨hmem, -, heq⟩ := h.schemaFor_iff.mp hother
        exact hfree hmember other hmem heq
      dsimp only
      rw [if_neg (by simpa using himported hmember), hnone]
      exact ⟨_, rfl⟩

theorem Covers.exists_foldlM {ix : NameIndex} {names rest : List String} (h : ix.Covers names)
    (hnodup : (names ++ rest).Nodup) (hrest : Indexable (names ++ rest)) :
    ∃ ix', rest.foldlM NameIndex.add ix = .ok ix' := by
  induction rest generalizing ix names with
  | nil => exact ⟨ix, rfl⟩
  | cons name rest ih =>
      have hname : name ∈ names ++ name :: rest := by simp
      have hfree (hnone : Family.ofMember? (typeName name) = none) (other : String)
          (hother : other ∈ names) : typeName other ≠ typeName name := by
        intro heq
        obtain rfl := hrest.eq_of_typeName_eq hname (List.mem_append_left _ hother) hnone heq
        exact (List.nodup_append.mp hnodup).2.2 other hother other List.mem_cons_self rfl
      obtain ⟨mid, hadd⟩ := h.exists_add (hrest.not_imported hname) hfree
      have hsplit : names ++ name :: rest = names ++ [name] ++ rest := by simp
      rw [hsplit] at hnodup hrest
      rw [List.foldlM_cons, hadd]
      exact ih (h.add hadd) hnodup hrest

/-- What has been added is not imported. -/
theorem not_imported_of_foldlM {ix ix' : NameIndex} {names : List String}
    (h : names.foldlM NameIndex.add ix = .ok ix') {name : String} (hname : name ∈ names)
    (hnone : Family.ofMember? (typeName name) = none) :
    typeName name ∉ Emission.importedNames := by
  induction names generalizing ix with
  | nil => cases hname
  | cons first rest ih =>
      rw [List.foldlM_cons] at h
      cases hadd : ix.add first with
      | error e => rw [hadd] at h; cases h
      | ok mid =>
          rw [hadd] at h
          rcases List.mem_cons.mp hname with rfl | hname
          · rcases add_eq_ok hadd with ⟨f, rest', hf, -⟩ | ⟨-, himported, -⟩
            · rw [hf] at hnone
              cases hnone
            · exact himported
          · exact ih h hname

end NameIndex

/-- The index of a scope is that of its document. -/
structure Scope.Indexed (scope : Scope) : Prop where
  covers : scope.index.Covers scope.document.components.schemas.keys
  untaken {family : String} : scope.index.membersOf family ≠ [] →
    scope.index.schemaFor? family = none

theorem Scope.indexed_of_ofDocument {doc : Document} {scope : Scope}
    (h : Scope.ofDocument doc = .ok scope) : scope.document = doc ∧ scope.Indexed := by
  unfold Scope.ofDocument NameIndex.ofDocument at h
  cases hfold : doc.components.schemas.keys.foldlM NameIndex.add {} with
  | error e => rw [hfold] at h; cases h
  | ok ix =>
      rw [hfold] at h
      simp only [bind, Except.bind] at h
      split at h
      · cases h
      · rename_i htaken
        cases h
        exact ⟨rfl, by simpa using NameIndex.Covers.empty.foldlM hfold,
          NameIndex.schemaFor?_of_takenFamily? htaken⟩

theorem Scope.indexable_of_ofDocument {doc : Document} {scope : Scope}
    (h : Scope.ofDocument doc = .ok scope) :
    NameIndex.Indexable doc.components.schemas.keys := by
  obtain ⟨rfl, hscope⟩ := indexed_of_ofDocument h
  have htype {name : String} (hname : name ∈ scope.document.components.schemas.keys)
      (hnone : Family.ofMember? (typeName name) = none) :
      scope.index.schemaFor? (typeName name) = some name :=
    hscope.covers.schemaFor_iff.mpr ⟨hname, hnone, rfl⟩
  constructor
  · intro name other hname hother hnone heq
    have hfound := htype hother (by rw [heq]; exact hnone)
    rw [heq, htype hname hnone] at hfound
    exact (Option.some.inj hfound).symm
  · unfold Scope.ofDocument NameIndex.ofDocument at h
    cases hfold : scope.document.components.schemas.keys.foldlM NameIndex.add {} with
    | error e => rw [hfold] at h; cases h
    | ok ix => exact NameIndex.not_imported_of_foldlM hfold
  · intro name member hname hmember hnone
    refine Bool.eq_false_iff.mpr fun htaken => ?_
    have hmem : member ∈ scope.index.membersOf (typeName name) := by
      rw [hscope.covers.membersOf_eq]
      exact List.mem_filter.mpr ⟨hmember, htaken⟩
    have hfree := hscope.untaken (List.ne_nil_of_mem hmem)
    rw [htype hname hnone] at hfree
    cases hfree

theorem Scope.exists_ofDocument_iff {doc : Document} :
    (∃ scope, Scope.ofDocument doc = .ok scope) ↔
      NameIndex.Indexable doc.components.schemas.keys := by
  refine ⟨fun ⟨_, h⟩ => indexable_of_ofDocument h, fun h => ?_⟩
  obtain ⟨ix, hfold⟩ := NameIndex.Covers.empty.exists_foldlM
    (by simpa using doc.components.schemas.nodup_keys) (by simpa using h)
  have hcovers : ix.Covers doc.components.schemas.keys := by
    simpa using NameIndex.Covers.empty.foldlM hfold
  have htaken : ix.takenFamily? = none := by
    refine NameIndex.takenFamily?_eq_none fun family hne =>
      Option.eq_none_iff_forall_ne_some.mpr fun name hname => ?_
    -- A schema that has the family's name, and a member of the family, cannot both be there.
    obtain ⟨hmem, hnone, rfl⟩ := hcovers.schemaFor_iff.mp hname
    obtain ⟨member, hmember⟩ := List.exists_mem_of_ne_nil _ hne
    rw [hcovers.membersOf_eq] at hmember
    obtain ⟨hmember, htaken⟩ := List.mem_filter.mp hmember
    rw [h.not_taken hmem hmember hnone] at htaken
    cases htaken
  have hix : NameIndex.ofDocument doc = .ok ix := by
    simp only [NameIndex.ofDocument, hfold, htaken, bind, Except.bind]
    rfl
  exact ⟨⟨doc, ix⟩, by rw [Scope.ofDocument, hix]; rfl⟩

namespace Scope.Indexed

variable {scope : Scope} (h : scope.Indexed)
include h

/-- A schema that takes the name of a family leaves the family without members. -/
theorem membersOf_eq_nil {name : String} (hname : name ∈ scope.document.components.schemas.keys)
    {f : Family} (hf : f ∈ Family.all) (heq : typeName name = f.name) :
    scope.index.membersOf f.name = [] := by
  refine Decidable.byContradiction fun hne => ?_
  have hnone := h.untaken hne
  have hsome := h.covers.schemaFor_iff.mpr ⟨hname, heq ▸ Family.ofMember?_name hf, heq⟩
  rw [hnone] at hsome
  cases hsome

end Scope.Indexed

/-- A document has an index exactly when its names are indexable.  The index then finds under a type
name the schema outside the families that has it, and under the name of a family the schemas
that are its members, in increasing order. -/
theorem Scope.index_exact {doc : Document} :
    ((∃ scope, Scope.ofDocument doc = .ok scope) ↔
      NameIndex.Indexable doc.components.schemas.keys) ∧
    ∀ scope, Scope.ofDocument doc = .ok scope →
      (∀ ident name, scope.index.schemaFor? ident = some name ↔
        name ∈ doc.components.schemas.keys ∧ Family.ofMember? (typeName name) = none ∧
          typeName name = ident) ∧
      ∀ family, (scope.index.membersOf family).Pairwise (· < ·) ∧
        ∀ name, name ∈ scope.index.membersOf family ↔ name ∈ doc.components.schemas.keys ∧
          ∃ f rest, Family.ofMember? (typeName name) = some (f, rest) ∧ f.name = family := by
  refine ⟨exists_ofDocument_iff, fun scope h => ?_⟩
  obtain ⟨rfl, hscope⟩ := indexed_of_ofDocument h
  refine ⟨fun ident name => hscope.covers.schemaFor_iff, fun family => ?_⟩
  rw [hscope.covers.membersOf_eq]
  constructor
  · exact scope.document.components.schemas.pairwise_keys.filter _
  · intro name
    rw [List.mem_filter, NameIndex.isMemberOf_iff]

/-! ## Two schemas under one type name

Members of a family may have the same type name. -/

def pouches : Document where
  components.schemas := Dict.ofList
    [("Destiny.DestinyPouchEnum", {}), ("DestinyItemComponentSetOfint64", {}),
     ("ItemComponentSetOfint64", {})]

theorem Scope.exists_ofDocument_pouches : ∃ scope, Scope.ofDocument pouches = .ok scope := by
  have hok : (Scope.ofDocument pouches).isOk := by decide +kernel
  cases h : Scope.ofDocument pouches with
  | error e =>
      rw [h] at hok
      cases hok
  | ok scope => exact ⟨scope, rfl⟩

theorem Scope.index_exact_pouches : ∃ scope, Scope.ofDocument pouches = .ok scope ∧
    scope.index.schemaFor? "Pouch" = some "Destiny.DestinyPouchEnum" ∧
    "DestinyItemComponentSetOfint64" ∈ scope.index.membersOf "ItemComponentSet" ∧
    "ItemComponentSetOfint64" ∈ scope.index.membersOf "ItemComponentSet" := by
  obtain ⟨scope, h⟩ := exists_ofDocument_pouches
  obtain ⟨hschemas, hfamilies⟩ := index_exact.2 scope h
  obtain ⟨-, hmembers⟩ := hfamilies "ItemComponentSet"
  have hmember {name : String} (hname : name ∈ pouches.components.schemas.keys)
      (hfamily : Family.ofMember? (typeName name) =
        some (⟨"ItemComponentSet", ["ItemComponentSetOf"], .suffix⟩, "int64")) :
      name ∈ scope.index.membersOf "ItemComponentSet" :=
    (hmembers name).mpr ⟨hname, _, _, hfamily, rfl⟩
  refine ⟨scope, h, ?_, ?_, ?_⟩
  · exact (hschemas _ _).mpr (by decide +kernel)
  · exact hmember (by decide +kernel) (by decide +kernel)
  · exact hmember (by decide +kernel) (by decide +kernel)

end Bindery
