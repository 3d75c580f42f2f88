import Bindery.Proofs.Closure

/-! # Definition tables

The table of a record type is the last part of its schema's name, while its type name is made from that
part by dropping beginnings and endings (`Naming.InTable.typeName_eq`).  So types of one table would have
one type name, and since no name is declared twice, no table is claimed twice (`Bindings.nodup_tables`). -/

namespace Bindery

open Document Naming Text

namespace Text

variable {x : Char} {cs p t : List Char} {ps : List (List Char)}

theorem not_mem_of_mem_splitOn (h : p ∈ cs.splitOn x) : x ∉ p := by
  induction cs generalizing p with
  | nil =>
      rw [List.splitOn_nil, List.mem_singleton] at h
      exact h ▸ List.not_mem_nil
  | cons c cs ih =>
      rw [List.splitOn_cons_eq_if_modifyHead] at h
      split at h
      · rcases List.mem_cons.mp h with rfl | h
        · exact List.not_mem_nil
        · exact ih h
      · rename_i hc
        rcases hs : cs.splitOn x with _ | ⟨q, qs⟩
        · exact (List.splitOn_ne_nil _ _ hs).elim
        · rw [hs] at h ih
          rcases List.mem_cons.mp h with rfl | h
          · exact List.not_mem_cons_of_ne_of_not_mem (Ne.symm (by simpa using hc)) (ih List.mem_cons_self)
          · exact ih (List.mem_cons_of_mem q h)

theorem intercalate_concat (sep : List Char) (h : ps ≠ []) (t : List Char) :
    sep.intercalate (ps ++ [t]) = sep.intercalate ps ++ (sep ++ t) := by
  induction ps with
  | nil => exact absurd rfl h
  | cons p ps ih =>
      cases ps with
      | nil => simp [List.intercalate_cons_cons]
      | cons q ps => simpa [List.intercalate_cons_cons] using ih (List.cons_ne_nil q ps)

/-- The last of several parts stands behind a separator and holds none. -/
theorem exists_of_splitOn_eq_concat (h : cs.splitOn x = ps ++ [t]) (hps : ps ≠ []) :
    x ∉ t ∧ ∃ front, cs = front ++ x :: t := by
  have hlast : t ∈ cs.splitOn x := by simp [h]
  have hjoin : [x].intercalate (cs.splitOn x) = cs := List.intercalate_splitOn x
  refine ⟨not_mem_of_mem_splitOn hlast, [x].intercalate ps, ?_⟩
  rw [← hjoin, h, intercalate_concat _ hps]
  rfl

end Text

/-! ## Names of records -/

namespace Naming

variable {name name' table : String}

/-- The table is the last part of the name between dots, and an earlier part is the namespace of
definition tables. -/
def InTable (name table : String) : Prop :=
  ∃ spaces, "Definitions".toList ∈ spaces ∧ name.toList.splitOn '.' = spaces ++ [table.toList]

theorem tableName?_eq_some_iff : Declaration.tableName? name = some table ↔ InTable name table := by
  unfold Declaration.tableName? InTable
  rw [splitAt_eq_splitOn]
  rcases List.eq_nil_or_concat (name.toList.splitOn '.') with h | ⟨spaces, last, h⟩
  · exact (List.splitOn_ne_nil _ _ h).elim
  · rw [h, List.concat_eq_append, List.reverse_concat]
    simp only [List.contains_reverse, List.contains_iff_mem, Option.ite_none_right_eq_some, Option.some.injEq]
    constructor
    · rintro ⟨hmem, rfl⟩
      exact ⟨spaces, hmem, by rw [String.toList_ofList]⟩
    · rintro ⟨spaces', hmem, heq⟩
      obtain ⟨rfl, rfl⟩ := List.append_singleton_inj.mp heq
      exact ⟨hmem, String.ofList_toList⟩

theorem lastSegment_append {t : List Char} (h : '.' ∉ t) (front : List Char) :
    lastSegment (front ++ '.' :: t) = t := by
  have ht : ∀ c ∈ t.reverse, (c != '.') = true := by
    intro c hc
    exact bne_iff_ne.mpr fun heq => h (heq ▸ List.mem_reverse.mp hc)
  rw [lastSegment, List.reverse_append, List.reverse_cons, List.append_assoc,
    List.takeWhile_append_of_pos ht, List.singleton_append, List.takeWhile_cons_of_neg (by simp),
    List.append_nil, List.reverse_reverse]

/-- The prefix of references, which holds no dots, ends before the last part of several. -/
theorem lastSegment_withoutPrefix {front t : List Char} (h : '.' ∉ t) :
    lastSegment (withoutPrefix schemaPrefix.toList (front ++ '.' :: t)) = t := by
  rw [withoutPrefix]
  cases hdrop : dropPrefix? schemaPrefix.toList (front ++ '.' :: t) with
  | none => exact lastSegment_append h front
  | some rest =>
      rw [Option.getD_some]
      rcases List.append_eq_append_iff.mp (dropPrefix?_eq_some_iff.mp hdrop) with
        ⟨mid, hprefix, hrest⟩ | ⟨mid, -, rfl⟩
      · rcases mid with _ | ⟨c, mid⟩
        · rw [← show '.' :: t = rest from hrest]
          exact lastSegment_append h []
        · obtain ⟨rfl, -⟩ := List.cons.inj hrest
          have hmem : '.' ∈ schemaPrefix.toList := hprefix ▸ by simp
          exact absurd hmem (by decide)
      · exact lastSegment_append h mid

theorem InTable.lastSegment_eq (h : InTable name table) :
    lastSegment (withoutPrefix schemaPrefix.toList name.toList) = table.toList := by
  obtain ⟨spaces, hmem, hsplit⟩ := h
  obtain ⟨hdot, front, hfront⟩ := exists_of_splitOn_eq_concat hsplit (List.ne_nil_of_mem hmem)
  rw [hfront, lastSegment_withoutPrefix hdot]

/-- Names of one table give one type name, whatever stands before their last parts. -/
theorem InTable.typeName_eq (h : InTable name table) (h' : InTable name' table) :
    typeName name = typeName name' := by
  rw [typeName, typeName, typeNameChars, typeNameChars, h.lastSegment_eq, h'.lastSegment_eq]

end Naming

/-! ## Declarations -/

namespace Declaration

variable {scope : Scope} {g g' : Generation} {d : Declaration} {ident table : String}

/-- The declaration claims the table: it is a struct made after a schema whose records the table holds. -/
def Claims (d : Declaration) (table : String) : Prop :=
  (∃ fields, d.shape = .struct false fields) ∧ InTable d.schema table

theorem tableOf_eq_some_iff {name : String} {shape : Shape} (h : shape.isGeneric = false) :
    tableOf name shape = some table ↔ (∃ fields, shape = .struct false fields) ∧ InTable name table := by
  cases shape with
  | struct generic fields =>
      obtain rfl : generic = false := h
      simp [tableOf, tableName?_eq_some_iff]
  | _ => simp [tableOf]

theorem table_eq_some_iff (h : Returns (ofIdent scope ident) g d g') :
    d.table = some table ↔ d.Claims table := by
  rcases returns_ofIdent.mp h with ⟨f, -, hfamily⟩ | ⟨-, name, -, hschema⟩
  · obtain ⟨_, _, _, _, _, _, _, _, -, -, -, -, -, -, rfl⟩ := returns_ofFamily.mp hfamily
    simp [Claims]
  · obtain ⟨s, shape, -, hshape, rfl⟩ := returns_ofSchema.mp hschema
    exact tableOf_eq_some_iff (by cases shaped_of_returns hshape <;> rfl)

theorem exists_returns_of_mem {n : Nat} {ds : List Declaration}
    (h : Returns (declareWithin scope n) g ds g') (hd : d ∈ ds) :
    ∃ ident g₁ g₂, Returns (ofIdent scope ident) g₁ d g₂ := by
  induction n generalizing g ds with
  | zero =>
      simp only [declareWithin, returns_pure] at h
      exact absurd (h.1 ▸ hd) List.not_mem_nil
  | succ n ih =>
      rcases (returns_declareWithin_succ scope).mp h with
        ⟨-, rfl, -⟩ | ⟨ident, w, d', g₁, rest, -, hfirst, hrest, rfl⟩
      · exact absurd hd List.not_mem_nil
      · rcases List.mem_cons.mp hd with rfl | hd
        · exact ⟨ident, _, g₁, hfirst⟩
        · exact ih hrest hd

end Declaration

namespace Bindings

variable {doc : Document} {b : Bindings} {d d' : Declaration} {table : String}

theorem table_eq_some_iff (h : ofDocument doc = .ok b) (hd : d ∈ b.types) :
    d.table = some table ↔ d.Claims table := by
  obtain ⟨scope, journal, g', -, hgather⟩ := gather_of_ofDocument h
  simp only [gather, Declaration.closure, returns_bind, returns_pure] at hgather
  obtain ⟨_, _, -, _, _, ⟨made, _, hmade, _, _, -, rfl, rfl⟩, _, _, -, rfl, -⟩ := hgather
  obtain ⟨ident, g₁, g₂, hident⟩ := Declaration.exists_returns_of_mem hmade (List.mem_mergeSort.mp hd)
  exact Declaration.table_eq_some_iff hident

/-- Of the types of a module at most one claims a table. -/
theorem eq_of_claims (h : ofDocument doc = .ok b) (hd : d ∈ b.types) (hd' : d' ∈ b.types)
    (hclaims : d.Claims table) (hclaims' : d'.Claims table) : d = d' := by
  obtain ⟨scope, -, hmade⟩ := madeFrom_of_ofDocument h
  have hident {d : Declaration} (hd : d ∈ b.types) (hclaims : d.Claims table) :
      d.ident = typeName d.schema := by
    obtain ⟨⟨fields, hshape⟩, -⟩ := hclaims
    cases hmade.declares hd with
    | schema h => exact h.typeName.symm
    | family h => cases hshape.symm.trans h.shape
  refine List.inj_on_of_nodup_map hmade.idents_nodup hd hd' ?_
  rw [hident hd hclaims, hident hd' hclaims', hclaims.2.typeName_eq hclaims'.2]

/-- The tables that the types of a module claim are distinct, so that a table tells the one type of its
records.  A type claims a table exactly if it is a struct of its own whose schema is in the namespace of
definition tables, and the table is then the last part of the schema's name. -/
theorem nodup_tables (h : ofDocument doc = .ok b) :
    (b.types.filterMap Declaration.table).Nodup ∧
      (∀ d ∈ b.types, ∀ table, d.table = some table ↔ d.Claims table) ∧
      ∀ d ∈ b.types, ∀ d' ∈ b.types, ∀ table, d.table = some table → d'.table = some table → d = d' := by
  have htable : ∀ d ∈ b.types, ∀ table, d.table = some table ↔ d.Claims table :=
    fun d hd table => table_eq_some_iff h hd
  have heq : ∀ d ∈ b.types, ∀ d' ∈ b.types, ∀ table, d.table = some table → d'.table = some table →
      d = d' := fun d hd d' hd' table ht ht' =>
    eq_of_claims h hd hd' ((htable d hd table).mp ht) ((htable d' hd' table).mp ht')
  refine ⟨?_, htable, heq⟩
  obtain ⟨scope, -, hmade⟩ := madeFrom_of_ofDocument h
  have hdistinct : b.types.Nodup := List.Nodup.of_map _ hmade.idents_nodup
  refine List.pairwise_filterMap.mpr (hdistinct.imp_of_mem fun hd hd' hne table ht table' ht' hsame => ?_)
  exact hne (heq _ hd _ hd' table ht (hsame ▸ ht'))

/-! ## A catalogue

The namespace of definition tables may have namespaces in it.  A schema that only bears its name claims no
table. -/

def raritySchema : Schema where
  type := some "object"
  properties := [("Name", { type := some "string" })]

def itemSchema : Schema where
  type := some "object"
  properties :=
    [("Kin", { reference := some "#/components/schemas/Definitions" }),
     ("Rarity", {
      type := some "integer"
      format := some "uint32"
      mappedDefinition := some "#/components/schemas/Game.Definitions.Ranks.DestinyRarityDefinition" })]

def catalogue : Document where
  paths := Dict.ofList [("/Item/", {
    summary := some "Item"
    get := some (answering "#/components/schemas/Catalogue.Definitions.DestinyItemDefinition") })]
  components.schemas := Dict.ofList
    [("Catalogue.Definitions.DestinyItemDefinition", itemSchema), ("Definitions", raritySchema),
     ("Game.Definitions.Ranks.DestinyRarityDefinition", raritySchema)]

def catalogueBindings : Bindings where
  types :=
    [{ ident := "ItemDefinition"
       schema := "Catalogue.Definitions.DestinyItemDefinition"
       description := none
       shape := .struct false
         [⟨"Kin", "kin", .named "Definitions", none⟩,
          ⟨"Rarity", "rarity", .hashRef "RarityDefinition", none⟩]
       table := some "DestinyItemDefinition" },
     { ident := "Definitions"
       schema := "Definitions"
       description := none
       shape := .struct false [⟨"Name", "name", .scalar .string, none⟩]
       table := none },
     { ident := "RarityDefinition"
       schema := "Game.Definitions.Ranks.DestinyRarityDefinition"
       description := none
       shape := .struct false [⟨"Name", "name", .scalar .string, none⟩]
       table := some "DestinyRarityDefinition" }]
  operations :=
    [{ name := "Item"
       operationId := "Item"
       method := .get
       path := "/Item/"
       description := none
       deprecated := false
       scopes := []
       params := []
       body := none
       response := .named "ItemDefinition" }]

theorem ofDocument_catalogue : ofDocument catalogue = .ok catalogueBindings :=
  ofDocument_of_unsorted (by decide +kernel) (by decide)

theorem nodup_tables_catalogue : ofDocument catalogue = .ok catalogueBindings ∧
    ["DestinyItemDefinition", "DestinyRarityDefinition"].Nodup ∧
    ∀ d ∈ catalogueBindings.types, ∀ d' ∈ catalogueBindings.types, ∀ table,
      d.table = some table → d'.table = some table → d = d' := by
  obtain ⟨hnodup, -, heq⟩ := nodup_tables ofDocument_catalogue
  exact ⟨ofDocument_catalogue, hnodup, heq⟩

end Bindings
end Bindery
