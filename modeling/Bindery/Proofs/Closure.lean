import Bindery.Bindings
import Bindery.Proofs.Declared
import Mathlib.Order.Bounds.Defs

/-! # Which names a module declares

Declaring what is wanted hands out the marked names one after another, and declares each name
that is handed out (`Declaration.Drained`).  Handed names are names of schemas or families and no
name is handed out twice, so that in the end no name waits (`Declaration.closure_drained`).  The
declared names are then the least set that holds what the operations mention and, with each
name, what its declaration mentions (`Bindings.isLeast_declared`). -/

namespace Bindery

open Document Naming

namespace Wanted

variable {w w' : Wanted} {ident : String}

theorem next?_eq_none_iff : w.next? = none ↔ w.waiting = [] := by
  unfold next?
  split <;> simp [*]

theorem waiting_of_next? (h : w.next? = some (ident, w')) : w.waiting = ident :: w'.waiting := by
  unfold next? at h
  split at h
  · cases h
  · rename_i hwaiting
    cases h
    exact hwaiting

theorem handed_of_next? (h : w.next? = some (ident, w')) :
    w'.handed = w.handed ++ [ident] := by
  unfold next? at h
  split at h <;> cases h
  rfl

theorem mem_marked_of_next? (h : w.next? = some (ident, w')) : ident ∈ w.marked := by
  rw [marked, waiting_of_next? h]
  exact List.mem_append_right _ List.mem_cons_self

theorem handed_nodup (w : Wanted) : w.handed.Nodup := (List.nodup_append.mp w.distinct).1

end Wanted

namespace Generation

theorem run_nextWanted? (g : Generation) :
    nextWanted?.run g = match g.wanted.next? with
      | none => (.ok none, g)
      | some (ident, wanted) => (.ok (some ident), { g with wanted }) := by
  rw [nextWanted?, run_bind, run_get]
  dsimp only
  cases g.wanted.next? <;> rfl

theorem nextWanted?_none {g : Generation} (h : g.wanted.next? = none) :
    Returns nextWanted? g none g := by
  rw [Returns, run_nextWanted?, h]
  exact ⟨rfl, rfl⟩

theorem nextWanted?_some {g : Generation} {ident : String} {w : Wanted}
    (h : g.wanted.next? = some (ident, w)) :
    Returns nextWanted? g (some ident) { g with wanted := w } := by
  rw [Returns, run_nextWanted?, h]
  exact ⟨rfl, rfl⟩

theorem returns_nextWanted? {g g' : Generation} {next : Option String}
    (h : Returns nextWanted? g next g') :
    (g.wanted.next? = none ∧ next = none ∧ g' = g) ∨
      ∃ ident w, g.wanted.next? = some (ident, w) ∧ next = some ident ∧
        g' = { g with wanted := w } := by
  rw [Returns, run_nextWanted?] at h
  cases hnext : g.wanted.next? with
  | none =>
      rw [hnext] at h
      obtain ⟨hok, rfl⟩ := h
      exact .inl ⟨rfl, (Except.ok.inj hok).symm, rfl⟩
  | some found =>
      rw [hnext] at h
      obtain ⟨hok, rfl⟩ := h
      exact .inr ⟨found.1, found.2, rfl, (Except.ok.inj hok).symm, rfl⟩

end Generation

namespace Declaration

open Generation

variable (scope : Scope)

/-- Either no name waits, or the name that has waited longest is declared before the others. -/
theorem returns_declareWithin_succ {n : Nat} {ds : List Declaration} {g g' : Generation} :
    Returns (declareWithin scope (n + 1)) g ds g' ↔
      (g.wanted.waiting = [] ∧ ds = [] ∧ g = g') ∨
        ∃ ident w d g₁ rest, g.wanted.next? = some (ident, w) ∧
          Returns (ofIdent scope ident) { g with wanted := w } d g₁ ∧
          Returns (declareWithin scope n) g₁ rest g' ∧ d :: rest = ds := by
  rw [declareWithin, returns_bind]
  constructor
  · rintro ⟨next, g₀, hnext, h⟩
    rcases returns_nextWanted? hnext with ⟨hnone, rfl, rfl⟩ | ⟨ident, w, hsome, rfl, rfl⟩
    · obtain ⟨rfl, rfl⟩ := returns_pure.mp h
      exact .inl ⟨Wanted.next?_eq_none_iff.mp hnone, rfl, rfl⟩
    · simp only [returns_bind, returns_pure] at h
      obtain ⟨d, g₁, hd, rest, _, hrest, rfl, rfl⟩ := h
      exact .inr ⟨ident, w, d, g₁, rest, hsome, hd, hrest, rfl⟩
  · rintro (⟨hwaiting, rfl, rfl⟩ | ⟨ident, w, d, g₁, rest, hsome, hd, hrest, rfl⟩)
    · exact ⟨_, _, nextWanted?_none (Wanted.next?_eq_none_iff.mpr hwaiting),
        returns_pure.mpr ⟨rfl, rfl⟩⟩
    · refine ⟨_, _, nextWanted?_some hsome, ?_⟩
      simp only [returns_bind, returns_pure]
      exact ⟨d, g₁, hd, rest, g', hrest, rfl, rfl⟩

/-- From the one state to the other the given declarations have been made, one for each name that
was handed out. -/
structure Drained (g : Generation) (ds : List Declaration) (g' : Generation) : Prop where
  declares {d : Declaration} : d ∈ ds → scope.Declares d
  handed : g'.wanted.handed = g.wanted.handed ++ ds.map ident
  mem_marked {i : String} :
    i ∈ g'.wanted.marked ↔ i ∈ g.wanted.marked ∨ ∃ d ∈ ds, i ∈ d.dependencies
  /-- A set that holds the marked names, and the names that the declarations of its members
  mention, holds each declared name. -/
  reached {S : Set String} : (∀ i ∈ g.wanted.marked, i ∈ S) →
    (∀ d ∈ ds, d.ident ∈ S → ∀ i ∈ d.dependencies, i ∈ S) → ∀ d ∈ ds, d.ident ∈ S

variable {scope} {g g' : Generation}

theorem Drained.nil (g : Generation) : Drained scope g [] g where
  declares h := by cases h
  handed := by simp
  mem_marked := by simp
  reached _ _ := by simp

theorem Drained.cons {g₁ g₂ : Generation} {w : Wanted} {d : Declaration} {ds : List Declaration}
    (hnext : g.wanted.next? = some (d.ident, w)) (hd : scope.Declares d)
    (hmarks : scope.Marks { g with wanted := w } d.dependencies g₁)
    (h : Drained scope g₁ ds g₂) : Drained scope g (d :: ds) g₂ where
  declares hmem := by
    rcases List.mem_cons.mp hmem with rfl | hmem
    · exact hd
    · exact h.declares hmem
  handed := by
    rw [h.handed, hmarks.wanted, Wanted.handed_addAll, Wanted.handed_of_next? hnext]
    simp
  mem_marked {i} := by
    rw [h.mem_marked, hmarks.wanted, Wanted.mem_marked_addAll, Wanted.marked_of_next? hnext]
    simp [or_assoc]
  reached {S} hS hclosed := by
    have hident : d.ident ∈ S := hS _ (Wanted.mem_marked_of_next? hnext)
    have hmarked : ∀ i ∈ g₁.wanted.marked, i ∈ S := by
      intro i hi
      rw [hmarks.wanted, Wanted.mem_marked_addAll, Wanted.marked_of_next? hnext] at hi
      rcases hi with hi | hi
      · exact hS i hi
      · exact hclosed d List.mem_cons_self hident i hi
    intro d' hd'
    rcases List.mem_cons.mp hd' with rfl | hd'
    · exact hident
    · exact h.reached hmarked (fun d hd => hclosed d (List.mem_cons_of_mem _ hd)) d' hd'

theorem declareWithin_drained (hscope : scope.Indexed) (n : Nat) {ds : List Declaration}
    (hg : scope.At [] g.resolver) (h : Returns (declareWithin scope n) g ds g') :
    Drained scope g ds g' ∧ (g'.wanted.waiting = [] ∨ ds.length = n) := by
  induction n generalizing g ds with
  | zero =>
      simp only [declareWithin, returns_pure] at h
      obtain ⟨rfl, rfl⟩ := h
      exact ⟨.nil g, .inr rfl⟩
  | succ n ih =>
      rcases (returns_declareWithin_succ scope).mp h with
        ⟨hwaiting, rfl, rfl⟩ | ⟨ident, w, d, g₁, ds, hsome, hd, hds, rfl⟩
      · exact ⟨.nil _, .inl hwaiting⟩
      · -- What the first declaration mentions is marked before the others are made.
        obtain ⟨⟨hident, hdeclares⟩, hmarks⟩ :=
          ofIdent_yields hscope ident { g with wanted := w } d g₁ hg hd
        obtain ⟨hdrained, hdone⟩ := ih hmarks.resolver hds
        refine ⟨.cons (hident ▸ hsome) hdeclares hmarks hdrained, hdone.imp_right ?_⟩
        intro hlength
        rw [List.length_cons, hlength]

theorem Drained.idents_nodup {ds : List Declaration} (h : Drained scope g ds g') :
    (ds.map ident).Nodup := by
  have hnodup := g'.wanted.handed_nodup
  rw [h.handed] at hnodup
  exact (List.nodup_append.mp hnodup).2.1

theorem Drained.length_lt {ds : List Declaration} (h : Drained scope g ds g') :
    ds.length < closureBudget scope := by
  have hsubset : ds.map ident ⊆
      scope.document.components.schemas.keys.map typeName ++ Family.all.map Family.name := by
    intro i hi
    obtain ⟨d, hd, rfl⟩ := List.mem_map.mp hi
    rw [List.mem_append]
    cases h.declares hd with
    | schema hd => exact .inl (List.mem_map.mpr ⟨d.schema, hd.mem_keys, hd.typeName⟩)
    | @family f _ _ _ hd =>
        obtain ⟨hf, hname⟩ := Family.ofName?_eq_some_iff.mp hd.ofName?
        exact .inr (List.mem_map.mpr ⟨f, hf, hname⟩)
  -- No name is handed out twice, so there are no more declarations than names to declare.
  have hle := h.idents_nodup.length_le_of_subset hsubset
  simp only [List.length_map, List.length_append, Dict.length_keys] at hle
  exact Nat.lt_succ_of_le hle

/-- The steps suffice: no name waits when the declarations have been made. -/
theorem closure_drained (hscope : scope.Indexed) {ds : List Declaration}
    (hg : scope.At [] g.resolver) (h : Returns (closure scope) g ds g') :
    ∃ made, made.Perm ds ∧ ds.Pairwise (fun a b => a.schema ≤ b.schema) ∧
      Drained scope g made g' ∧ g'.wanted.waiting = [] := by
  simp only [closure, returns_bind, returns_pure] at h
  obtain ⟨made, g₁, hmade, u, g₂, hnote, rfl, rfl⟩ := h
  obtain rfl := returns_modify.mp hnote
  obtain ⟨hdrained, hdone⟩ := declareWithin_drained hscope _ hg hmade
  refine ⟨made, (List.mergeSort_perm made _).symm, ?_, ⟨hdrained.declares, hdrained.handed,
    hdrained.mem_marked, hdrained.reached⟩, ?_⟩
  · have htrans (a b c : Declaration) : decide (a.schema ≤ b.schema) →
        decide (b.schema ≤ c.schema) → decide (a.schema ≤ c.schema) := by
      simpa using String.le_trans
    have htotal (a b : Declaration) :
        decide (a.schema ≤ b.schema) || decide (b.schema ≤ a.schema) := by
      simpa using String.le_total a.schema b.schema
    simpa using List.pairwise_mergeSort htrans htotal made
  · rcases hdone with hdone | hlength
    · exact hdone
    · exact absurd hlength (Nat.ne_of_lt hdrained.length_lt)

end Declaration

namespace Bindings

/-- The set holds what the operations mention and, with the name of a declaration, what the
declaration mentions. -/
structure Closed (b : Bindings) (S : Set String) : Prop where
  operations {op : Operation} {i : String} : op ∈ b.operations → i ∈ op.dependencies → i ∈ S
  types {d : Declaration} {i : String} :
    d ∈ b.types → d.ident ∈ S → i ∈ d.dependencies → i ∈ S

variable (scope : Scope)

/-- What is known of bindings that have been made from a document. -/
structure MadeFrom (b : Bindings) : Prop where
  given {op : Operation} {t : TypeExpr} : op ∈ b.operations → t ∈ op.types → scope.Given t
  declares {d : Declaration} : d ∈ b.types → scope.Declares d
  idents_nodup : (b.types.map Declaration.ident).Nodup
  sorted : b.types.Pairwise fun d d' => d.schema ≤ d'.schema
  mem_idents {i : String} : (∃ d ∈ b.types, d.ident = i) ↔
    (∃ op ∈ b.operations, i ∈ op.dependencies) ∨ ∃ d ∈ b.types, i ∈ d.dependencies
  reached {S : Set String} {d : Declaration} : b.Closed S → d ∈ b.types → d.ident ∈ S

variable {scope}

theorem gather_madeFrom (hscope : scope.Indexed) {g g' : Generation} {b : Bindings}
    (hg : scope.At [] g.resolver) (hwanted : g.wanted = .empty)
    (h : Returns (gather scope) g b g') : b.MadeFrom scope := by
  simp only [gather, returns_bind, returns_pure] at h
  obtain ⟨ops, g₁, hops, ds, g₂, hds, u, g₃, hnote, rfl, rfl⟩ := h
  obtain ⟨hgiven, hmarks⟩ := Operation.ofDocument_yields g ops g₁ hg hops
  obtain ⟨made, hperm, hsorted, hdrained, hdone⟩ :=
    Declaration.closure_drained hscope hmarks.resolver hds
  have hmarked {i : String} : i ∈ g₁.wanted.marked ↔ ∃ op ∈ ops, i ∈ op.dependencies := by
    rw [hmarks.wanted, hwanted, Wanted.mem_marked_addAll, List.mem_flatMap]
    simp [Wanted.empty, Wanted.marked]
  have hhanded : g₂.wanted.marked = made.map Declaration.ident := by
    rw [Wanted.marked, hdone, List.append_nil, hdrained.handed, hmarks.wanted, hwanted,
      Wanted.handed_addAll]
    rfl
  refine {
    given := fun hop ht => hgiven _ hop _ ht
    declares := fun hd => hdrained.declares (hperm.mem_iff.mpr hd)
    idents_nodup := (hperm.map _).nodup_iff.mp hdrained.idents_nodup
    sorted := hsorted
    mem_idents := fun {i} => ?_
    reached := fun {S d} hclosed hd => ?_ }
  · have hmem := hdrained.mem_marked (i := i)
    rw [hhanded, hmarked, List.mem_map] at hmem
    simpa only [hperm.mem_iff] using hmem
  · refine hdrained.reached (S := S) (fun i hi => ?_) (fun d hd => ?_) d (hperm.mem_iff.mpr hd)
    · obtain ⟨op, hop, hi⟩ := hmarked.mp hi
      exact hclosed.operations hop hi
    · exact fun hident _ hi => hclosed.types (hperm.mem_iff.mp hd) hident hi

theorem madeFrom_of_ofDocument {doc : Document} {b : Bindings} (h : ofDocument doc = .ok b) :
    ∃ scope, Scope.ofDocument doc = .ok scope ∧ b.MadeFrom scope := by
  obtain ⟨scope, journal, g', hscope, hgather⟩ := gather_of_ofDocument h
  refine ⟨scope, hscope, ?_⟩
  exact gather_madeFrom (Scope.indexed_of_ofDocument hscope).2 Scope.At.empty rfl hgather

theorem MadeFrom.schemas_lt {b : Bindings} (hscope : scope.Indexed) (h : b.MadeFrom scope) :
    (b.types.map Declaration.schema).Pairwise (· < ·) := by
  have hidents : b.types.map Declaration.ident =
      (b.types.map Declaration.schema).map Scope.identOf := by
    rw [List.map_map]
    apply List.map_congr_left
    intro d hd
    rw [Function.comp_apply]
    exact (h.declares hd).ident_eq hscope
  have hnodup := h.idents_nodup
  rw [hidents] at hnodup
  have hdistinct : (b.types.map Declaration.schema).Nodup :=
    List.Pairwise.of_map Scope.identOf (fun _ _ hne heq => hne (congrArg _ heq)) hnodup
  have hsorted := List.pairwise_map.mpr h.sorted
  exact (hsorted.and hdistinct).imp fun hlt => Std.lt_of_le_of_ne hlt.1 hlt.2

/-- The declared names are the least set that holds what the operations mention and what its own
declarations mention.  No name is declared twice, and the declarations stand in the order of
their schemas. -/
theorem isLeast_declared {doc : Document} {b : Bindings} (h : ofDocument doc = .ok b) :
    IsLeast {S | b.Closed S} {i | ∃ d ∈ b.types, d.ident = i} ∧
      (b.types.map Declaration.ident).Nodup ∧
      (b.types.map Declaration.schema).Pairwise (· < ·) := by
  obtain ⟨scope, hscope, hmade⟩ := madeFrom_of_ofDocument h
  refine ⟨⟨?_, ?_⟩, hmade.idents_nodup, hmade.schemas_lt (Scope.indexed_of_ofDocument hscope).2⟩
  · exact {
      operations := fun hop hi => hmade.mem_idents.mpr (.inl ⟨_, hop, hi⟩)
      types := fun hd _ hi => hmade.mem_idents.mpr (.inr ⟨_, hd, hi⟩) }
  · rintro S hS i ⟨d, hd, rfl⟩
    exact hmade.reached hS hd

/-! ## A page of trees -/

/-- A tree has branches that are trees, and a page of further trees. -/
def treeSchema : Schema where
  type := some "object"
  properties :=
    [("Branches", {
      type := some "array", items := some { reference := some "#/components/schemas/Tree" } }),
     ("Page", { reference := some "#/components/schemas/SearchResultOfTree" })]

def pageSchema : Schema where
  type := some "object"
  properties := [("results", {
    type := some "array", items := some { reference := some "#/components/schemas/Tree" } })]

/-- A successful response has a payload of the given schema. -/
def answering (reference : String) : Handler where
  responses := Dict.ofList [("200", {
    content := Dict.ofList [("application/json", {
      schema := some { properties := [("Response", { reference := some reference })] } })] })]

/-- One operation answers with a page; no operation reaches the leaf. -/
def forest : Document where
  paths := Dict.ofList [("/Trees/", {
    summary := some "Trees"
    get := some (answering "#/components/schemas/SearchResultOfTree") })]
  components.schemas := Dict.ofList
    [("Leaf", { type := some "object" }), ("SearchResultOfTree", pageSchema), ("Tree", treeSchema)]

def forestBindings : Bindings where
  types :=
    [{ ident := "SearchResult"
       schema := "SearchResultOfTree"
       description := none
       shape := .struct true [⟨"results", "results", .list .param, none⟩]
       table := none },
     { ident := "Tree"
       schema := "Tree"
       description := none
       shape := .struct false
         [⟨"Branches", "branches", .list (.named "Tree"), none⟩,
          ⟨"Page", "page", .generic "SearchResult" (.named "Tree"), none⟩]
       table := none }]
  operations :=
    [{ name := "Trees"
       operationId := "Trees"
       method := .get
       path := "/Trees/"
       description := none
       deprecated := false
       scopes := []
       params := []
       body := none
       response := .generic "SearchResult" (.named "Tree") }]

theorem eq_ok_of_toOption {ε α : Type} {x : Except ε α} {a : α} (h : x.toOption = some a) :
    x = .ok a := by
  cases x with
  | error e => cases h
  | ok b => exact congrArg _ (Option.some.inj h)

theorem scope_of_toOption (scope : Scope)
    (h : (NameIndex.ofDocument scope.document).toOption = some scope.index) :
    Scope.ofDocument scope.document = .ok scope := by
  rw [Scope.ofDocument, eq_ok_of_toOption h]
  rfl

/-- The bindings of a document, their declarations in the order in which they are made. -/
def gatherUnsorted (scope : Scope) : GenerationM Bindings := do
  let operations ← Operation.ofDocument scope
  let types ← Declaration.declareWithin scope (Declaration.closureBudget scope)
  return ⟨types, operations⟩

theorem returns_gather {scope : Scope} {g g' : Generation} {b : Bindings}
    (h : Returns (gatherUnsorted scope) g b g')
    (hsorted : b.types.Pairwise fun d d' => d.schema ≤ d'.schema) :
    ∃ g'', Returns (gather scope) g b g'' := by
  simp only [gatherUnsorted, returns_bind, returns_pure] at h
  obtain ⟨ops, g₁, hops, ds, g₂, hds, rfl, rfl⟩ := h
  have hsort : ds.mergeSort (fun a b => a.schema ≤ b.schema) = ds :=
    List.mergeSort_of_pairwise (by simpa using hsorted)
  simp only [gather, Declaration.closure, Generation.note, returns_bind, returns_modify,
    returns_pure]
  exact ⟨_, ops, g₁, hops, ds, _, ⟨ds, g₂, hds, ⟨⟩, _, rfl, hsort, rfl⟩, ⟨⟩, _, rfl, rfl, rfl⟩

theorem ofDocument_of_unsorted {doc : Document} {b : Bindings}
    (h : (do
      let scope ← (Scope.ofDocument doc).toOption
      let indexed : Log.Event := ⟨.debug, Generation.resolvePart, "Indexed schema identifiers."⟩
      ((gatherUnsorted scope).run { journal := [indexed] }).1.toOption) = some b)
    (hsorted : b.types.Pairwise fun d d' => d.schema ≤ d'.schema) : ofDocument doc = .ok b := by
  obtain ⟨scope, hscope, hrun⟩ := Option.bind_eq_some_iff.mp h
  unfold ofDocument run
  rw [eq_ok_of_toOption hscope]
  obtain ⟨_, hgather, -⟩ := returns_gather ⟨eq_ok_of_toOption hrun, rfl⟩ hsorted
  exact hgather

theorem ofDocument_forest : ofDocument forest = .ok forestBindings :=
  ofDocument_of_unsorted (by decide +kernel) (by decide)

theorem isLeast_declared_forest : ofDocument forest = .ok forestBindings ∧
    IsLeast {S | forestBindings.Closed S} {i | ∃ d ∈ forestBindings.types, d.ident = i} :=
  ⟨ofDocument_forest, (isLeast_declared ofDocument_forest).1⟩

end Bindings
end Bindery
