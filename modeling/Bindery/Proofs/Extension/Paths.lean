import Bindery.Proofs.Closure
import Bindery.Proofs.Extension.Runs

/-! # Further paths

The operation of a path is what its handler makes of the schemas (`Operation.MadeFrom`), and the
declaration of a name is what its schema or family makes of them (`Declaration.Made`): neither
depends on the other paths.  Bindings of a document are therefore part of the bindings of every
document that has further paths (`Bindings.subset_of_furtherPaths`). -/

namespace Bindery

open Document

/-! ## Values and their places -/

/-- The operation is what the handler of the path makes. -/
def Operation.MadeFrom (scope : Scope) (entry : String × PathItem) (op : Operation) : Prop :=
  ∃ method handler names, handler? entry.2 = some (method, handler) ∧
    scope.Performs (ofHandler scope entry.1 entry.2 method handler) op names

/-- The declaration is what is made under its name. -/
def Declaration.Made (scope : Scope) (d : Declaration) : Prop :=
  ∃ names, scope.Performs (ofIdent scope d.ident) d names

namespace Operation

variable {scope scope' : Scope} {entry : String × PathItem} {op op' : Operation}

theorem MadeFrom.of_partOf (h : scope.PartOf scope') (hop : MadeFrom scope entry op) :
    MadeFrom scope' entry op := by
  obtain ⟨method, handler, names, hhandler, hperforms⟩ := hop
  obtain ⟨names', hperforms'⟩ := (ofHandler_carries h _ _ _ _).performs hperforms
  exact ⟨method, handler, names', hhandler, hperforms'⟩

theorem MadeFrom.unique (hop : MadeFrom scope entry op) (hop' : MadeFrom scope entry op') :
    op = op' := by
  obtain ⟨method, handler, names, hhandler, hperforms⟩ := hop
  obtain ⟨method', handler', names', hhandler', hperforms'⟩ := hop'
  cases hhandler.symm.trans hhandler'
  exact hperforms.unique hperforms'

theorem MadeFrom.path_eq (hop : MadeFrom scope entry op) : op.path = entry.1 := by
  obtain ⟨method, handler, names, -, hperforms⟩ := hop
  obtain ⟨_, hret, -⟩ := hperforms {} Scope.At.empty
  exact (takenFrom_of_returns hret).path

theorem ofPaths_madeFrom {before ops : List Operation} {paths : List (String × PathItem)}
    {g g' : Generation} (hg : scope.At [] g.resolver)
    (h : Returns (ofPaths scope before paths) g ops g') :
    ∃ new, ops = before ++ new ∧ List.Forall₂ (MadeFrom scope) paths new := by
  induction paths generalizing before g with
  | nil =>
      simp only [ofPaths, returns_pure] at h
      obtain ⟨rfl, -⟩ := h
      exact ⟨[], by simp, .nil⟩
  | cons entry rest ih =>
      obtain ⟨method, handler, op, g₁, hhandler, hop, -, -, h⟩ := returns_ofPaths_cons.mp h
      obtain ⟨names, hmarks, hperforms⟩ := ofHandler_carries (.refl scope) _ _ _ _ g op g₁ hg hop
      obtain ⟨new, rfl, hnew⟩ := ih hmarks.resolver h
      exact ⟨op :: new, by simp, .cons ⟨method, handler, names, hhandler, hperforms⟩ hnew⟩

end Operation

namespace Declaration

variable {scope scope' : Scope} {d d' : Declaration}

theorem Made.of_partOf (h : scope.PartOf scope') (hd : Made scope d) : Made scope' d := by
  obtain ⟨names, hperforms⟩ := hd
  exact (ofIdent_carries h _).performs hperforms

theorem Made.unique (hd : Made scope d) (hd' : Made scope d') (heq : d.ident = d'.ident) :
    d = d' := by
  obtain ⟨names, hperforms⟩ := hd
  obtain ⟨names', hperforms'⟩ := hd'
  exact hperforms.unique (heq ▸ hperforms')

theorem declareWithin_made (hscope : scope.Indexed) {n : Nat} {ds : List Declaration}
    {g g' : Generation} (hg : scope.At [] g.resolver)
    (h : Returns (declareWithin scope n) g ds g') : ∀ d ∈ ds, Made scope d := by
  induction n generalizing g ds with
  | zero =>
      simp only [declareWithin, returns_pure] at h
      obtain ⟨rfl, -⟩ := h
      simp
  | succ n ih =>
      rcases (returns_declareWithin_succ scope).mp h with
        ⟨-, rfl, -⟩ | ⟨ident, w, d, g₁, ds, -, hd, hds, rfl⟩
      · simp
      · obtain ⟨⟨rfl, -⟩, -⟩ := ofIdent_yields hscope ident { g with wanted := w } d g₁ hg hd
        obtain ⟨names, hmarks, hperforms⟩ :=
          ofIdent_carries (.refl scope) _ { g with wanted := w } d g₁ hg hd
        intro d' hd'
        rcases List.mem_cons.mp hd' with rfl | hd'
        · exact ⟨names, hperforms⟩
        · exact ih hmarks.resolver hds d' hd'

end Declaration

namespace Bindings

/-- Every operation is what its path makes, and every declaration what its name makes. -/
structure Determined (scope : Scope) (b : Bindings) : Prop where
  operations :
    List.Forall₂ (Operation.MadeFrom scope) scope.document.paths.entries b.operations
  types {d : Declaration} : d ∈ b.types → Declaration.Made scope d

variable {scope : Scope} {b b' : Bindings}

theorem gather_determined (hscope : scope.Indexed) {g g' : Generation}
    (hg : scope.At [] g.resolver) (h : Returns (gather scope) g b g') : Determined scope b := by
  simp only [gather, Operation.ofDocument, Declaration.closure, returns_bind, returns_pure] at h
  obtain ⟨ops, g₁, ⟨_, g₀, hops, _, _, hnote, rfl, rfl⟩, ds, _, ⟨made, _, hmade, _, _, -, rfl, -⟩,
    _, _, -, rfl, -⟩ := h
  obtain ⟨new, rfl, hnew⟩ := Operation.ofPaths_madeFrom hg hops
  obtain ⟨_, -, -, hmarks⟩ := Operation.ofPaths_yields [] _ g _ g₀ hg hops
  have hmarks' := Generation.note_marks hmarks.resolver hnote
  refine ⟨hnew, fun {d} hd => ?_⟩
  exact Declaration.declareWithin_made hscope hmarks'.resolver hmade d (List.mem_mergeSort.mp hd)

theorem determined_of_ofDocument {doc : Document} (h : ofDocument doc = .ok b)
    (hscope : Scope.ofDocument doc = .ok scope) : Determined scope b := by
  unfold ofDocument run at h
  rw [hscope] at h
  exact gather_determined (Scope.indexed_of_ofDocument hscope).2 Scope.At.empty ⟨h, rfl⟩

/-- A document with the same components is indexed alike. -/
theorem partOf_of_components {doc doc' : Document} {scope scope' : Scope}
    (hcomponents : doc'.components = doc.components) (h : Scope.ofDocument doc = .ok scope)
    (h' : Scope.ofDocument doc' = .ok scope') : scope.PartOf scope' := by
  unfold Scope.ofDocument NameIndex.ofDocument at h h'
  rw [hcomponents] at h'
  obtain ⟨ix, hix, rfl⟩ := map_eq_ok.mp h
  obtain ⟨ix', hix', rfl⟩ := map_eq_ok.mp h'
  cases hix.symm.trans hix'
  exact ⟨fun hs => hcomponents ▸ hs, congrArg _ hcomponents, id, fun _ => rfl⟩

/-- What the operations of a part reach is declared alike in the whole. -/
theorem Determined.types_subset {scope' : Scope} (hpart : scope.PartOf scope')
    (h : Determined scope b) (h' : Determined scope' b') (hmade : b.MadeFrom scope)
    (hmade' : b'.MadeFrom scope') (hops : ∀ op ∈ b.operations, op ∈ b'.operations) :
    ∀ d ∈ b.types, d ∈ b'.types := by
  have halike {d d' : Declaration} (hd : d ∈ b.types) (hd' : d' ∈ b'.types)
      (hident : d'.ident = d.ident) : d' = d :=
    (h'.types hd').unique ((h.types hd).of_partOf hpart) hident
  -- The names that the whole declares contain all that the part reaches.
  have hclosed : b.Closed {i | ∃ d' ∈ b'.types, d'.ident = i} := {
    operations := fun hop hi => hmade'.mem_idents.mpr (.inl ⟨_, hops _ hop, hi⟩)
    types := fun {d i} hd ⟨d', hd', hident⟩ hi =>
      hmade'.mem_idents.mpr (.inr ⟨d', hd', halike hd hd' hident ▸ hi⟩) }
  intro d hd
  obtain ⟨d', hd', hident⟩ := hmade.reached hclosed hd
  exact halike hd hd' hident ▸ hd'

theorem operations_eq_filter {scope' : Scope} (hpart : scope.PartOf scope')
    (hpaths : ∀ path item, scope.document.paths.find? path = some item →
      scope'.document.paths.find? path = some item)
    (h : Determined scope b) (h' : Determined scope' b') :
    b'.operations.filter (fun op => scope.document.paths.contains op.path) = b.operations := by
  have hkept (entry : String × PathItem) (op : Operation)
      (hop : Operation.MadeFrom scope' entry op) :
      scope.document.paths.contains entry.1 = true ↔
        scope.document.paths.contains op.path = true := by
    rw [hop.path_eq]
  have hfilter := List.rel_filter hkept h'.operations
  rw [Dict.filter_contains_entries hpaths] at hfilter
  have hops := h.operations.imp fun _ _ hop => hop.of_partOf hpart
  exact List.right_unique_forall₂' (fun _ _ _ hop hop' => hop.unique hop') hfilter hops

/-- Where two documents have the same components and the second has the paths of the first and
more, the bindings of the second hold every operation and every declaration of the first, and its
operations for the paths of the first are the operations of the first in their order. -/
theorem subset_of_furtherPaths {doc doc' : Document} {b b' : Bindings}
    (hcomponents : doc'.components = doc.components)
    (hpaths : ∀ path item, doc.paths.find? path = some item →
      doc'.paths.find? path = some item)
    (h : ofDocument doc = .ok b) (h' : ofDocument doc' = .ok b') :
    (∀ op ∈ b.operations, op ∈ b'.operations) ∧ (∀ d ∈ b.types, d ∈ b'.types) ∧
      b'.operations.filter (fun op => doc.paths.contains op.path) = b.operations := by
  obtain ⟨scope, hscope, hmade⟩ := madeFrom_of_ofDocument h
  obtain ⟨scope', hscope', hmade'⟩ := madeFrom_of_ofDocument h'
  have hpart := partOf_of_components hcomponents hscope hscope'
  have hdet := determined_of_ofDocument h hscope
  have hdet' := determined_of_ofDocument h' hscope'
  obtain ⟨rfl, -⟩ := Scope.indexed_of_ofDocument hscope
  obtain ⟨rfl, -⟩ := Scope.indexed_of_ofDocument hscope'
  have hfilter := operations_eq_filter hpart hpaths hdet hdet'
  have hops : ∀ op ∈ b.operations, op ∈ b'.operations := by
    intro op hop
    rw [← hfilter] at hop
    exact (List.mem_filter.mp hop).1
  exact ⟨hops, hdet.types_subset hpart hdet' hmade hmade' hops, hfilter⟩

/-! ## A second path through the forest -/

/-- The forest with a path to its leaves, which stands before the path to its trees. -/
def grove : Document :=
  { forest with
    paths := forest.paths.insert "/Leaves/" {
      summary := some "Leaves"
      get := some (answering "#/components/schemas/Leaf") } }

def leavesOperation : Operation where
  name := "Leaves"
  operationId := "Leaves"
  method := .get
  path := "/Leaves/"
  description := none
  deprecated := false
  scopes := []
  params := []
  body := none
  response := .named "Leaf"

def groveBindings : Bindings where
  types := ⟨"Leaf", "Leaf", none, .openMap, none⟩ :: forestBindings.types
  operations := leavesOperation :: forestBindings.operations

theorem ofDocument_grove : ofDocument grove = .ok groveBindings :=
  ofDocument_of_unsorted (by decide +kernel) (by decide)

theorem find?_paths_grove (path : String) (item : PathItem)
    (h : forest.paths.find? path = some item) : grove.paths.find? path = some item := by
  rw [grove, Dict.find?_insert, if_neg]
  · exact h
  · rintro rfl
    cases h

theorem subset_of_furtherPaths_grove :
    grove.components = forest.components ∧
      (∀ path item, forest.paths.find? path = some item →
        grove.paths.find? path = some item) ∧
      ofDocument forest = .ok forestBindings ∧ ofDocument grove = .ok groveBindings ∧
      (∀ d ∈ forestBindings.types, d ∈ groveBindings.types) ∧
      groveBindings.operations.filter (fun op => forest.paths.contains op.path) =
        forestBindings.operations := by
  have hcomponents : grove.components = forest.components := rfl
  obtain ⟨-, htypes, hoperations⟩ :=
    subset_of_furtherPaths hcomponents find?_paths_grove ofDocument_forest ofDocument_grove
  exact ⟨hcomponents, find?_paths_grove, ofDocument_forest, ofDocument_grove, htypes, hoperations⟩

end Bindings
end Bindery
