import Bindery.Proofs.Substitution

/-! # The names that types mention

A type mentions the names of its parts (`TypeExpr.dependencies_eq`), and a substitution brings no
other names than those of what is put in (`TypeExpr.mem_dependencies_substitute`).  So nothing is lost
where the type variable is put for an argument: with the argument in the variable's place the type is
what it was, and each name that it mentions is left in it, or mentioned by the argument
(`TypeExpr.substitute_param_faithful`). -/

namespace Bindery.TypeExpr

/-- The name of a type that is declared without a type variable. -/
def name? : TypeExpr → Option String
  | .named ident | .hashRef ident | .bitmask ident => some ident
  | _ => none

/-- The name that a type mentions itself, outside the types that it is built from. -/
def ident? : TypeExpr → Option String
  | .generic family _ => some family
  | t => t.name?

variable {t a b p : TypeExpr} {i : String}

theorem dependencies_eq (t : TypeExpr) :
    t.dependencies = t.ident?.toList ++ t.children.flatMap dependencies := by
  cases t <;> simp [dependencies, ident?, name?, children]

theorem ident?_of_name? (h : t.name? = some i) : t.ident? = some i := by
  cases t <;> first | exact h | cases h

theorem children_of_name? (h : t.name? = some i) : t.children = [] := by
  cases t <;> first | rfl | cases h

theorem dependencies_subset (hp : p ∈ t.parts) : p.dependencies ⊆ t.dependencies := by
  induction t using children_induction with
  | node t ih =>
      rcases mem_parts_iff.mp hp with rfl | ⟨c, hc, hp⟩
      · exact List.Subset.refl _
      · intro i hi
        rw [dependencies_eq]
        exact List.mem_append_right _ (List.mem_flatMap.mpr ⟨c, hc, ih c hc hp hi⟩)

theorem mem_dependencies_of_mem_parts (hp : p ∈ t.parts) (hi : p.ident? = some i) :
    i ∈ t.dependencies := by
  refine dependencies_subset hp ?_
  rw [dependencies_eq, hi]
  exact List.mem_append_left _ (List.mem_singleton_self i)

/-! ## Names and substitution -/

theorem name?_mapChildren {f : TypeExpr → TypeExpr} : (t.mapChildren f).name? = t.name? := by
  cases t <;> rfl

theorem ident?_mapChildren {f : TypeExpr → TypeExpr} : (t.mapChildren f).ident? = t.ident? := by
  cases t <;> rfl

theorem mapChildren_eq_generic {f : TypeExpr → TypeExpr} {family : String}
    (h : t.mapChildren f = .generic family a) : ∃ arg, t = .generic family arg := by
  cases t <;> cases h
  exact ⟨_, rfl⟩

/-- A substitution brings no other names than those of what is put in. -/
theorem mem_dependencies_substitute (h : i ∈ (t.substitute a b).dependencies) :
    i ∈ t.dependencies ∨ i ∈ b.dependencies := by
  induction t using children_induction with
  | node t ih =>
      by_cases heq : t = a
      · rw [heq, substitute_self] at h
        exact .inr h
      · rw [substitute_of_ne heq, dependencies_eq, ident?_mapChildren, children_mapChildren,
          List.flatMap_map, List.mem_append] at h
        rw [dependencies_eq t, List.mem_append]
        rcases h with h | h
        · exact .inl (.inl h)
        · obtain ⟨c, hc, h⟩ := List.mem_flatMap.mp h
          exact (ih c hc h).imp_left fun h => .inr (List.mem_flatMap.mpr ⟨c, hc, h⟩)

/-! ## The variable for an argument -/

theorem dependencies_substitute_param :
    (t.substitute a .param).dependencies ⊆ t.dependencies := by
  intro i hi
  exact (mem_dependencies_substitute hi).resolve_right List.not_mem_nil

theorem substitute_param_substitute (ht : .param ∉ t.parts) (ha : .param ∉ a.parts) :
    (t.substitute a .param).substitute .param a = t := by
  rw [(substitute_back_eq_iff ha).mpr (.inl rfl), substitute_of_not_mem ht]

/-- The argument is left nowhere: what would be equal to it afterwards has been left as it was, since
with the variable inside it could not be. -/
theorem not_mem_parts_substitute (ha : .param ∉ a.parts) : a ∉ (t.substitute a .param).parts := by
  intro hmem
  rcases mem_parts_substitute hmem with hparam | ⟨q, -, hne, heq⟩
  · rw [List.mem_singleton.mp hparam] at ha
    exact ha (mem_parts_self _)
  · rw [← substitute_of_ne hne] at heq
    have hnot : a ∉ q.parts := by
      intro hq
      have hparam := mem_parts_substitute_of_mem (b := .param) hq
      rw [← heq] at hparam
      exact ha hparam
    rw [substitute_of_not_mem hnot] at heq
    exact hne heq.symm

/-- A name is mentioned where it is left, or where the argument that mentions it has stood. -/
theorem mem_dependencies_iff (ht : .param ∉ t.parts) (ha : .param ∉ a.parts) :
    i ∈ t.dependencies ↔
      i ∈ (t.substitute a .param).dependencies ∨ a ∈ t.parts ∧ i ∈ a.dependencies := by
  constructor
  · intro hi
    by_cases hmem : a ∈ t.parts
    · rw [← substitute_param_substitute ht ha] at hi
      exact (mem_dependencies_substitute hi).imp_right fun hi => ⟨hmem, hi⟩
    · rw [substitute_of_not_mem hmem]
      exact .inl hi
  · rintro (hi | ⟨hmem, hi⟩)
    · exact dependencies_substitute_param hi
    · exact dependencies_subset hmem hi

/-- Putting the variable for an argument can be undone and leaves the argument nowhere.  It brings no
names, and takes only those that the argument mentions. -/
theorem substitute_param_faithful (ht : .param ∉ t.parts) (ha : .param ∉ a.parts) :
    (t.substitute a .param).substitute .param a = t ∧
      a ∉ (t.substitute a .param).parts ∧
      (t.substitute a .param).dependencies ⊆ t.dependencies ∧
      ∀ i, i ∈ t.dependencies ↔
        i ∈ (t.substitute a .param).dependencies ∨ a ∈ t.parts ∧ i ∈ a.dependencies :=
  ⟨substitute_param_substitute ht ha, not_mem_parts_substitute ha, dependencies_substitute_param,
    fun _ => mem_dependencies_iff ht ha⟩

/-- A dictionary in which lists of items stand by themselves, in a family and in another list. -/
def piles : TypeExpr :=
  .map (.list (.named "Item"))
    (.generic "SearchResult" (.nullable (.list (.list (.named "Item")))))

theorem substitute_param_faithful_piles :
    let items : TypeExpr := .list (.named "Item")
    let generic : TypeExpr := .map .param (.generic "SearchResult" (.nullable (.list .param)))
    .param ∉ piles.parts ∧ .param ∉ items.parts ∧ piles.substitute items .param = generic ∧
      generic.substitute .param items = piles ∧ items ∉ generic.parts ∧
      generic.dependencies = ["SearchResult"] ∧
      ∀ i, i ∈ piles.dependencies ↔
        i ∈ generic.dependencies ∨ items ∈ piles.parts ∧ i ∈ items.dependencies := by
  intro items generic
  have hpiles : .param ∉ piles.parts := by decide
  have hitems : .param ∉ items.parts := by decide
  have hgeneric : piles.substitute items .param = generic := by decide
  obtain ⟨hback, hnot, -, hnames⟩ := substitute_param_faithful hpiles hitems
  rw [hgeneric] at hback hnot hnames
  exact ⟨hpiles, hitems, hgeneric, hback, hnot, rfl, hnames⟩

end Bindery.TypeExpr
