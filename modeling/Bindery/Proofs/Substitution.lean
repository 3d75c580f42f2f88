import Bindery.TypeExpr
import Mathlib.Logic.Basic

/-! # Substitution in types

A type that stands for the type variable can be put back to the variable (`substitute_back`), and
another type in the variable's place then gives what it should exactly where the first type stood
for nothing but the variable (`substitute_back_eq_iff`).

Types are taken apart into their direct parts, `children`, so that no argument repeats itself for
each way of building a type. -/

namespace Bindery.TypeExpr

variable {t u a b p : TypeExpr} {f g : TypeExpr → TypeExpr}

/-! ## Parts -/

/-- The types that a type is directly built from. -/
def children : TypeExpr → List TypeExpr
  | .generic _ arg => [arg]
  | .list inner | .nullable inner => [inner]
  | .map key value => [key, value]
  | .scalar _ | .timestamp | .json | .named _ | .param | .hashRef _ | .bitmask _ => []

/-- Puts other types for the types that a type is directly built from. -/
def mapChildren (f : TypeExpr → TypeExpr) : TypeExpr → TypeExpr
  | .generic family arg => .generic family (f arg)
  | .list inner => .list (f inner)
  | .nullable inner => .nullable (f inner)
  | .map key value => .map (f key) (f value)
  | t => t

/-- The type itself and all types that it is built from. -/
def parts : TypeExpr → List TypeExpr
  | .generic family arg => .generic family arg :: arg.parts
  | .list inner => .list inner :: inner.parts
  | .nullable inner => .nullable inner :: inner.parts
  | .map key value => .map key value :: (key.parts ++ value.parts)
  | t => [t]

@[elab_as_elim]
theorem children_induction {P : TypeExpr → Prop} (node : ∀ t, (∀ c ∈ t.children, P c) → P t)
    (t : TypeExpr) : P t := by
  induction t with
  | scalar | timestamp | json | named | param | hashRef | bitmask =>
      exact node _ (by simp [children])
  | generic _ _ ih | list _ ih | nullable _ ih => exact node _ (by simpa [children] using ih)
  | map _ _ ihk ihv => exact node _ (by simpa [children] using ⟨ihk, ihv⟩)

theorem mem_parts_iff : p ∈ t.parts ↔ p = t ∨ ∃ c ∈ t.children, p ∈ c.parts := by
  cases t <;> simp [parts, children]

@[simp] theorem mem_parts_self (t : TypeExpr) : t ∈ t.parts := mem_parts_iff.mpr (.inl rfl)

theorem mem_parts_of_child (hu : u ∈ t.children) (hp : p ∈ u.parts) : p ∈ t.parts :=
  mem_parts_iff.mpr (.inr ⟨u, hu, hp⟩)

theorem mem_parts_trans (hp : p ∈ t.parts) (ht : t ∈ u.parts) : p ∈ u.parts := by
  induction u using children_induction with
  | node u ih =>
      rcases mem_parts_iff.mp ht with rfl | ⟨c, hc, ht⟩
      · exact hp
      · exact mem_parts_of_child hc (ih c hc ht)

theorem sizeOf_lt_of_child (h : u ∈ t.children) : sizeOf u < sizeOf t := by
  cases t <;> simp [children] at h
  · subst h; simp +arith
  · subst h; simp +arith
  · rcases h with rfl | rfl <;> simp +arith
  · subst h; simp +arith

theorem sizeOf_le_of_mem_parts (h : p ∈ t.parts) : sizeOf p ≤ sizeOf t := by
  induction t using children_induction with
  | node t ih =>
      rcases mem_parts_iff.mp h with rfl | ⟨c, hc, hp⟩
      · exact Nat.le_refl _
      · exact Nat.le_of_lt (Nat.lt_of_le_of_lt (ih c hc hp) (sizeOf_lt_of_child hc))

theorem mapChildren_eq_iff :
    t.mapChildren f = t.mapChildren g ↔ ∀ c ∈ t.children, f c = g c := by
  cases t <;> simp [mapChildren, children]

theorem mapChildren_eq_self (h : ∀ c ∈ t.children, f c = c) : t.mapChildren f = t := by
  cases t <;> simp_all [mapChildren, children]

theorem mapChildren_mapChildren : (t.mapChildren f).mapChildren g = t.mapChildren (g ∘ f) := by
  cases t <;> rfl

theorem children_mapChildren : (t.mapChildren f).children = t.children.map f := by
  cases t <;> rfl

theorem mapChildren_eq_param_iff : t.mapChildren f = .param ↔ t = .param := by
  cases t <;> simp [mapChildren]

/-! ## Substitution -/

@[simp] theorem substitute_self (a b : TypeExpr) : a.substitute a b = b := by
  rw [substitute.eq_def, if_pos rfl]

theorem substitute_of_ne (h : t ≠ a) : t.substitute a b = t.mapChildren (·.substitute a b) := by
  rw [substitute.eq_def, if_neg h]
  cases t <;> rfl

theorem substitute_of_not_mem (h : a ∉ t.parts) : t.substitute a b = t := by
  induction t using children_induction with
  | node t ih =>
      have hne : t ≠ a := fun heq => h (heq ▸ mem_parts_self t)
      rw [substitute_of_ne hne]
      exact mapChildren_eq_self fun c hc => ih c hc fun hmem => h (mem_parts_of_child hc hmem)

/-- What a type is built from after a substitution is part of what was put in, or comes from a
part that was left standing. -/
theorem mem_parts_substitute (h : p ∈ (t.substitute a b).parts) :
    p ∈ b.parts ∨ ∃ q ∈ t.parts, q ≠ a ∧ p = q.mapChildren (·.substitute a b) := by
  induction t using children_induction with
  | node t ih =>
      by_cases heq : t = a
      · rw [heq, substitute_self] at h
        exact .inl h
      · rw [substitute_of_ne heq] at h
        rcases mem_parts_iff.mp h with rfl | ⟨c, hc, hp⟩
        · exact .inr ⟨t, mem_parts_self t, heq, rfl⟩
        · rw [children_mapChildren] at hc
          obtain ⟨u, hu, rfl⟩ := List.mem_map.mp hc
          rcases ih u hu hp with hp | ⟨q, hq, hne, rfl⟩
          · exact .inl hp
          · exact .inr ⟨q, mem_parts_of_child hu hq, hne, rfl⟩

/-- What is put in for a part of the type becomes a part of it. -/
theorem mem_parts_substitute_of_mem (h : a ∈ t.parts) : b ∈ (t.substitute a b).parts := by
  induction t using children_induction with
  | node t ih =>
      by_cases heq : t = a
      · rw [heq, substitute_self]
        exact mem_parts_self b
      · rw [substitute_of_ne heq]
        rcases mem_parts_iff.mp h with rfl | ⟨c, hc, hp⟩
        · exact absurd rfl heq
        · refine mem_parts_of_child (u := c.substitute a b) ?_ (ih c hc hp)
          rw [children_mapChildren]
          exact List.mem_map_of_mem hc

/-- Only the variable itself becomes the type that is put in its place: what contains the variable
becomes larger. -/
theorem substitute_param_eq_iff (ha : .param ∉ a.parts) :
    t.substitute .param a = a ↔ t = .param ∨ t = a := by
  constructor
  · intro h
    by_cases hmem : .param ∈ t.parts
    · rcases mem_parts_iff.mp hmem with rfl | ⟨c, hc, hp⟩
      · exact .inl rfl
      · -- The variable stands strictly inside, so the result is larger than what is put in.
        have hne : t ≠ .param := by rintro rfl; cases hc
        rw [substitute_of_ne hne] at h
        have hchild : c.substitute .param a ∈ (t.mapChildren (·.substitute .param a)).children := by
          rw [children_mapChildren]
          exact List.mem_map_of_mem hc
        have hlt := sizeOf_lt_of_child hchild
        have hle := sizeOf_le_of_mem_parts (mem_parts_substitute_of_mem (b := a) hp)
        rw [h] at hlt
        exact absurd hle (Nat.not_le_of_lt hlt)
    · rw [substitute_of_not_mem hmem] at h
      exact .inr h
  · rintro (rfl | rfl)
    · exact substitute_self _ _
    · exact substitute_of_not_mem ha

theorem substitute_back (ha : .param ∉ a.parts) :
    (t.substitute .param a).substitute a .param = t.substitute a .param := by
  induction t using children_induction with
  | node t ih =>
      by_cases hparam : t = .param
      · have hne : TypeExpr.param ≠ a := fun heq => ha (heq ▸ mem_parts_self _)
        rw [hparam, substitute_self, substitute_self, substitute_of_ne hne]
        rfl
      · by_cases heq : t = a
        · rw [heq, substitute_of_not_mem ha]
        · -- Elsewhere the first substitution makes no occurrence of `a` that was not there.
          have hne : t.substitute .param a ≠ a :=
            fun h => ((substitute_param_eq_iff ha).mp h).elim hparam heq
          rw [substitute_of_ne hne, substitute_of_ne hparam, mapChildren_mapChildren,
            substitute_of_ne heq, mapChildren_eq_iff]
          exact ih

/-- A type that is put back to the variable and then replaced by another one is told from the
variable's other occurrences in no way. -/
theorem substitute_back_eq_iff (ha : .param ∉ a.parts) :
    (t.substitute a .param).substitute .param b = t.substitute .param b ↔
      b = a ∨ a ∉ t.parts := by
  induction t using children_induction with
  | node t ih =>
      by_cases heq : t = a
      · rw [heq, substitute_self, substitute_self, substitute_of_not_mem ha]
        simp
      · by_cases hparam : t = .param
        · rw [substitute_of_ne heq, hparam]
          simp [mapChildren, parts, ← hparam, Ne.symm heq]
        · have hne : t.mapChildren (·.substitute a .param) ≠ .param :=
            fun h => hparam (mapChildren_eq_param_iff.mp h)
          rw [substitute_of_ne heq, substitute_of_ne hne, mapChildren_mapChildren,
            substitute_of_ne hparam, mapChildren_eq_iff, mem_parts_iff]
          constructor
          · intro h
            by_cases hb : b = a
            · exact .inl hb
            · refine .inr ?_
              rintro (hself | ⟨c, hc, hmem⟩)
              · exact heq hself.symm
              · exact ((ih c hc).mp (h c hc)).elim hb fun hnot => hnot hmem
          · rintro (hb | hnot) c hc
            · exact (ih c hc).mpr (.inl hb)
            · exact (ih c hc).mpr (.inr fun hmem => hnot (.inr ⟨c, hc, hmem⟩))

end Bindery.TypeExpr
