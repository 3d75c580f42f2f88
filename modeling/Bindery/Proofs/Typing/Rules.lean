import Bindery.Proofs.Typing.Form
import Mathlib.Data.List.Basic

/-! # The types that a document gives

`Scope.Typed` gives a type to references, schemas, the keys of dictionaries and the arguments of
family members, one rule for each way of building a type.  The rules know neither a memory of
instances nor a set of members in progress; they say which types the resolver can find at all.

Each rule has premises, and the type it concludes contains the types of its premises
(`Typed.premise`).  The rule for a member of a family adds the family around the argument, so a
member whose argument goes through the member itself has no type (`not_typed_of_leadsBack`). -/

namespace Bindery

open Document

/-- What types are given to. -/
inductive Subject where
  | reference (reference : String)
  /-- A schema, and the definition that is mapped to it from outside. -/
  | schema (s : Schema) (outer : Option String)
  | keys (s : Schema) (mapped : Option String)
  /-- The type argument of the family member of the given name. -/
  | argument (name : String) (s : Schema)

namespace Document

def Form.premises : Form → List Subject
  | .pointer r | .alternative r => [.reference r]
  | .dictionary keys values mapped => [.keys keys mapped, .schema values none]
  | .array items mapped => [.schema items mapped]
  | .leaf _ => []

def Schema.ArgumentForm.premises : Schema.ArgumentForm → List Subject
  | .part p _ => [.schema p none]
  | .suffix _ | .refused _ => []

end Document

namespace Scope

variable (scope : Scope)

inductive Typed : Subject → TypeExpr → Prop
  | declared {r ident} : scope.target r = .declared ident → Typed (.reference r) (.named ident)
  | applied {r name s family arg} : scope.target r = .member name s family →
      Typed (.argument name s) arg → Typed (.reference r) (.generic family arg)
  | suffix {name s rest t} : s.argumentForm name = .suffix rest → scope.suffixParam rest = .ok t →
      Typed (.argument name s) t
  | part {name s p context t} : s.argumentForm name = .part p context →
      Typed (.schema p none) t → Typed (.argument name s) t
  | enumKeys {s mapped r t} : s.enumReference = some r → scope.enumKey r = .ok t →
      Typed (.keys s mapped) t
  | freeKeys {s mapped t} : s.enumReference = none → Typed (.schema s mapped) t →
      Typed (.keys s mapped) t
  | pointer {s outer r t} : s.form outer = .pointer r → Typed (.reference r) t →
      Typed (.schema s outer) t
  | alternative {s outer r t} : s.form outer = .alternative r → Typed (.reference r) t →
      Typed (.schema s outer) (s.wrap t)
  | dictionary {s outer keys values mapped k v} : s.form outer = .dictionary keys values mapped →
      Typed (.keys keys mapped) k → Typed (.schema values none) v →
      Typed (.schema s outer) (s.wrap (.map k v))
  | array {s outer items mapped t} : s.form outer = .array items mapped →
      Typed (.schema items mapped) t → Typed (.schema s outer) (s.wrap (.list t))
  | leaf {s outer l context t} : s.form outer = .leaf l → scope.leafType s context l = .ok t →
      Typed (.schema s outer) (s.wrap t)

variable {scope}

/-- At most one type is given to a subject. -/
theorem Typed.unique {x : Subject} {t t' : TypeExpr} (h : scope.Typed x t)
    (h' : scope.Typed x t') : t = t' := by
  induction h generalizing t' with
  | declared h₁ =>
      cases h' with
      | declared h₂ => cases h₁.symm.trans h₂; rfl
      | applied h₂ => cases h₁.symm.trans h₂
  | applied h₁ _ ih =>
      cases h' with
      | declared h₂ => cases h₁.symm.trans h₂
      | applied h₂ harg => cases h₁.symm.trans h₂; rw [ih harg]
  | suffix h₁ hp =>
      cases h' with
      | suffix h₂ hp' => cases h₁.symm.trans h₂; exact Except.ok.inj (hp.symm.trans hp')
      | part h₂ => cases h₁.symm.trans h₂
  | part h₁ _ ih =>
      cases h' with
      | suffix h₂ => cases h₁.symm.trans h₂
      | part h₂ hp => cases h₁.symm.trans h₂; exact ih hp
  | enumKeys h₁ hk =>
      cases h' with
      | enumKeys h₂ hk' => cases h₁.symm.trans h₂; exact Except.ok.inj (hk.symm.trans hk')
      | freeKeys h₂ => cases h₁.symm.trans h₂
  | freeKeys h₁ _ ih =>
      cases h' with
      | enumKeys h₂ => cases h₁.symm.trans h₂
      | freeKeys _ hk => exact ih hk
  | pointer h₁ _ ih =>
      cases h' with
      | pointer h₂ hr => cases h₁.symm.trans h₂; exact ih hr
      | alternative h₂ | dictionary h₂ | array h₂ | leaf h₂ => cases h₁.symm.trans h₂
  | alternative h₁ _ ih =>
      cases h' with
      | alternative h₂ hr => cases h₁.symm.trans h₂; rw [ih hr]
      | pointer h₂ | dictionary h₂ | array h₂ | leaf h₂ => cases h₁.symm.trans h₂
  | dictionary h₁ _ _ ihk ihv =>
      cases h' with
      | dictionary h₂ hk hv => cases h₁.symm.trans h₂; rw [ihk hk, ihv hv]
      | pointer h₂ | alternative h₂ | array h₂ | leaf h₂ => cases h₁.symm.trans h₂
  | array h₁ _ ih =>
      cases h' with
      | array h₂ hi => cases h₁.symm.trans h₂; rw [ih hi]
      | pointer h₂ | alternative h₂ | dictionary h₂ | leaf h₂ => cases h₁.symm.trans h₂
  | leaf h₁ hl =>
      cases h' with
      | leaf h₂ hl' =>
          cases h₁.symm.trans h₂
          rw [Except.ok.inj ((leafType_eq_ok _ hl).symm.trans hl')]
      | pointer h₂ | alternative h₂ | dictionary h₂ | array h₂ => cases h₁.symm.trans h₂

/-! ## Premises -/

variable (scope)

def Target.premises : Target → List Subject
  | .member name s _ => [.argument name s]
  | .missing | .declared _ => []

/-- The subjects whose types the type of a subject is built from. -/
def premises : Subject → List Subject
  | .reference r => (scope.target r).premises
  | .schema s outer => (s.form outer).premises
  | .keys s mapped => if s.enumReference.isSome then [] else [.schema s mapped]
  | .argument name s => (s.argumentForm name).premises

/-- Finding the type of a subject goes through the argument of the member of the given name. -/
inductive Through : Subject → String → Prop
  | here {x name s} : .argument name s ∈ scope.premises x → Through x name
  | step {x y name} : y ∈ scope.premises x → Through y name → Through x name

/-- The argument of a member goes through the member itself. -/
def LeadsBack (name : String) : Prop :=
  ∃ s, scope.document.components.schemas.find? name = some s ∧
    scope.Through (.argument name s) name

variable {scope}

/-- Only references have arguments for premises. -/
theorem argument_mem_premises {x : Subject} {name : String} {s : Schema}
    (h : .argument name s ∈ scope.premises x) :
    ∃ r family, x = .reference r ∧ scope.target r = .member name s family := by
  cases x with
  | reference r =>
      rw [premises] at h
      cases htarget : scope.target r with
      | missing => rw [htarget] at h; cases h
      | declared ident => rw [htarget] at h; cases h
      | member name' s' family =>
          rw [htarget] at h
          obtain ⟨rfl, rfl⟩ := Subject.argument.inj (List.mem_singleton.mp h)
          exact ⟨r, family, rfl, htarget⟩
  | schema s' outer =>
      rw [premises] at h
      cases hform : s'.form outer <;> rw [hform] at h <;> simp [Form.premises] at h
  | keys s' mapped =>
      rw [premises] at h
      split at h <;> simp at h
  | argument name' s' =>
      rw [premises] at h
      cases hform : s'.argumentForm name' <;> rw [hform] at h <;>
        simp [Schema.ArgumentForm.premises] at h

/-- What has a type has typed premises, with types that are no larger. -/
theorem Typed.premise {x y : Subject} {t : TypeExpr} (h : scope.Typed x t)
    (hy : y ∈ scope.premises x) : ∃ u, scope.Typed y u ∧ sizeOf u ≤ sizeOf t := by
  cases h with
  | declared h => rw [premises, h] at hy; cases hy
  | applied h harg =>
      rw [premises, h, Target.premises, List.mem_singleton] at hy
      exact ⟨_, hy ▸ harg, by simp +arith⟩
  | suffix h => rw [premises, h] at hy; cases hy
  | part h hp =>
      rw [premises, h, Schema.ArgumentForm.premises, List.mem_singleton] at hy
      exact ⟨_, hy ▸ hp, Nat.le_refl _⟩
  | enumKeys h => rw [premises, h] at hy; cases hy
  | freeKeys h hk =>
      rw [premises, h, Option.isSome_none, if_neg Bool.false_ne_true, List.mem_singleton] at hy
      exact ⟨_, hy ▸ hk, Nat.le_refl _⟩
  | pointer h hr =>
      rw [premises, h, Form.premises, List.mem_singleton] at hy
      exact ⟨_, hy ▸ hr, Nat.le_refl _⟩
  | alternative h hr =>
      rw [premises, h, Form.premises, List.mem_singleton] at hy
      exact ⟨_, hy ▸ hr, Schema.sizeOf_le_wrap _ _⟩
  | @dictionary s _ _ _ _ k v h hk hv =>
      rw [premises, h, Form.premises, List.mem_pair] at hy
      have hle := Schema.sizeOf_le_wrap s (.map k v)
      have hmap : sizeOf (TypeExpr.map k v) = 1 + sizeOf k + sizeOf v := rfl
      rcases hy with rfl | rfl
      · exact ⟨_, hk, by omega⟩
      · exact ⟨_, hv, by omega⟩
  | @array s _ _ _ t h hi =>
      rw [premises, h, Form.premises, List.mem_singleton] at hy
      have hle := Schema.sizeOf_le_wrap s (.list t)
      have hlist : sizeOf (TypeExpr.list t) = 1 + sizeOf t := rfl
      exact ⟨_, hy ▸ hi, by omega⟩
  | leaf h => rw [premises, h] at hy; cases hy

/-- The argument of a member that a type goes through is smaller than the type: the rule for
members puts their family around it. -/
theorem Typed.through {x : Subject} {t : TypeExpr} {name : String} (h : scope.Typed x t)
    (hx : scope.Through x name) : ∃ s u,
      scope.document.components.schemas.find? name = some s ∧
        scope.Typed (.argument name s) u ∧ sizeOf u < sizeOf t := by
  induction hx generalizing t with
  | here hmem =>
      obtain ⟨r, family, rfl, htarget⟩ := argument_mem_premises hmem
      cases h with
      | declared h => cases htarget.symm.trans h
      | applied h harg =>
          cases htarget.symm.trans h
          exact ⟨_, _, (target_eq_member _ htarget).1, harg, by simp +arith⟩
  | step hy _ ih =>
      obtain ⟨u, hu, hle⟩ := h.premise hy
      obtain ⟨s, v, hs, hv, hlt⟩ := ih hu
      exact ⟨s, v, hs, hv, Nat.lt_of_lt_of_le hlt hle⟩

/-- Only members of families have arguments that lead anywhere. -/
theorem LeadsBack.ofMember? {name : String} (h : scope.LeadsBack name) :
    ∃ f rest, Family.ofMember? (Naming.typeName name) = some (f, rest) := by
  obtain ⟨s, -, hback⟩ := h
  cases hf : Family.ofMember? (Naming.typeName name) with
  | some m => exact ⟨m.1, m.2, rfl⟩
  | none =>
      have hform : s.argumentForm name = .refused "not a generic family member" := by
        unfold Schema.argumentForm
        rw [hf]
      cases hback with
      | here hmem => rw [premises, hform] at hmem; cases hmem
      | step hy => rw [premises, hform] at hy; cases hy

theorem not_typed_of_leadsBack {name : String} {s : Schema} (h : scope.LeadsBack name)
    (hs : scope.document.components.schemas.find? name = some s) (t : TypeExpr) :
    ¬ scope.Typed (.argument name s) t := by
  intro ht
  obtain ⟨s', hs', hback⟩ := h
  cases hs.symm.trans hs'
  obtain ⟨s', u, hs', hu, hlt⟩ := ht.through hback
  cases hs.symm.trans hs'
  rw [ht.unique hu] at hlt
  exact Nat.lt_irrefl _ hlt

/-- No type goes through a member whose argument leads back to itself. -/
theorem Typed.not_through {x : Subject} {t : TypeExpr} {name : String} (ht : scope.Typed x t)
    (h : scope.LeadsBack name) : ¬ scope.Through x name := by
  intro hthrough
  obtain ⟨s, u, hs, hu, -⟩ := ht.through hthrough
  exact not_typed_of_leadsBack h hs u hu

end Scope
end Bindery
