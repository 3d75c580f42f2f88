import Bindery.Proofs.Typing.Rules

/-! # Documents that contain others

A scope is part of another one when the other has the same responses and family members and finds
everything that the first finds (`Scope.PartOf`).  It may find more.  What the rules give in the
part they give in the whole (`Scope.Typed.of_partOf`): each rule rests on something being found,
and none on something being missing. -/

namespace Bindery

open Document

namespace Scope

/-- The second scope finds what the first finds. -/
structure PartOf (scope scope' : Scope) : Prop where
  schemas {name : String} {s : Schema} :
    scope.document.components.schemas.find? name = some s →
      scope'.document.components.schemas.find? name = some s
  responses : scope'.document.components.responses = scope.document.components.responses
  schemaFor? {ident name : String} :
    scope.index.schemaFor? ident = some name → scope'.index.schemaFor? ident = some name
  membersOf (family : String) : scope'.index.membersOf family = scope.index.membersOf family

@[refl] theorem PartOf.refl (scope : Scope) : scope.PartOf scope := ⟨id, rfl, id, fun _ => rfl⟩

variable {scope scope' : Scope}

/-- Two choices with one condition share their first branch. -/
theorem ite_eq_ok_of_else {ε α : Type} {c : Prop} [Decidable c] {x y y' : Except ε α} {a : α}
    (h : (if c then x else y) = .ok a) (hy : y = .ok a → y' = .ok a) :
    (if c then x else y') = .ok a := by
  split at h
  · rename_i hc
    rwa [if_pos hc]
  · rename_i hc
    rw [if_neg hc]
    exact hy h

namespace PartOf

variable (h : scope.PartOf scope')
include h

theorem schema? {reference name : String} {s : Schema}
    (hs : scope.document.schema? reference = some (name, s)) :
    scope'.document.schema? reference = some (name, s) := by
  obtain ⟨s', hs', heq⟩ := Option.map_eq_some_iff.mp hs
  exact Option.map_eq_some_iff.mpr ⟨s', h.schemas hs', heq⟩

theorem response? (r : Response) :
    scope'.document.response? r = scope.document.response? r := by
  unfold Document.response?
  rw [h.responses]

theorem declaredIdent {reference i : String} (hi : scope.declaredIdent reference = .ok i) :
    scope'.declaredIdent reference = .ok i := by
  unfold Scope.declaredIdent at hi ⊢
  cases hs : scope.document.schema? reference with
  | none => rw [hs] at hi; cases hi
  | some found =>
      rw [hs] at hi
      rw [h.schema? hs]
      exact hi

theorem enumKey {reference : String} {t : TypeExpr} (ht : scope.enumKey reference = .ok t) :
    scope'.enumKey reference = .ok t := by
  refine ite_eq_ok_of_else ht fun ht => ?_
  obtain ⟨i, hi, hname⟩ := map_eq_ok.mp ht
  exact map_eq_ok.mpr ⟨i, h.declaredIdent hi, hname⟩

theorem suffixParam {suffix : String} {t : TypeExpr} (ht : scope.suffixParam suffix = .ok t) :
    scope'.suffixParam suffix = .ok t := by
  refine ite_eq_ok_of_else ht fun ht => ite_eq_ok_of_else ht fun ht =>
    ite_eq_ok_of_else ht fun ht => ?_
  dsimp only at ht ⊢
  split at ht
  · rename_i hsome
    obtain ⟨name, hname⟩ := Option.isSome_iff_exists.mp hsome
    rw [h.schemaFor? hname]
    exact ht
  · cases ht

theorem leafType {s : Schema} {context : String} {l : Leaf} {t : TypeExpr}
    (ht : scope.leafType s context l = .ok t) : scope'.leafType s context l = .ok t := by
  cases l with
  | key target =>
      obtain ⟨i, hi, hname⟩ := map_eq_ok.mp ht
      exact map_eq_ok.mpr ⟨i, h.declaredIdent hi, hname⟩
  | enumeration reference =>
      obtain ⟨i, hi, hname⟩ := map_eq_ok.mp ht
      exact map_eq_ok.mpr ⟨i, h.declaredIdent hi, hname⟩
  | anyObject | scalar => exact ht
  | refused => cases ht

theorem target_declared {reference ident : String}
    (ht : scope.target reference = .declared ident) :
    scope'.target reference = .declared ident := by
  unfold target at ht ⊢
  cases hs : scope.document.schema? reference with
  | none => rw [hs] at ht; cases ht
  | some found =>
      rw [hs] at ht
      rw [h.schema? hs]
      exact ht

theorem target_member {reference name family : String} {s : Schema}
    (ht : scope.target reference = .member name s family) :
    scope'.target reference = .member name s family := by
  unfold target at ht ⊢
  cases hs : scope.document.schema? reference with
  | none => rw [hs] at ht; cases ht
  | some found =>
      rw [hs] at ht
      rw [h.schema? hs]
      exact ht

end PartOf

/-- The rules of a part hold in the whole. -/
theorem Typed.of_partOf (h : scope.PartOf scope') {x : Subject} {t : TypeExpr}
    (ht : scope.Typed x t) : scope'.Typed x t := by
  induction ht with
  | declared htarget => exact .declared (h.target_declared htarget)
  | applied htarget _ ih => exact .applied (h.target_member htarget) ih
  | suffix hform hsuffix => exact .suffix hform (h.suffixParam hsuffix)
  | part hform _ ih => exact .part hform ih
  | enumKeys henum hkey => exact .enumKeys henum (h.enumKey hkey)
  | freeKeys henum _ ih => exact .freeKeys henum ih
  | pointer hform _ ih => exact .pointer hform ih
  | alternative hform _ ih => exact .alternative hform ih
  | dictionary hform _ _ ihk ihv => exact .dictionary hform ihk ihv
  | array hform _ ih => exact .array hform ih
  | leaf hform hl => exact .leaf hform (h.leafType hl)

end Scope
end Bindery
