import Bindery.Proofs.Typing.Rules

/-! # What the resolver remembers

A resolver's state is sound when every instance that it remembers has the type that the rules
give it, along with all members that this type goes through (`Scope.Sound`).  A computation
finds the type of a subject when from every sound state it leaves a sound one that remembers no
less, is at the same members, and has returned a type only where the rules give it
(`Scope.Finds`).  Failing leaves the state as sound as succeeding does.

`followWithin_finds` holds for every budget: what a small budget cuts short is a failure. -/

namespace Bindery

open Document

namespace Resolver

def enter (r : Resolver) (name : String) : Resolver :=
  { r with inProgress := name :: r.inProgress }

def leave (r : Resolver) (name : String) : Resolver :=
  { r with inProgress := r.inProgress.erase name }

def remember (r : Resolver) (name : String) (t : TypeExpr) : Resolver :=
  { r with instances := r.instances.insert name t }

theorem find?_remember (r : Resolver) (name other : String) (t : TypeExpr) :
    (r.remember name t).instances.find? other =
      if other = name then some t else r.instances.find? other :=
  Dict.find?_insert r.instances name other t

/-- The later state is at the same members and has forgotten no instance. -/
structure Extends (r r' : Resolver) : Prop where
  inProgress : r'.inProgress = r.inProgress
  instances {name : String} {t : TypeExpr} :
    r.instances.find? name = some t → r'.instances.find? name = some t

namespace Extends

variable {r r' r'' : Resolver}

@[refl] theorem refl (r : Resolver) : r.Extends r := ⟨rfl, id⟩

@[trans] theorem trans (h : r.Extends r') (h' : r'.Extends r'') : r.Extends r'' :=
  ⟨h'.inProgress.trans h.inProgress, fun hfind => h'.instances (h.instances hfind)⟩

end Extends
end Resolver

namespace Scope

variable (scope : Scope)

/-- Every member that the type of a subject goes through is remembered. -/
def Settled (r : Resolver) (x : Subject) : Prop :=
  ∀ name, scope.Through x name → ∃ t, r.instances.find? name = some t

structure Sound (r : Resolver) : Prop where
  typed {name : String} {t : TypeExpr} : r.instances.find? name = some t →
    ∃ s f rest arg, scope.document.components.schemas.find? name = some s ∧
      Family.ofMember? (Naming.typeName name) = some (f, rest) ∧
      scope.Typed (.argument name s) arg ∧ t = .generic f.name arg ∧
      scope.Settled r (.argument name s)
  /-- A member in progress is not remembered yet. -/
  apart {name : String} : name ∈ r.inProgress → r.instances.find? name = none
  distinct : r.inProgress.Nodup
  declared {name : String} : name ∈ r.inProgress →
    name ∈ scope.document.components.schemas.keys

variable {scope} {r r' : Resolver}

theorem Settled.mono {x : Subject} (h : scope.Settled r x) (hr : r.Extends r') :
    scope.Settled r' x := fun name hx =>
  let ⟨t, ht⟩ := h name hx
  ⟨t, hr.instances ht⟩

/-- Where no premise is an argument, the members gone through are those of the premises. -/
theorem Settled.of_premises {x : Subject} (hx : ∀ name s, .argument name s ∉ scope.premises x)
    (h : ∀ y ∈ scope.premises x, scope.Settled r y) : scope.Settled r x := by
  intro name hthrough
  cases hthrough with
  | here hmem => exact absurd hmem (hx _ _)
  | step hy hthrough => exact h _ hy _ hthrough

namespace Sound

theorem empty : scope.Sound {} where
  typed h := by cases h
  apart h := by cases h
  distinct := .nil
  declared h := by cases h

variable (h : scope.Sound r)
include h

theorem enter {name : String} (hfind : r.instances.find? name = none)
    (hnew : name ∉ r.inProgress) (hkey : name ∈ scope.document.components.schemas.keys) :
    scope.Sound (r.enter name) where
  typed := h.typed
  apart hmem := by
    rcases List.mem_cons.mp hmem with rfl | hmem
    · exact hfind
    · exact h.apart hmem
  distinct := List.nodup_cons.mpr ⟨hnew, h.distinct⟩
  declared hmem := by
    rcases List.mem_cons.mp hmem with rfl | hmem
    · exact hkey
    · exact h.declared hmem

theorem leave (name : String) : scope.Sound (r.leave name) where
  typed := h.typed
  apart hmem := h.apart (List.mem_of_mem_erase hmem)
  distinct := h.distinct.erase name
  declared hmem := h.declared (List.mem_of_mem_erase hmem)

theorem not_mem_leave (name : String) : name ∉ (r.leave name).inProgress :=
  h.distinct.not_mem_erase

/-- The members in progress are fewer than the schemas while one schema is not among them. -/
theorem length_lt {name : String} (hnew : name ∉ r.inProgress)
    (hkey : name ∈ scope.document.components.schemas.keys) :
    r.inProgress.length < scope.document.components.schemas.size := by
  have hnodup : (name :: r.inProgress).Nodup := List.nodup_cons.mpr ⟨hnew, h.distinct⟩
  have hsub : name :: r.inProgress ⊆ scope.document.components.schemas.keys := fun other hmem => by
    rcases List.mem_cons.mp hmem with rfl | hmem
    · exact hkey
    · exact h.declared hmem
  have hle := hnodup.length_le_of_subset hsub
  rwa [List.length_cons, Dict.length_keys] at hle

end Sound

theorem Resolver.extends_remember {name : String} {t : TypeExpr}
    (hfind : r.instances.find? name = none) : r.Extends (r.remember name t) where
  inProgress := rfl
  instances {other u} hother := by
    rw [Resolver.find?_remember, if_neg]
    · exact hother
    · rintro rfl
      cases hfind.symm.trans hother

/-- An instance whose argument is typed and settled can be remembered. -/
theorem Sound.remember (h : scope.Sound r) {name rest : String} {s : Schema} {f : Family}
    {arg : TypeExpr} (hfind : r.instances.find? name = none) (hnew : name ∉ r.inProgress)
    (hs : scope.document.components.schemas.find? name = some s)
    (hf : Family.ofMember? (Naming.typeName name) = some (f, rest))
    (harg : scope.Typed (.argument name s) arg) (hsettled : scope.Settled r (.argument name s)) :
    scope.Sound (r.remember name (.generic f.name arg)) where
  typed {other t} hother := by
    have hr := Resolver.extends_remember (t := .generic f.name arg) hfind
    rw [Resolver.find?_remember] at hother
    split at hother
    · rename_i heq
      subst heq
      cases hother
      exact ⟨s, f, rest, arg, hs, hf, harg, rfl, hsettled.mono hr⟩
    · obtain ⟨s', f', rest', arg', hs', hf', harg', rfl, hsettled'⟩ := h.typed hother
      exact ⟨s', f', rest', arg', hs', hf', harg', rfl, hsettled'.mono hr⟩
  apart {other} hother := by
    rw [Resolver.find?_remember, if_neg]
    · exact h.apart hother
    · rintro rfl
      exact hnew hother
  distinct := h.distinct
  declared := h.declared

/-! ## Finding types -/

variable (scope) in
/-- From every sound state the computation leaves a sound one that remembers no less, and it
returns a type only where the rules give that type to the subject. -/
def Finds (c : ResolveM TypeExpr) (x : Subject) : Prop :=
  ∀ r, scope.Sound r → scope.Sound (c.run r).2 ∧ r.Extends (c.run r).2 ∧
    ∀ t, (c.run r).1 = .ok t → scope.Typed x t ∧ scope.Settled (c.run r).2 x

namespace Finds

variable {c c' : ResolveM TypeExpr} {x y y' : Subject}

theorem throw (e : GenerationError) : scope.Finds (throw e) x := fun r hr =>
  ⟨hr, .refl r, fun t ht => by cases ht⟩

theorem map (g : TypeExpr → TypeExpr) (hc : scope.Finds c y) (hp : scope.premises x = [y])
    (hx : ∀ name s, y ≠ .argument name s) (hg : ∀ t, scope.Typed y t → scope.Typed x (g t)) :
    scope.Finds (g <$> c) x := by
  intro r hr
  obtain ⟨hsound, hext, hfound⟩ := hc r hr
  rw [run_map]
  refine ⟨hsound, hext, fun t ht => ?_⟩
  obtain ⟨u, hu, rfl⟩ : ∃ u, (c.run r).1 = .ok u ∧ g u = t := by
    rcases hrun : (c.run r).1 with e | u <;> rw [hrun] at ht <;> cases ht
    exact ⟨u, rfl, rfl⟩
  obtain ⟨htyped, hsettled⟩ := hfound u hu
  refine ⟨hg u htyped, .of_premises ?_ ?_⟩
  · rintro name s hmem
    rw [hp, List.mem_singleton] at hmem
    exact hx name s hmem.symm
  · intro z hz
    rw [hp, List.mem_singleton] at hz
    exact hz ▸ hsettled

theorem of_premise (hc : scope.Finds c y) (hp : scope.premises x = [y])
    (hx : ∀ name s, y ≠ .argument name s) (hg : ∀ t, scope.Typed y t → scope.Typed x t) :
    scope.Finds c x := by
  simpa using map id hc hp hx hg

theorem map₂ (g : TypeExpr → TypeExpr → TypeExpr) (hc : scope.Finds c y)
    (hc' : scope.Finds c' y') (hp : scope.premises x = [y, y'])
    (hx : ∀ name s, y ≠ .argument name s ∧ y' ≠ .argument name s)
    (hg : ∀ t t', scope.Typed y t → scope.Typed y' t' → scope.Typed x (g t t')) :
    scope.Finds (do let t ← c; let t' ← c'; return g t t') x := by
  intro r hr
  obtain ⟨hsound, hext, hfound⟩ := hc r hr
  rw [run_bind]
  rcases hrun : c.run r with ⟨e | t, r₁⟩ <;> rw [hrun] at hsound hext hfound
  · exact ⟨hsound, hext, fun t ht => by cases ht⟩
  · obtain ⟨hsound', hext', hfound'⟩ := hc' r₁ hsound
    dsimp only
    rw [run_bind]
    rcases hrun' : c'.run r₁ with ⟨e | t', r₂⟩ <;> rw [hrun'] at hsound' hext' hfound'
    · exact ⟨hsound', hext.trans hext', fun t ht => by cases ht⟩
    · refine ⟨hsound', hext.trans hext', fun u hu => ?_⟩
      cases hu
      obtain ⟨htyped, hsettled⟩ := hfound t rfl
      obtain ⟨htyped', hsettled'⟩ := hfound' t' rfl
      refine ⟨hg t t' htyped htyped', .of_premises ?_ ?_⟩
      · intro name s hmem
        rw [hp, List.mem_pair] at hmem
        rcases hmem with h | h
        · exact (hx name s).1 h.symm
        · exact (hx name s).2 h.symm
      · intro z hz
        rw [hp, List.mem_pair] at hz
        rcases hz with rfl | rfl
        · exact hsettled.mono hext'
        · exact hsettled'

theorem lift {e : Except GenerationError TypeExpr} (hp : scope.premises x = [])
    (he : ∀ t, e = .ok t → scope.Typed x t) : scope.Finds (liftExcept e) x := by
  intro r hr
  rw [run_liftExcept]
  refine ⟨hr, .refl r, fun t ht => ⟨he t ht, .of_premises ?_ ?_⟩⟩
  · intro name s hmem
    rw [hp] at hmem
    cases hmem
  · intro y hy
    rw [hp] at hy
    cases hy

end Finds

section Follow

variable {follow : String → ResolveM TypeExpr}

theorem Finds.keyType {keys : Schema} {mapped : Option String} {context : String}
    (h : scope.Finds (scope.typeWith follow keys mapped context) (.schema keys mapped)) :
    scope.Finds (scope.keyType follow keys mapped context) (.keys keys mapped) := by
  rw [Scope.keyType]
  cases henum : keys.enumReference with
  | some reference => exact .lift (by rw [premises, henum]; rfl) fun t ht => .enumKeys henum ht
  | none =>
      exact h.of_premise (by rw [premises, henum]; rfl) (by simp) fun t ht => .freeKeys henum ht

variable (hfollow : ∀ reference, scope.Finds (follow reference) (.reference reference))
include hfollow

theorem typeWith_finds (s : Schema) (outer : Option String) (context : String) :
    scope.Finds (scope.typeWith follow s outer context) (.schema s outer) := by
  rw [typeWith_eq]
  cases hform : s.form outer with
  | pointer reference =>
      exact (hfollow reference).of_premise (by rw [premises, hform, Form.premises]) (by simp)
        fun t ht => .pointer hform ht
  | alternative reference =>
      exact (hfollow reference).map _ (by rw [premises, hform, Form.premises]) (by simp)
        fun t ht => .alternative hform ht
  | dictionary keys values mapped =>
      obtain ⟨hkeys, hvalues⟩ := Schema.sizeOf_lt_of_form_dictionary hform
      have hk := (typeWith_finds keys mapped (context ++ " key")).keyType
      exact .map₂ (fun k v => s.wrap (.map k v)) hk (typeWith_finds values none _)
        (by rw [premises, hform, Form.premises]) (by simp) fun k v hk hv => .dictionary hform hk hv
  | array items mapped =>
      have := Schema.sizeOf_lt_of_form_array hform
      exact (typeWith_finds items mapped context).map _
        (by rw [premises, hform, Form.premises]) (by simp) fun t ht => .array hform ht
  | leaf l =>
      dsimp only
      rw [map_liftExcept]
      refine .lift (by rw [premises, hform, Form.premises]) fun t ht => ?_
      obtain ⟨u, hu, rfl⟩ := map_eq_ok.mp ht
      exact .leaf hform hu
termination_by sizeOf s

theorem memberParamWith_finds (name : String) (s : Schema) :
    scope.Finds (scope.memberParamWith follow name s) (.argument name s) := by
  rw [memberParamWith_eq]
  cases hform : s.argumentForm name with
  | suffix rest =>
      exact .lift (by rw [premises, hform, Schema.ArgumentForm.premises])
        fun t ht => .suffix hform ht
  | part p context =>
      exact (typeWith_finds hfollow p none context).of_premise
        (by rw [premises, hform, Schema.ArgumentForm.premises]) (by simp)
        fun t ht => .part hform ht
  | refused detail => exact .throw _

end Follow

/-! ## Members of families -/

section InstanceWith

variable {param : String → Schema → ResolveM TypeExpr} {name family : String} {s : Schema}

theorem run_instanceWith_known {t : TypeExpr} (h : r.instances.find? name = some t) :
    (instanceWith param name s family).run r = (.ok t, r) := by
  rw [instanceWith, run_bind, run_get]
  dsimp only
  rw [h]
  rfl

theorem run_instanceWith_busy (h : r.instances.find? name = none) (hbusy : name ∈ r.inProgress) :
    (instanceWith param name s family).run r =
      (.error (.unsupportedSchema name "generic instantiation refers to itself"), r) := by
  rw [instanceWith, run_bind, run_get]
  dsimp only
  rw [h]
  dsimp only
  rw [if_pos (List.elem_eq_true_of_mem hbusy), run_unsupported]

theorem run_instanceWith_new (h : r.instances.find? name = none) (hnew : name ∉ r.inProgress) :
    (instanceWith param name s family).run r =
      match (param name s).run (r.enter name) with
      | (.ok arg, r') =>
        (.ok (.generic family arg), (r'.leave name).remember name (.generic family arg))
      | (.error e, r') => (.error e, r'.leave name) := by
  rw [instanceWith, run_bind, run_get]
  dsimp only
  rw [h]
  dsimp only
  rw [if_neg (by simpa using hnew), run_bind,
    show (within name (param name s)).run r = (((param name s).run (r.enter name)).1,
      ((param name s).run (r.enter name)).2.leave name) from rfl]
  rcases (param name s).run (r.enter name) with ⟨e | arg, r'⟩
  · rfl
  · rfl

end InstanceWith

theorem Settled.reference {reference name family : String} {s : Schema} {t : TypeExpr}
    (htarget : scope.target reference = .member name s family)
    (hfind : r.instances.find? name = some t) (h : scope.Settled r (.argument name s)) :
    scope.Settled r (.reference reference) := by
  intro other hthrough
  cases hthrough with
  | here hmem =>
      rw [premises, htarget, Target.premises, List.mem_singleton] at hmem
      cases hmem
      exact ⟨t, hfind⟩
  | step hy hthrough =>
      rw [premises, htarget, Target.premises, List.mem_singleton] at hy
      exact h other (hy ▸ hthrough)

/-- A remembered instance has the type that the rules give to references to its member. -/
theorem Sound.typed_reference (h : scope.Sound r) {reference name family : String} {s : Schema}
    {t : TypeExpr} (htarget : scope.target reference = .member name s family)
    (hfind : r.instances.find? name = some t) :
    scope.Typed (.reference reference) t ∧ scope.Settled r (.reference reference) := by
  obtain ⟨hs, f, rest, hf, rfl⟩ := target_eq_member scope htarget
  obtain ⟨s', f', rest', arg, hs', hf', harg, rfl, hsettled⟩ := h.typed hfind
  cases hs.symm.trans hs'
  cases hf.symm.trans hf'
  exact ⟨.applied htarget harg, hsettled.reference htarget hfind⟩

/-- Once a member has been left, the state is at the members that it was at before. -/
theorem Resolver.extends_leave {name : String} (h : (r.enter name).Extends r') :
    r.Extends (r'.leave name) where
  inProgress := by
    rw [Resolver.leave, h.inProgress, Resolver.enter, List.erase_cons_head]
  instances := h.instances

theorem followWith_finds {param : String → Schema → ResolveM TypeExpr}
    (hparam : ∀ name s, scope.Finds (param name s) (.argument name s)) (reference : String) :
    scope.Finds (scope.followWith param reference) (.reference reference) := by
  rw [followWith_eq]
  cases htarget : scope.target reference with
  | missing => exact .throw _
  | declared ident =>
      refine Finds.lift (e := .ok (.named ident)) (by rw [premises, htarget, Target.premises]) ?_
      intro t ht
      cases ht
      exact .declared htarget
  | member name s family =>
      obtain ⟨hs, f, rest, hf, rfl⟩ := target_eq_member scope htarget
      intro r hr
      dsimp only
      cases hfind : r.instances.find? name with
      | some t =>
          rw [run_instanceWith_known hfind]
          refine ⟨hr, .refl r, fun t' ht' => ?_⟩
          cases ht'
          exact hr.typed_reference htarget hfind
      | none =>
          by_cases hbusy : name ∈ r.inProgress
          · rw [run_instanceWith_busy hfind hbusy]
            exact ⟨hr, .refl r, fun t ht => by cases ht⟩
          · rw [run_instanceWith_new hfind hbusy]
            obtain ⟨hsound, hext, hfound⟩ := hparam name s (r.enter name)
              (hr.enter hfind hbusy (Dict.mem_keys_of_find? hs))
            rcases hrun : (param name s).run (r.enter name) with ⟨e | arg, r'⟩ <;>
              rw [hrun] at hsound hext hfound
            · exact ⟨hsound.leave name, Resolver.extends_leave hext, fun t ht => by cases ht⟩
            · obtain ⟨harg, hsettled⟩ := hfound arg rfl
              have hin : name ∈ r'.inProgress := by
                rw [hext.inProgress]
                exact List.mem_cons_self
              have hfind' : (r'.leave name).instances.find? name = none := hsound.apart hin
              have hremember := Resolver.extends_remember (t := .generic f.name arg) hfind'
              refine ⟨(hsound.leave name).remember hfind' (hsound.not_mem_leave name) hs hf harg
                hsettled, (Resolver.extends_leave hext).trans hremember, fun t ht => ?_⟩
              cases ht
              refine ⟨.applied htarget harg, Settled.reference htarget (t := .generic f.name arg) ?_
                (Settled.mono (r := r'.leave name) hsettled hremember)⟩
              rw [Resolver.find?_remember, if_pos rfl]

theorem followWithin_finds (n : Nat) (reference : String) :
    scope.Finds (scope.followWithin n reference) (.reference reference) := by
  induction n generalizing reference with
  | zero => exact followWith_finds (fun name s => .throw _) reference
  | succ n ih => exact followWith_finds (memberParamWith_finds ih) reference

end Scope
end Bindery
