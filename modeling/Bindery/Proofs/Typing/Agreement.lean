import Bindery.Proofs.Typing.Memory

/-! # The resolver's answers do not depend on what it remembers

A computation succeeds at given members in progress when every sound state that is at them lets
it return the type (`Succeeds`), and two computations agree there when they return the same from
any two such states, types and errors alike (`Agree`).

What the rules give a type to is found wherever none of the members that the type goes through is
in progress (`followWithin_succeeds`).  So an instance that one state remembers is found anew from
another, and answers agree whatever is remembered (`followWithin_agree`).  Both hold for every
budget that covers the schemas which are not in progress: the budget never decides an answer. -/

namespace Bindery

open Document

namespace Scope

variable (scope : Scope)

/-- A sound state that is at the given members. -/
structure At (p : List String) (r : Resolver) : Prop where
  sound : scope.Sound r
  inProgress : r.inProgress = p

variable {scope} {p : List String} {r r' : Resolver}

theorem At.run {c : ResolveM TypeExpr} {x : Subject} (h : scope.At p r) (hc : scope.Finds c x) :
    scope.At p (c.run r).2 :=
  ⟨(hc r h.sound).1, ((hc r h.sound).2.1.inProgress).trans h.inProgress⟩

variable (scope)

/-- No member that the type of a subject goes through is among the given ones. -/
def Clear (p : List String) (x : Subject) : Prop := ∀ name, scope.Through x name → name ∉ p

def Succeeds (p : List String) (c : ResolveM TypeExpr) (t : TypeExpr) : Prop :=
  ∀ r, scope.At p r → (c.run r).1 = .ok t

def Agree (p : List String) (c c' : ResolveM TypeExpr) : Prop :=
  ∀ r r', scope.At p r → scope.At p r' → (c.run r).1 = (c'.run r').1

variable {scope}

theorem Clear.premise {x y : Subject} (h : scope.Clear p x) (hy : y ∈ scope.premises x) :
    scope.Clear p y := fun name hthrough => h name (.step hy hthrough)

/-- Members that are remembered are not in progress. -/
theorem Settled.clear {x : Subject} (h : scope.Settled r x) (hr : scope.At p r) :
    scope.Clear p x := by
  intro name hthrough hmem
  obtain ⟨t, ht⟩ := h name hthrough
  have hnone := hr.sound.apart (hr.inProgress ▸ hmem)
  cases ht.symm.trans hnone

/-! ## Building agreement and success -/

section Build

variable {c c' d d' : ResolveM TypeExpr} {x y : Subject} {t t' : TypeExpr}

theorem Succeeds.map (g : TypeExpr → TypeExpr) (h : scope.Succeeds p c t) :
    scope.Succeeds p (g <$> c) (g t) := by
  intro r hr
  rw [run_map, h r hr]
  rfl

theorem Succeeds.map₂ (g : TypeExpr → TypeExpr → TypeExpr) (hc : scope.Finds c x)
    (h : scope.Succeeds p c t) (h' : scope.Succeeds p c' t') :
    scope.Succeeds p (do let t ← c; let t' ← c'; return g t t') (g t t') := by
  intro r hr
  have hat := hr.run hc
  have hok := h r hr
  rw [run_bind]
  rcases hrun : c.run r with ⟨e | u, r₁⟩ <;> rw [hrun] at hat hok
  · cases hok
  · cases hok
    have hok' := h' r₁ hat
    dsimp only
    rw [run_bind]
    rcases hrun' : c'.run r₁ with ⟨e | u', r₂⟩ <;> rw [hrun'] at hok'
    · cases hok'
    · cases hok'
      rfl

theorem Succeeds.lift {e : Except GenerationError TypeExpr} (h : e = .ok t) :
    scope.Succeeds p (liftExcept e) t := by
  intro r hr
  rw [run_liftExcept]
  exact h

theorem Agree.lift (e : Except GenerationError TypeExpr) :
    scope.Agree p (liftExcept e) (liftExcept e) := by
  intro r r' hr hr'
  rw [run_liftExcept, run_liftExcept]

theorem Agree.throw (e : GenerationError) :
    scope.Agree p (throw e : ResolveM TypeExpr) (throw e) := fun _ _ _ _ => rfl

theorem Agree.map (g : TypeExpr → TypeExpr) (h : scope.Agree p c d) :
    scope.Agree p (g <$> c) (g <$> d) := by
  intro r r' hr hr'
  rw [run_map, run_map, h r r' hr hr']

theorem Agree.map₂ (g : TypeExpr → TypeExpr → TypeExpr) (hc : scope.Finds c x)
    (hd : scope.Finds d y) (h : scope.Agree p c d) (h' : scope.Agree p c' d') :
    scope.Agree p (do let t ← c; let t' ← c'; return g t t')
      (do let t ← d; let t' ← d'; return g t t') := by
  intro r r' hr hr'
  have hat := hr.run hc
  have hat' := hr'.run hd
  have heq := h r r' hr hr'
  rw [run_bind, run_bind]
  rcases hrun : c.run r with ⟨e | t, r₁⟩ <;> rcases hrun' : d.run r' with ⟨e' | t', r₁'⟩ <;>
    rw [hrun, hrun'] at heq <;> cases heq
  · rfl
  · rw [hrun] at hat
    rw [hrun'] at hat'
    exact Agree.map (g t) h' r₁ r₁' hat hat'

end Build

/-! ## Schemas and arguments -/

section Follow

variable {follow follow' : String → ResolveM TypeExpr}
  (hfinds : ∀ reference, scope.Finds (follow reference) (.reference reference))
  (hfinds' : ∀ reference, scope.Finds (follow' reference) (.reference reference))

section Succeeds

variable (hfollow : ∀ reference t, scope.Typed (.reference reference) t →
  scope.Clear p (.reference reference) → scope.Succeeds p (follow reference) t)
include hfinds hfollow

theorem typeWith_succeeds (s : Schema) (outer : Option String) (context : String) (t : TypeExpr)
    (h : scope.Typed (.schema s outer) t) (hclear : scope.Clear p (.schema s outer)) :
    scope.Succeeds p (scope.typeWith follow s outer context) t := by
  rw [typeWith_eq]
  cases h with
  | pointer hform hr =>
      rw [hform]
      exact hfollow _ _ hr (hclear.premise (by rw [premises, hform]; simp [Form.premises]))
  | alternative hform hr =>
      rw [hform]
      exact (hfollow _ _ hr (hclear.premise (by rw [premises, hform]; simp [Form.premises]))).map _
  | @dictionary _ _ keys values mapped k v hform hk hv =>
      obtain ⟨hkeys, hvalues⟩ := Schema.sizeOf_lt_of_form_dictionary hform
      have hck : scope.Clear p (.keys keys mapped) :=
        hclear.premise (by rw [premises, hform]; simp [Form.premises])
      have hcv : scope.Clear p (.schema values none) :=
        hclear.premise (by rw [premises, hform]; simp [Form.premises])
      rw [hform]
      refine Succeeds.map₂ (fun k v => s.wrap (.map k v)) (x := .keys keys mapped)
        (typeWith_finds hfinds _ _ _).keyType ?_ (typeWith_succeeds values none _ v hv hcv)
      rw [keyType]
      cases hk with
      | enumKeys henum hkey =>
          rw [henum]
          exact .lift hkey
      | freeKeys henum hkey =>
          rw [henum]
          exact typeWith_succeeds keys mapped _ k hkey
            (hck.premise (by rw [premises, henum]; simp))
  | @array _ _ items mapped t hform hi =>
      have := Schema.sizeOf_lt_of_form_array hform
      rw [hform]
      exact (typeWith_succeeds items mapped context t hi
        (hclear.premise (by rw [premises, hform]; simp [Form.premises]))).map _
  | leaf hform hl =>
      rw [hform]
      exact (Succeeds.lift (leafType_eq_ok scope hl)).map _
termination_by sizeOf s

theorem memberParamWith_succeeds (name : String) (s : Schema) (t : TypeExpr)
    (h : scope.Typed (.argument name s) t) (hclear : scope.Clear p (.argument name s)) :
    scope.Succeeds p (scope.memberParamWith follow name s) t := by
  rw [memberParamWith_eq]
  cases h with
  | suffix hform hsuffix =>
      rw [hform]
      exact .lift hsuffix
  | part hform hp =>
      rw [hform]
      exact typeWith_succeeds hfinds hfollow _ none _ t hp
        (hclear.premise (by rw [premises, hform]; simp [Schema.ArgumentForm.premises]))

end Succeeds

section Agree

variable (hfollow : ∀ reference, scope.Agree p (follow reference) (follow' reference))
include hfinds hfinds' hfollow

theorem typeWith_agree (s : Schema) (outer : Option String) (context : String) :
    scope.Agree p (scope.typeWith follow s outer context)
      (scope.typeWith follow' s outer context) := by
  rw [typeWith_eq, typeWith_eq]
  cases hform : s.form outer with
  | pointer reference => exact hfollow reference
  | alternative reference => exact (hfollow reference).map _
  | dictionary keys values mapped =>
      obtain ⟨hkeys, hvalues⟩ := Schema.sizeOf_lt_of_form_dictionary hform
      refine Agree.map₂ (fun k v => s.wrap (.map k v)) (typeWith_finds hfinds _ _ _).keyType
        (typeWith_finds hfinds' _ _ _).keyType ?_ (typeWith_agree values none _)
      rw [keyType, keyType]
      cases henum : keys.enumReference with
      | some reference => exact .lift _
      | none => exact typeWith_agree keys mapped _
  | array items mapped =>
      have := Schema.sizeOf_lt_of_form_array hform
      exact (typeWith_agree items mapped context).map _
  | leaf l => exact (Agree.lift _).map _
termination_by sizeOf s

theorem memberParamWith_agree (name : String) (s : Schema) :
    scope.Agree p (scope.memberParamWith follow name s) (scope.memberParamWith follow' name s) := by
  rw [memberParamWith_eq, memberParamWith_eq]
  cases s.argumentForm name with
  | suffix rest => exact .lift _
  | part p' context => exact typeWith_agree hfinds hfinds' hfollow p' none context
  | refused detail => exact .throw _

end Agree
end Follow

/-! ## References -/

/-- The argument of a member, with a budget of further members that may be entered on the way. -/
def paramWithin (scope : Scope) : Nat → String → Schema → ResolveM TypeExpr
  | 0 => fun name _ => unsupported name "generic instantiation refers to itself"
  | n + 1 => scope.memberParamWith (scope.followWithin n)

theorem followWithin_eq (n : Nat) (reference : String) :
    scope.followWithin n reference = scope.followWith (scope.paramWithin n) reference := by
  cases n <;> rfl

/-- Where a member can be entered, a budget that covers the members not in progress is not
used up. -/
theorem At.exists_budget (h : scope.At p r) {n : Nat}
    (hn : scope.document.components.schemas.size ≤ n + p.length) {name : String}
    (hnew : name ∉ r.inProgress) (hkey : name ∈ scope.document.components.schemas.keys) :
    ∃ m, n = m + 1 ∧
      scope.document.components.schemas.size ≤ m + (name :: p).length := by
  have hlt := h.sound.length_lt hnew hkey
  rw [h.inProgress] at hlt
  refine ⟨n - 1, by omega, ?_⟩
  rw [List.length_cons]
  omega

theorem At.enter (h : scope.At p r) {name : String} (hfind : r.instances.find? name = none)
    (hnew : name ∉ r.inProgress) (hkey : name ∈ scope.document.components.schemas.keys) :
    scope.At (name :: p) (r.enter name) :=
  ⟨h.sound.enter hfind hnew hkey, congrArg _ h.inProgress⟩

/-- A typed argument does not go through its own member. -/
theorem Typed.clear_cons {name : String} {s : Schema} {t : TypeExpr}
    (h : scope.Typed (.argument name s) t)
    (hs : scope.document.components.schemas.find? name = some s)
    (hclear : scope.Clear p (.argument name s)) : scope.Clear (name :: p) (.argument name s) := by
  intro other hthrough hmem
  rcases List.mem_cons.mp hmem with rfl | hmem
  · exact not_typed_of_leadsBack ⟨s, hs, hthrough⟩ hs t h
  · exact hclear other hthrough hmem

theorem followWithin_succeeds {p : List String} {n : Nat}
    (hn : scope.document.components.schemas.size ≤ n + p.length) (reference : String)
    (t : TypeExpr) (h : scope.Typed (.reference reference) t)
    (hclear : scope.Clear p (.reference reference)) :
    scope.Succeeds p (scope.followWithin n reference) t := by
  rw [followWithin_eq, followWith_eq]
  intro r hr
  cases h with
  | declared htarget =>
      rw [htarget]
      rfl
  | @applied _ name s family arg htarget harg =>
      have hs := (target_eq_member scope htarget).1
      have hkey := Dict.mem_keys_of_find? hs
      have hpremise : .argument name s ∈ scope.premises (.reference reference) := by
        rw [premises, htarget]
        exact List.mem_singleton_self _
      have hnew : name ∉ r.inProgress := by
        rw [hr.inProgress]
        exact hclear name (.here hpremise)
      rw [htarget]
      dsimp only
      cases hfind : r.instances.find? name with
      | some t =>
          rw [run_instanceWith_known hfind,
            (hr.sound.typed_reference htarget hfind).1.unique (.applied htarget harg)]
      | none =>
          obtain ⟨m, rfl, hm⟩ := hr.exists_budget hn hnew hkey
          have hok := memberParamWith_succeeds (followWithin_finds m) (followWithin_succeeds hm)
            name s arg harg (harg.clear_cons hs (hclear.premise hpremise)) (r.enter name)
            (hr.enter hfind hnew hkey)
          rw [run_instanceWith_new hfind hnew, paramWithin]
          rcases hrun : (scope.memberParamWith (scope.followWithin m) name s).run (r.enter name)
            with ⟨e | a, r'⟩ <;> rw [hrun] at hok <;> cases hok
          rfl
termination_by n

theorem followWithin_agree {p : List String} {n n' : Nat}
    (hn : scope.document.components.schemas.size ≤ n + p.length)
    (hn' : scope.document.components.schemas.size ≤ n' + p.length) (reference : String) :
    scope.Agree p (scope.followWithin n reference) (scope.followWithin n' reference) := by
  intro r r' hr hr'
  -- An instance that only one of the two remembers is found anew by the other.
  have hknown : ∀ {m : Nat} {name family : String} {s : Schema} {t : TypeExpr} {r r' : Resolver},
      scope.At p r → scope.At p r' → scope.document.components.schemas.size ≤ m + p.length →
      scope.target reference = .member name s family → r.instances.find? name = some t →
      ((scope.followWithin m reference).run r').1 = .ok t := by
    intro m name family s t r r' hr hr' hm htarget hfind
    obtain ⟨htyped, hsettled⟩ := hr.sound.typed_reference htarget hfind
    exact followWithin_succeeds hm reference t htyped (hsettled.clear hr) r' hr'
  cases htarget : scope.target reference with
  | missing => rw [followWithin_eq, followWithin_eq, followWith_eq, followWith_eq, htarget]; rfl
  | declared ident =>
      rw [followWithin_eq, followWithin_eq, followWith_eq, followWith_eq, htarget]; rfl
  | member name s family =>
      cases hfind : r.instances.find? name with
      | some t => rw [hknown hr hr hn htarget hfind, hknown hr hr' hn' htarget hfind]
      | none =>
          cases hfind' : r'.instances.find? name with
          | some t => rw [hknown hr' hr hn htarget hfind', hknown hr' hr' hn' htarget hfind']
          | none =>
              rw [followWithin_eq, followWithin_eq, followWith_eq, followWith_eq, htarget]
              dsimp only
              by_cases hbusy : name ∈ p
              · rw [run_instanceWith_busy hfind (hr.inProgress ▸ hbusy),
                  run_instanceWith_busy hfind' (hr'.inProgress ▸ hbusy)]
              · have hkey := Dict.mem_keys_of_find? (target_eq_member scope htarget).1
                have hnew : name ∉ r.inProgress := hr.inProgress ▸ hbusy
                have hnew' : name ∉ r'.inProgress := hr'.inProgress ▸ hbusy
                obtain ⟨m, rfl, hm⟩ := hr.exists_budget hn hnew hkey
                obtain ⟨m', rfl, hm'⟩ := hr'.exists_budget hn' hnew' hkey
                have heq := memberParamWith_agree (followWithin_finds m) (followWithin_finds m')
                  (followWithin_agree hm hm') name s _ _ (hr.enter hfind hnew hkey)
                  (hr'.enter hfind' hnew' hkey)
                rw [run_instanceWith_new hfind hnew, run_instanceWith_new hfind' hnew',
                  paramWithin, paramWithin]
                rcases hrun : (scope.memberParamWith (scope.followWithin m) name s).run
                  (r.enter name) with ⟨e | a, r₁⟩ <;>
                rcases hrun' : (scope.memberParamWith (scope.followWithin m') name s).run
                  (r'.enter name) with ⟨e' | a', r₁'⟩ <;>
                rw [hrun, hrun'] at heq <;> cases heq <;> rfl
termination_by n

end Scope
end Bindery
