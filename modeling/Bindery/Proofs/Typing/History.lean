import Bindery.Proofs.Typing.Agreement

/-! # Questions to one resolver

A resolver is asked for the types of schemas, references and arguments one after another.  Between
two questions it is at no member, whatever has failed (`after_at`), and then each question has
the answer that the rules give: a type exactly where they give that type
(`resolve_eq_ok_iff`, `resolveRef_eq_ok_iff`, `memberParam_eq_ok_iff`), and in any case what an
empty resolver answers (`answer_after`). -/

namespace Bindery

open Document

/-- What a resolver is asked. -/
inductive Question where
  | schema (s : Schema) (context : String)
  | reference (reference : String)
  /-- The type argument of a family's member. -/
  | argument (name : String)

namespace Scope

variable (scope : Scope)

def ask : Question → ResolveM TypeExpr
  | .schema s context => scope.resolve s context
  | .reference reference => scope.resolveRef reference
  | .argument name => scope.memberParam name

/-- The answer of a resolver in the given state. -/
def answer (r : Resolver) (q : Question) : Except GenerationError TypeExpr :=
  ((scope.ask q).run r).1

/-- The state that a new resolver is in after the given questions. -/
def after (qs : List Question) : Resolver :=
  qs.foldl (fun r q => ((scope.ask q).run r).2) {}

variable {scope} {r r' : Resolver}

theorem At.empty : scope.At [] {} := ⟨.empty, rfl⟩

theorem resolve_finds (s : Schema) (context : String) :
    scope.Finds (scope.resolve s context) (.schema s none) :=
  typeWith_finds (followWithin_finds _) s none context

theorem At.ask (h : scope.At [] r) (q : Question) : scope.At [] ((scope.ask q).run r).2 := by
  cases q with
  | schema s context => exact h.run (resolve_finds s context)
  | reference reference => exact h.run (followWithin_finds _ reference)
  | argument name =>
      rw [Scope.ask, memberParam]
      cases scope.document.schema? name with
      | none => exact h
      | some found => exact h.run (memberParamWith_finds (followWithin_finds _) found.1 found.2)

/-- Between questions a resolver is sound and at no member. -/
theorem after_at (qs : List Question) : scope.At [] (scope.after qs) := by
  rw [after]
  suffices h : ∀ r, scope.At [] r →
      scope.At [] (qs.foldl (fun r q => ((scope.ask q).run r).2) r) from h {} At.empty
  induction qs with
  | nil => exact fun r hr => hr
  | cons q qs ih => exact fun r hr => ih _ (hr.ask q)

theorem budget_covers :
    scope.document.components.schemas.size ≤ scope.budget + ([] : List String).length :=
  Nat.le_refl _

/-! ## Answers and rules -/

theorem clear_nil (x : Subject) : scope.Clear [] x := fun _ _ h => by cases h

variable (scope) in
/-- The rules give the type to the argument of the member that a name points to. -/
def ArgumentOf (reference : String) (t : TypeExpr) : Prop :=
  ∃ name s, scope.document.schema? reference = some (name, s) ∧ scope.Typed (.argument name s) t

section Rules

variable (hr : scope.At [] r) {t : TypeExpr}
include hr

theorem resolve_eq_ok_iff {s : Schema} {context : String} :
    ((scope.resolve s context).run r).1 = .ok t ↔ scope.Typed (.schema s none) t :=
  ⟨fun h => ((resolve_finds s context r hr.sound).2.2 t h).1, fun h =>
    typeWith_succeeds (followWithin_finds _) (followWithin_succeeds budget_covers) s none context t
      h (clear_nil _) r hr⟩

theorem resolveRef_eq_ok_iff {reference : String} :
    ((scope.resolveRef reference).run r).1 = .ok t ↔ scope.Typed (.reference reference) t :=
  ⟨fun h => ((followWithin_finds _ reference r hr.sound).2.2 t h).1, fun h =>
    followWithin_succeeds budget_covers reference t h (clear_nil _) r hr⟩

theorem memberParam_eq_ok_iff {reference : String} :
    ((scope.memberParam reference).run r).1 = .ok t ↔ scope.ArgumentOf reference t := by
  unfold memberParam
  cases hs : scope.document.schema? reference with
  | none =>
      constructor
      · intro h
        cases h
      · rintro ⟨name, s, hs', -⟩
        cases hs.symm.trans hs'
  | some found =>
      obtain ⟨name, s⟩ := found
      constructor
      · intro h
        exact ⟨name, s, hs, ((memberParamWith_finds (followWithin_finds _) name s r
          hr.sound).2.2 t h).1⟩
      · rintro ⟨name', s', hs', ht⟩
        cases hs.symm.trans hs'
        exact memberParamWith_succeeds (followWithin_finds _) (followWithin_succeeds budget_covers)
          name s t ht (clear_nil _) r hr

end Rules

/-- Following a reference through as many members as there are follows it to the end: the budget
decides no answer. -/
theorem resolveRef_agree (reference : String) : scope.Agree [] (scope.resolveRef reference)
    (scope.followWith (scope.memberParamWith scope.resolveRef) reference) := by
  show scope.Agree [] _ (scope.followWithin (scope.budget + 1) reference)
  exact followWithin_agree budget_covers (Nat.le_succ_of_le budget_covers) reference

/-- Sound states that are at no member give one answer. -/
theorem ask_agree (q : Question) : scope.Agree [] (scope.ask q) (scope.ask q) := by
  have hfollow (reference : String) :
      scope.Agree [] (scope.resolveRef reference) (scope.resolveRef reference) :=
    followWithin_agree budget_covers budget_covers reference
  cases q with
  | schema s context =>
      exact typeWith_agree (followWithin_finds _) (followWithin_finds _) hfollow s none context
  | reference reference => exact hfollow reference
  | argument name =>
      rw [ask, memberParam]
      cases scope.document.schema? name with
      | none => exact .throw _
      | some found =>
          exact memberParamWith_agree (followWithin_finds _) (followWithin_finds _) hfollow
            found.1 found.2

theorem exists_error {r : Except GenerationError TypeExpr} (h : ∀ t, r ≠ .ok t) :
    ∃ e, r = .error e := by
  cases r with
  | error e => exact ⟨e, rfl⟩
  | ok t => exact absurd rfl (h t)

section LeadsBack

variable (hr : scope.At [] r) {name : String} (h : scope.LeadsBack name)
include hr h

theorem At.not_remembered : r.instances.find? name = none := by
  cases hfind : r.instances.find? name with
  | none => rfl
  | some t =>
      obtain ⟨s, -, -, arg, hs, -, harg, -⟩ := hr.sound.typed hfind
      exact absurd harg (not_typed_of_leadsBack h hs arg)

theorem At.resolve_error {s : Schema} {context : String}
    (hs : scope.Through (.schema s none) name) :
    ∃ e, scope.answer r (.schema s context) = .error e :=
  exists_error fun _ ht => ((resolve_eq_ok_iff hr).mp ht).not_through h hs

variable {reference : String} {s : Schema}
  (hs : scope.document.schema? reference = some (name, s))
include hs

theorem At.argument_error : ∃ e, scope.answer r (.argument reference) = .error e :=
  exists_error fun t ht => by
    obtain ⟨name', s', hs', htyped⟩ := (memberParam_eq_ok_iff hr).mp ht
    cases hs.symm.trans hs'
    exact not_typed_of_leadsBack h (find?_of_schema?_eq_some hs) t htyped

theorem At.reference_error : ∃ e, scope.answer r (.reference reference) = .error e := by
  obtain ⟨f, rest, hf⟩ := h.ofMember?
  refine exists_error fun t ht => ?_
  refine ((resolveRef_eq_ok_iff hr).mp ht).not_through h (.here (s := s) ?_)
  rw [premises, target_of_ofMember? scope hs hf]
  exact List.mem_singleton_self _

end LeadsBack

/-- What was asked before plays no part in an answer, be it a type or an error; between
questions no member is in progress; and a member of a family whose argument leads back to itself
is never remembered, and no reference to it, no schema whose type goes through it and no question
for its argument is ever given a type. -/
theorem answer_after (scope : Scope) (qs : List Question) (q : Question) :
    scope.answer (scope.after qs) q = scope.answer {} q ∧
      (scope.after qs).inProgress = [] ∧
      ∀ name, scope.LeadsBack name →
        (scope.after qs).instances.find? name = none ∧
        (∀ reference s, scope.document.schema? reference = some (name, s) →
          (∃ e, scope.answer (scope.after qs) (.reference reference) = .error e) ∧
          ∃ e, scope.answer (scope.after qs) (.argument reference) = .error e) ∧
        ∀ s context, scope.Through (.schema s none) name →
          ∃ e, scope.answer (scope.after qs) (.schema s context) = .error e := by
  have hafter := scope.after_at qs
  refine ⟨ask_agree q _ _ hafter At.empty, hafter.inProgress, fun name h => ?_⟩
  exact ⟨hafter.not_remembered h,
    fun reference s hs => ⟨hafter.reference_error h hs, hafter.argument_error h hs⟩,
    fun s context hs => hafter.resolve_error h hs⟩

/-! ## A ring of two families -/

section Ring

/-- The elements of these results are responses. -/
def ringResults : Schema where
  properties := [("results", {
    type := some "array", items := some { reference := some "SingleComponentResponseOfLoop" } })]

/-- The data of these responses are results. -/
def ringResponse : Schema where
  properties := [("data", { reference := some "SearchResultOfLoop" })]

def ring : Scope where
  document.components.schemas := Dict.ofList
    [("SearchResultOfLoop", ringResults), ("SingleComponentResponseOfLoop", ringResponse)]
  index.members := Dict.ofList
    [("ComponentResponse", ["SingleComponentResponseOfLoop"]),
     ("SearchResult", ["SearchResultOfLoop"])]

theorem through_ringResponse :
    ring.Through (.schema { reference := some "SingleComponentResponseOfLoop" } none)
      "SearchResultOfLoop" := by
  refine .step (y := .reference "SingleComponentResponseOfLoop") (.head _) ?_
  refine .step (y := .argument "SingleComponentResponseOfLoop" ringResponse) (.head _) ?_
  refine .step (y := .schema { reference := some "SearchResultOfLoop" } none) (.head _) ?_
  refine .step (y := .reference "SearchResultOfLoop") (.head _) ?_
  exact .here (s := ringResults) (.head _)

theorem leadsBack_ring : ring.LeadsBack "SearchResultOfLoop" :=
  ⟨ringResults, rfl, .step (.head _) through_ringResponse⟩

theorem answer_after_ring : ring.LeadsBack "SearchResultOfLoop" ∧
    ring.document.schema? "SearchResultOfLoop" = some ("SearchResultOfLoop", ringResults) ∧
    let asked := ring.after [.argument "SingleComponentResponseOfLoop"]
    (∃ e, ring.answer asked (.reference "SearchResultOfLoop") = .error e) ∧
    ∃ e, ring.answer asked (.schema { reference := some "SingleComponentResponseOfLoop" } "data") =
      .error e := by
  have hs : ring.document.schema? "SearchResultOfLoop" =
    some ("SearchResultOfLoop", ringResults) := rfl
  obtain ⟨_, _, h⟩ := ring.answer_after [.argument "SingleComponentResponseOfLoop"]
    (.reference "SearchResultOfLoop")
  obtain ⟨_, hreference, hschema⟩ := h _ leadsBack_ring
  exact ⟨leadsBack_ring, hs, (hreference _ _ hs).1, hschema _ _ through_ringResponse⟩

end Ring

end Scope
end Bindery
