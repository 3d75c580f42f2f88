import Bindery.Proofs.Closure

/-! # The queue of wanted names

In a generation run names are marked and handed out by actions in any order, some of which fail
(`Generation.Action`).  What an action marks and hands out is read off its result (`Event.marked`,
`Event.handed`).  At any time the names that were handed out, followed by those that wait, are the
names that were marked, in the order of their first marking (`Generation.handed_append_waiting`). -/

namespace Bindery

open Document

/-- A name that is put behind others is new, or stands among them already. -/
theorem eraseDups_concat (names : List String) (ident : String) :
    (names ++ [ident]).eraseDups =
      if ident ∈ names then names.eraseDups else names.eraseDups ++ [ident] := by
  rw [List.eraseDups_append]
  split
  · rename_i hmem
    simp [List.removeAll, hmem]
  · rename_i hmem
    simp [List.removeAll, hmem, List.eraseDups_cons]

namespace Wanted

/-- The given names were handed out, and the given ones marked, some of them perhaps repeatedly. -/
structure Recorded (w : Wanted) (handed marked : List String) : Prop where
  handed : w.handed = handed
  marked : w.marked = marked.eraseDups

namespace Recorded

variable {w : Wanted} {handed marked : List String}

theorem empty : Recorded .empty [] [] := ⟨rfl, rfl⟩

theorem add (h : w.Recorded handed marked) (ident : String) :
    (w.add ident).Recorded handed (marked ++ [ident]) where
  handed := (w.handed_add ident).trans h.handed
  marked := by
    rw [marked_add, h.marked, eraseDups_concat]
    simp only [List.mem_eraseDups]

theorem addAll (h : w.Recorded handed marked) (names : List String) :
    (w.addAll names).Recorded handed (marked ++ names) := by
  induction names generalizing w marked with
  | nil => rwa [List.append_nil]
  | cons ident names ih =>
      have hrest := ih (h.add ident)
      rwa [List.append_assoc, List.singleton_append] at hrest

theorem next? (h : w.Recorded handed marked) {ident : String} {rest : Wanted}
    (hnext : w.next? = some (ident, rest)) : rest.Recorded (handed ++ [ident]) marked where
  handed := by rw [handed_of_next? hnext, h.handed]
  marked := by rw [marked_of_next? hnext, h.marked]

/-- What was marked and not handed out waits. -/
theorem append_waiting (h : w.Recorded handed marked) :
    handed ++ w.waiting = marked.eraseDups := by
  rw [← h.handed, ← h.marked, Wanted.marked]

theorem contains_iff (h : w.Recorded handed marked) {ident : String} :
    w.contains ident ↔ ident ∈ marked := by
  rw [contains, List.contains_iff_mem, h.marked, List.mem_eraseDups]

end Recorded
end Wanted

namespace Generation

/-! ## Steps -/

theorem run_want (ident : String) (g : Generation) :
    (want ident).run g = (.ok ⟨⟩, { g with wanted := g.wanted.add ident }) := rfl

theorem run_require (t : TypeExpr) (g : Generation) :
    (require t).run g = (.ok ⟨⟩, { g with wanted := g.wanted.addAll t.dependencies }) := rfl

theorem run_resolving {α : Type} (step : ResolveM α) (g : Generation) :
    (resolving step).run g =
      ((step.run g.resolver).1, { g with resolver := (step.run g.resolver).2 }) := rfl

theorem run_resolveWanted (scope : Scope) (s : Schema) (context : String) (g : Generation) :
    (resolveWanted scope s context).run g =
      match (scope.resolve s context).run g.resolver with
      | (.ok t, resolver) => (.ok t, ⟨resolver, g.wanted.addAll t.dependencies, g.journal⟩)
      | (.error e, resolver) => (.error e, { g with resolver }) := by
  rw [resolveWanted, run_bind, run_resolving]
  rcases (scope.resolve s context).run g.resolver with ⟨e | t, resolver⟩ <;> rfl

/-- A schema that has no type marks nothing. -/
theorem wanted_of_resolveWanted_error {scope : Scope} {s : Schema} {context : String}
    {g : Generation} {e : GenerationError}
    (h : ((resolveWanted scope s context).run g).1 = .error e) :
    ((resolveWanted scope s context).run g).2.wanted = g.wanted := by
  rw [run_resolveWanted] at h ⊢
  cases hresolve : (scope.resolve s context).run g.resolver with
  | mk result resolver =>
      cases result with
      | error => rfl
      | ok t => rw [hresolve] at h; cases h

/-- The name that has waited longest is handed out next. -/
theorem nextWanted?_eq_head? (g : Generation) :
    (nextWanted?.run g).1 = .ok g.wanted.waiting.head? := by
  rw [run_nextWanted?]
  cases hnext : g.wanted.next? with
  | none => rw [Wanted.next?_eq_none_iff.mp hnext]; rfl
  | some found => rw [Wanted.waiting_of_next? hnext]; rfl

/-! ## Actions -/

inductive Action where
  | want (ident : String)
  | require (t : TypeExpr)
  | resolveWanted (s : Schema) (context : String)
  /-- Asks the resolver alone. -/
  | ask (q : Question)
  | next

/-- What an action returns. -/
inductive Reply where
  | done
  | type (t : TypeExpr)
  | name (ident : Option String)

variable (scope : Scope)

def perform : Action → GenerationM Reply
  | .want ident => (fun _ => .done) <$> want ident
  | .require t => (fun _ => .done) <$> require t
  | .resolveWanted s context => .type <$> resolveWanted scope s context
  | .ask q => .type <$> resolving (scope.ask q)
  | .next => .name <$> nextWanted?

/-- An action and its result. -/
structure Event where
  action : Action
  result : Except GenerationError Reply

/-- The names that are marked by an event: the given one, or those that the type mentions. -/
def Event.marked : Event → List String
  | ⟨.want ident, _⟩ => [ident]
  | ⟨.require t, _⟩ | ⟨.resolveWanted _ _, .ok (.type t)⟩ => t.dependencies
  | _ => []

/-- The name that is handed out by an event. -/
def Event.handed : Event → List String
  | ⟨.next, .ok (.name ident)⟩ => ident.toList
  | _ => []

/-- What comes of the actions one after the other, and the state they leave; a failure stops
none of those behind it. -/
def record (g : Generation) : List Action → List Event × Generation
  | [] => ([], g)
  | action :: actions =>
    let step := (perform scope action).run g
    let rest := record step.2 actions
    (⟨action, step.1⟩ :: rest.1, rest.2)

variable {scope} {g : Generation} {handed marked : List String}

theorem recorded_perform (h : g.wanted.Recorded handed marked) (action : Action) :
    ((perform scope action).run g).2.wanted.Recorded
      (handed ++ Event.handed ⟨action, ((perform scope action).run g).1⟩)
      (marked ++ Event.marked ⟨action, ((perform scope action).run g).1⟩) := by
  cases action with
  | want ident =>
      rw [perform, run_map, run_want]
      simpa [Event.handed, Event.marked] using h.add ident
  | require t =>
      rw [perform, run_map, run_require]
      simpa [Event.handed, Event.marked] using h.addAll t.dependencies
  | resolveWanted s context =>
      rw [perform, run_map, run_resolveWanted]
      rcases (scope.resolve s context).run g.resolver with ⟨e | t, resolver⟩
      · simpa [Event.handed, Event.marked, Except.map] using h
      · simpa [Event.handed, Event.marked, Except.map] using h.addAll t.dependencies
  | ask q =>
      rw [perform, run_map, run_resolving]
      simpa [Event.handed, Event.marked] using h
  | next =>
      rw [perform, run_map, run_nextWanted?]
      cases hnext : g.wanted.next? with
      | none => simpa [Event.handed, Event.marked, Except.map] using h
      | some found => simpa [Event.handed, Event.marked, Except.map] using h.next? hnext

theorem recorded_record (h : g.wanted.Recorded handed marked) (actions : List Action) :
    (record scope g actions).2.wanted.Recorded
      (handed ++ (record scope g actions).1.flatMap Event.handed)
      (marked ++ (record scope g actions).1.flatMap Event.marked) := by
  induction actions generalizing g handed marked with
  | nil => simpa [record] using h
  | cons action actions ih => simpa [record] using ih (recorded_perform h action)

/-! ## New runs -/

variable (scope) (actions : List Action)

/-- The names that the actions of a new run mark, each as often as it is marked. -/
def markedBy : List String := (record scope {} actions).1.flatMap Event.marked

/-- The names that the actions of a new run hand out. -/
def handedBy : List String := (record scope {} actions).1.flatMap Event.handed

/-- The state that the actions of a new run leave. -/
def leftBy : Generation := (record scope {} actions).2

theorem recorded_leftBy :
    (leftBy scope actions).wanted.Recorded (handedBy scope actions) (markedBy scope actions) := by
  have hrecorded : (leftBy scope actions).wanted.Recorded ([] ++ handedBy scope actions)
      ([] ++ markedBy scope actions) := recorded_record .empty actions
  rwa [List.nil_append, List.nil_append] at hrecorded

/-- Whatever has been marked, asked for and refused, the names that were handed out, followed by
those that wait, are the names that were marked, in the order of their first marking.  So no name is
handed out a second time, also if it is marked again; those and no others count as marked; the first
one that waits is the next; and a schema that has no type marks nothing. -/
theorem handed_append_waiting :
    handedBy scope actions ++ (leftBy scope actions).wanted.waiting =
        (markedBy scope actions).eraseDups ∧
      (handedBy scope actions).Nodup ∧
      (∀ ident, (leftBy scope actions).wanted.contains ident ↔ ident ∈ markedBy scope actions) ∧
      (nextWanted?.run (leftBy scope actions)).1 =
        .ok (leftBy scope actions).wanted.waiting.head? ∧
      ∀ s context e, ((resolveWanted scope s context).run (leftBy scope actions)).1 = .error e →
        ((resolveWanted scope s context).run (leftBy scope actions)).2.wanted =
          (leftBy scope actions).wanted := by
  have hrecorded := recorded_leftBy scope actions
  refine ⟨hrecorded.append_waiting, ?_, fun _ => hrecorded.contains_iff,
    nextWanted?_eq_head? _, fun _ _ _ => wanted_of_resolveWanted_error⟩
  rw [← hrecorded.handed]
  exact Wanted.handed_nodup _

/-- A response that leads back to itself is asked for after two names were marked and one of them was
handed out and marked again. -/
def ringActions : List Action :=
  [.want "Item", .require (.map (.named "User") (.hashRef "Item")), .next, .want "Item",
   .resolveWanted { reference := some "SingleComponentResponseOfLoop" } "data", .next, .next]

theorem handed_append_waiting_ring :
    let refused := (resolveWanted Scope.ring { reference := some "SearchResultOfLoop" } "data").run
      (leftBy Scope.ring ringActions)
    refused.1 =
        .error (.unsupportedSchema "SearchResultOfLoop" "generic instantiation refers to itself") ∧
      refused.2.wanted = (leftBy Scope.ring ringActions).wanted ∧
      markedBy Scope.ring ringActions = ["Item", "User", "Item", "Item"] ∧
      handedBy Scope.ring ringActions = ["Item", "User"] ∧
      (leftBy Scope.ring ringActions).wanted.waiting = [] := by
  intro refused
  have hresults : (markedBy Scope.ring ringActions = ["Item", "User", "Item", "Item"] ∧
      handedBy Scope.ring ringActions = ["Item", "User"]) ∧ refused.1 =
        .error (.unsupportedSchema "SearchResultOfLoop" "generic instantiation refers to itself") := by
    decide +kernel
  obtain ⟨⟨hmarked, hhanded⟩, herror⟩ := hresults
  have hdistinct : ["Item", "User", "Item", "Item"].eraseDups = ["Item", "User"] ++ [] := by decide
  obtain ⟨hqueue, -, -, -, hrefused⟩ := handed_append_waiting Scope.ring ringActions
  rw [hmarked, hhanded, hdistinct] at hqueue
  exact ⟨herror, hrefused _ _ _ herror, hmarked, hhanded, List.append_cancel_left hqueue⟩

end Generation
end Bindery
