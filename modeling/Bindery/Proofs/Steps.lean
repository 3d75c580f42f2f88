import Bindery.Generation

/-! # Running steps

A step is a computation that may fail and that leaves a state behind in either case.  What a
sequence of steps does to the state is read off its parts by `run_bind`; where only success
matters, `Returns` names the value and the state that a step ends with, and each way of
building a step has one law that inverts it. -/

namespace Bindery

variable {ε σ α β : Type}

theorem run_bind (x : ExceptT ε (StateM σ) α) (f : α → ExceptT ε (StateM σ) β) (s : σ) :
    (x >>= f).run s = match x.run s with
      | (.ok a, s') => (f a).run s'
      | (.error e, s') => (.error e, s') := by
  show (ExceptT.bindCont f (x.run s).1).run (x.run s).2 = _
  rcases x.run s with ⟨e | a, s'⟩ <;> rfl

theorem run_map (f : α → β) (x : ExceptT ε (StateM σ) α) (s : σ) :
    (f <$> x).run s = ((x.run s).1.map f, (x.run s).2) := by
  rw [map_eq_pure_bind, run_bind]
  rcases x.run s with ⟨e | a, s'⟩ <;> rfl

theorem run_pure (a : α) (s : σ) : (pure a : ExceptT ε (StateM σ) α).run s = (.ok a, s) := rfl

theorem run_get (s : σ) : (get : ExceptT ε (StateM σ) σ).run s = (.ok s, s) := rfl

theorem run_throw (e : ε) (s : σ) :
    (throw e : ExceptT ε (StateM σ) α).run s = (.error e, s) := rfl

theorem run_liftExcept (x : Except ε α) (s : σ) :
    (liftExcept x : ExceptT ε (StateM σ) α).run s = (x, s) := by
  cases x <;> rfl

theorem map_liftExcept (f : α → β) (x : Except ε α) :
    f <$> (liftExcept x : ExceptT ε (StateM σ) α) = liftExcept (f <$> x) := by
  cases x <;> rfl

theorem map_eq_ok {f : α → β} {x : Except ε α} {b : β} :
    f <$> x = .ok b ↔ ∃ a, x = .ok a ∧ f a = b := by
  cases x with
  | error e => simp [Functor.map, Except.map]
  | ok a => simp [Functor.map, Except.map]

theorem bind_eq_ok {x : Except ε α} {f : α → Except ε β} {b : β} :
    x >>= f = .ok b ↔ ∃ a, x = .ok a ∧ f a = .ok b := by
  cases x with
  | error e => simp [bind, Except.bind]
  | ok a => simp [bind, Except.bind]

theorem run_unsupported (context detail : String) (s : σ) :
    (unsupported context detail : ExceptT GenerationError (StateM σ) α).run s =
      (.error (.unsupportedSchema context detail), s) := rfl

/-! ## Steps that return -/

/-- From the state `s` the step returns `a` and leaves the state `s'`. -/
def Returns (x : ExceptT ε (StateM σ) α) (s : σ) (a : α) (s' : σ) : Prop :=
  (x.run s).1 = .ok a ∧ (x.run s).2 = s'

section Returns

variable {x : ExceptT ε (StateM σ) α} {f : α → ExceptT ε (StateM σ) β} {s s' : σ} {a : α} {b : β}

@[simp] theorem returns_bind :
    Returns (x >>= f) s b s' ↔ ∃ a t, Returns x s a t ∧ Returns (f a) t b s' := by
  simp only [Returns, run_bind]
  rcases x.run s with ⟨e | a, t⟩
  · simp
  · constructor
    · exact fun h => ⟨a, t, ⟨rfl, rfl⟩, h⟩
    · rintro ⟨_, _, ⟨ha, rfl⟩, h⟩
      exact Except.ok.inj ha ▸ h

@[simp] theorem returns_map {g : α → β} :
    Returns (g <$> x) s b s' ↔ ∃ a, Returns x s a s' ∧ g a = b := by
  simp only [Returns, run_map]
  rcases x.run s with ⟨e | a, t⟩
  · simp [Except.map]
  · constructor
    · exact fun ⟨hb, ht⟩ => ⟨a, ⟨rfl, ht⟩, Except.ok.inj hb⟩
    · rintro ⟨_, ⟨ha, ht⟩, rfl⟩
      obtain rfl := Except.ok.inj ha
      exact ⟨rfl, ht⟩

@[simp] theorem returns_pure {a' : α} :
    Returns (pure a : ExceptT ε (StateM σ) α) s a' s' ↔ a = a' ∧ s = s' := by
  simp [Returns, run_pure]

@[simp] theorem returns_throw {e : ε} :
    ¬ Returns (throw e : ExceptT ε (StateM σ) α) s a s' := by
  simp [Returns, run_throw]

/-- A step behind a check returns what it returns where the check does not throw. -/
theorem returns_check {c : Bool} {e : ε} {x : ExceptT ε (StateM σ) α} :
    Returns (if c then (do (throw e : ExceptT ε (StateM σ) PUnit); x) else x) s a s' ↔
      ¬ c ∧ Returns x s a s' := by
  cases c <;> simp

@[simp] theorem returns_unsupported {context detail : String} :
    ¬ Returns (unsupported context detail : ExceptT GenerationError (StateM σ) α) s a s' := by
  simp [Returns, run_unsupported]

@[simp] theorem returns_liftExcept {r : Except ε α} :
    Returns (liftExcept r : ExceptT ε (StateM σ) α) s a s' ↔ r = .ok a ∧ s = s' := by
  simp [Returns, run_liftExcept]

@[simp] theorem returns_get {t : σ} :
    Returns (get : ExceptT ε (StateM σ) σ) s t s' ↔ s = t ∧ s = s' := by
  simp [Returns, run_get]

@[simp] theorem returns_modify {g : σ → σ} {u : PUnit} :
    Returns (modify g : ExceptT ε (StateM σ) PUnit) s u s' ↔ g s = s' := by
  rw [Returns, show (modify g : ExceptT ε (StateM σ) PUnit).run s = (.ok ⟨⟩, g s) from rfl]
  simp

end Returns
end Bindery
