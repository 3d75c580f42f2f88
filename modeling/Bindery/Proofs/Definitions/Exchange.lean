import Bindery.Definitions.Script

/-! # Exchanges with a source

What a script does alone is told by its exchanges: the requests that it makes, each with the
answer that the source gives.  `Script.Plays` holds of a script, the shelf that it starts with, its
exchanges, its result and the shelf that it leaves, whatever the answers are; each way of building
a script has one law that takes it apart.  Running a script against a source, of any state, is one
such play, with the exchanges that a recording source writes down (`Script.plays_run`). -/

namespace Bindery.Definitions

/-- A request to a source, with its answer. -/
inductive Exchange where
  | manifest (answer : Except DefinitionError Manifest)
  | table (path : String) (answer : Except DefinitionError Records)

namespace Exchange

/-- Why an answer is of no use: the request failed, or the manifest has no version. -/
def failure? : Exchange → Option DefinitionError
  | .manifest (.error e) | .table _ (.error e) => some e
  | .manifest (.ok m) => if m.version.isEmpty then some .missingManifest else none
  | .table _ (.ok _) => none

/-- The manifest that an exchange puts in force. -/
def manifest? : Exchange → Option Manifest
  | .manifest (.ok m) => if m.version.isEmpty then none else some m
  | .manifest (.error _) | .table _ _ => none

end Exchange

/-- The source, which also writes down its exchanges. -/
def Source.recorded {σ : Type} (source : Source (StateM σ)) :
    Source (StateM (σ × List Exchange)) where
  manifest := fun (w, past) =>
    let answered := source.manifest.run w
    (answered.1, answered.2, past ++ [.manifest answered.1])
  table path := fun (w, past) =>
    let answered := (source.table path).run w
    (answered.1, answered.2, past ++ [.table path answered.1])
  label := source.label

namespace Script

variable {α β : Type}

/-- Alone, the script goes from the first shelf to the second with these exchanges and result. -/
inductive Plays : Script α → Shelf → List Exchange → α → Shelf → Prop
  | done {a s} : Plays (.done a) s [] a s
  | look {next s xs a s'} : Plays (next s) s xs a s' → Plays (.look next) s xs a s'
  | change {f next s xs a s'} : Plays next (f s) xs a s' → Plays (.change f next) s xs a s'
  | enter {g next s xs a s'} : Plays next s xs a s' → Plays (.enter g next) s xs a s'
  | leave {g next s xs a s'} : Plays next s xs a s' → Plays (.leave g next) s xs a s'
  | askManifest {next answer s xs a s'} : Plays (next answer) s xs a s' →
      Plays (.askManifest next) s (.manifest answer :: xs) a s'
  | askTable {path next answer s xs a s'} : Plays (next answer) s xs a s' →
      Plays (.askTable path next) s (.table path answer :: xs) a s'

theorem plays_done {a b : α} {s s' : Shelf} {xs : List Exchange} :
    Plays (.done a) s xs b s' ↔ xs = [] ∧ a = b ∧ s = s' := by
  constructor
  · rintro ⟨⟩
    exact ⟨rfl, rfl, rfl⟩
  · rintro ⟨rfl, rfl, rfl⟩
    exact .done

theorem Plays.andThen {x : Script α} {f : α → Script β} {s t s' : Shelf} {ys zs : List Exchange}
    {a : α} {b : β} (h : Plays x s ys a t) (h' : Plays (f a) t zs b s') :
    Plays (x.andThen f) s (ys ++ zs) b s' := by
  induction h with
  | done => exact h'
  | look _ ih => exact .look (ih h')
  | change _ ih => exact .change (ih h')
  | enter _ ih => exact .enter (ih h')
  | leave _ ih => exact .leave (ih h')
  | askManifest _ ih => exact .askManifest (ih h')
  | askTable _ ih => exact .askTable (ih h')

theorem exists_of_plays_andThen {x : Script α} {f : α → Script β} {s s' : Shelf}
    {xs : List Exchange} {b : β} (h : Plays (x.andThen f) s xs b s') :
    ∃ ys a t zs, Plays x s ys a t ∧ Plays (f a) t zs b s' ∧ xs = ys ++ zs := by
  induction x generalizing s xs with
  | done a => exact ⟨[], a, s, xs, .done, h, rfl⟩
  | look next ih =>
      cases h with
      | look h =>
          obtain ⟨ys, a, t, zs, hx, hf, rfl⟩ := ih _ h
          exact ⟨ys, a, t, zs, .look hx, hf, rfl⟩
  | change g next ih =>
      cases h with
      | change h =>
          obtain ⟨ys, a, t, zs, hx, hf, rfl⟩ := ih h
          exact ⟨ys, a, t, zs, .change hx, hf, rfl⟩
  | enter g next ih =>
      cases h with
      | enter h =>
          obtain ⟨ys, a, t, zs, hx, hf, rfl⟩ := ih h
          exact ⟨ys, a, t, zs, .enter hx, hf, rfl⟩
  | leave g next ih =>
      cases h with
      | leave h =>
          obtain ⟨ys, a, t, zs, hx, hf, rfl⟩ := ih h
          exact ⟨ys, a, t, zs, .leave hx, hf, rfl⟩
  | askManifest next ih =>
      cases h with
      | askManifest h =>
          obtain ⟨ys, a, t, zs, hx, hf, rfl⟩ := ih _ h
          exact ⟨_ :: ys, a, t, zs, .askManifest hx, hf, rfl⟩
  | askTable path next ih =>
      cases h with
      | askTable h =>
          obtain ⟨ys, a, t, zs, hx, hf, rfl⟩ := ih _ h
          exact ⟨_ :: ys, a, t, zs, .askTable hx, hf, rfl⟩

theorem plays_andThen {x : Script α} {f : α → Script β} {s s' : Shelf} {xs : List Exchange}
    {b : β} : Plays (x.andThen f) s xs b s' ↔
      ∃ ys a t zs, Plays x s ys a t ∧ Plays (f a) t zs b s' ∧ xs = ys ++ zs := by
  constructor
  · exact exists_of_plays_andThen
  · rintro ⟨ys, a, t, zs, hx, hf, rfl⟩
    exact hx.andThen hf

theorem plays_inside {g : Gate} {x : Script α} {s s' : Shelf} {xs : List Exchange} {a : α} :
    Plays (inside g x) s xs a s' ↔ Plays x s xs a s' := by
  constructor
  · intro h
    rw [inside] at h
    cases h with
    | enter h =>
        obtain ⟨ys, b, t, zs, hx, hleave, rfl⟩ := exists_of_plays_andThen h
        cases hleave with
        | leave hdone =>
            obtain ⟨rfl, rfl, rfl⟩ := plays_done.mp hdone
            rwa [List.append_nil]
  · intro h
    have h := h.andThen (f := fun a => .leave g (.done a)) (.leave .done)
    rw [List.append_nil] at h
    exact .enter h

/-- A run against a source is a play, with the exchanges that the source writes down. -/
theorem plays_run {σ : Type} (source : Source (StateM σ)) (x : Script α) (s : Shelf) (w : σ)
    (past : List Exchange) :
    let ran := ((x.run source.recorded).run s).run (w, past)
    ∃ xs, Plays x s xs ran.1.1 ran.1.2 ∧ ran.2.2 = past ++ xs := by
  induction x generalizing s w past with
  | done a => exact ⟨[], .done, (List.append_nil past).symm⟩
  | look next ih =>
      obtain ⟨xs, h, hpast⟩ := ih s s w past
      exact ⟨xs, .look h, hpast⟩
  | change f next ih =>
      obtain ⟨xs, h, hpast⟩ := ih (f s) w past
      exact ⟨xs, .change h, hpast⟩
  | enter g next ih =>
      obtain ⟨xs, h, hpast⟩ := ih s w past
      exact ⟨xs, .enter h, hpast⟩
  | leave g next ih =>
      obtain ⟨xs, h, hpast⟩ := ih s w past
      exact ⟨xs, .leave h, hpast⟩
  | askManifest next ih =>
      let answered := source.manifest.run w
      obtain ⟨xs, h, hpast⟩ := ih answered.1 s answered.2 (past ++ [.manifest answered.1])
      exact ⟨_ :: xs, .askManifest h, by rw [List.append_cons]; exact hpast⟩
  | askTable path next ih =>
      let answered := (source.table path).run w
      obtain ⟨xs, h, hpast⟩ := ih answered.1 s answered.2 (past ++ [.table path answered.1])
      exact ⟨_ :: xs, .askTable h, by rw [List.append_cons]; exact hpast⟩

end Script

/-! ## Attempts -/

namespace Attempt

variable {α β : Type} {x : Attempt α} {f : α → Attempt β} {s s' : Shelf} {xs : List Exchange}

/-- The attempt as a script. -/
def Plays (x : Attempt α) (s : Shelf) (xs : List Exchange) (r : Except DefinitionError α)
    (s' : Shelf) : Prop := Script.Plays x.run s xs r s'

theorem plays_bind {r : Except DefinitionError β} : Plays (x >>= f) s xs r s' ↔
    (∃ e, Plays x s xs (.error e) s' ∧ r = .error e) ∨
      ∃ ys a t zs, Plays x s ys (.ok a) t ∧ Plays (f a) t zs r s' ∧ xs = ys ++ zs := by
  show Script.Plays (x.run.andThen _) s xs r s' ↔ _
  rw [Script.plays_andThen]
  constructor
  · rintro ⟨ys, e | a, t, zs, hx, hf, rfl⟩
    · obtain ⟨rfl, rfl, rfl⟩ := Script.plays_done.mp hf
      exact .inl ⟨e, by rwa [List.append_nil], rfl⟩
    · exact .inr ⟨ys, a, t, zs, hx, hf, rfl⟩
  · rintro (⟨e, hx, rfl⟩ | ⟨ys, a, t, zs, hx, hf, rfl⟩)
    · exact ⟨xs, .error e, s', [], hx, .done, (List.append_nil xs).symm⟩
    · exact ⟨ys, .ok a, t, zs, hx, hf, rfl⟩

variable {a : α} {r : Except DefinitionError α}

theorem plays_pure : Plays (pure a) s xs r s' ↔ xs = [] ∧ .ok a = r ∧ s = s' :=
  Script.plays_done

theorem plays_throw {e : DefinitionError} :
    Plays (throw e) s xs r s' ↔ xs = [] ∧ .error e = r ∧ s = s' :=
  Script.plays_done

theorem plays_looking {g : Shelf → α} :
    Plays (looking g) s xs r s' ↔ xs = [] ∧ .ok (g s) = r ∧ s = s' := by
  constructor
  · intro h
    cases h with
    | look h => exact Script.plays_done.mp h
  · exact fun h => .look (Script.plays_done.mpr h)

theorem plays_changing {g : Shelf → Shelf} {r : Except DefinitionError Unit} :
    Plays (changing g) s xs r s' ↔ xs = [] ∧ .ok () = r ∧ g s = s' := by
  constructor
  · intro h
    cases h with
    | change h => exact Script.plays_done.mp h
  · exact fun h => .change (Script.plays_done.mpr h)

theorem plays_asking {r : Except DefinitionError Manifest} :
    Plays asking s xs r s' ↔ xs = [.manifest r] ∧ s = s' := by
  constructor
  · intro h
    cases h with
    | askManifest h =>
        obtain ⟨rfl, rfl, rfl⟩ := Script.plays_done.mp h
        exact ⟨rfl, rfl⟩
  · rintro ⟨rfl, rfl⟩
    exact .askManifest .done

theorem plays_askingTable {path : String} {r : Except DefinitionError Records} :
    Plays (askingTable path) s xs r s' ↔ xs = [.table path r] ∧ s = s' := by
  constructor
  · intro h
    cases h with
    | askTable h =>
        obtain ⟨rfl, rfl, rfl⟩ := Script.plays_done.mp h
        exact ⟨rfl, rfl⟩
  · rintro ⟨rfl, rfl⟩
    exact .askTable .done

theorem plays_inside {g : Gate} : Plays (inside g x) s xs r s' ↔ Plays x s xs r s' :=
  Script.plays_inside

end Attempt
end Bindery.Definitions
