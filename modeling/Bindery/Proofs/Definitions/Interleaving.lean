import Mathlib.Data.DFinsupp.WellFounded
import Mathlib.Data.Fintype.BigOperators
import Bindery.Proofs.Definitions.Exchange

/-! # Scripts of several users

Several users share a shelf, each on the way through a script of its own.  Whoever is not done and
does not stand before a closed gate can take the next step (`Crowd.advance`); a schedule says who
takes each step (`Crowd.run`).  The source is one whose answers do not change.  However the users
are scheduled, they come to rest (`Crowd.wellFounded_advance`). -/

namespace Bindery.Definitions

variable {ι α : Type}

/-- What an exchange is about, where the only table that is asked for is the given one. -/
def Exchange.gate (table : String) : Exchange → Gate
  | .manifest _ => .manifest
  | .table _ _ => .table table

/-- The first script can be what one step leaves of the second. -/
inductive Script.Rest : Script α → Script α → Prop
  | look {next : Shelf → Script α} (s) : Rest (next s) (.look next)
  | change {f next} : Rest next (.change f next)
  | enter {g next} : Rest next (.enter g next)
  | leave {g next} : Rest next (.leave g next)
  | askManifest {next : Except DefinitionError Manifest → Script α} (answer) :
      Rest (next answer) (.askManifest next)
  | askTable {path} {next : Except DefinitionError Records → Script α} (answer) :
      Rest (next answer) (.askTable path next)

theorem Script.wellFounded_rest : WellFounded (Script.Rest (α := α)) := by
  refine ⟨fun x => ?_⟩
  induction x with
  | done a => exact ⟨_, nofun⟩
  | look next ih => exact ⟨_, fun | _, .look s => ih s⟩
  | change f next ih => exact ⟨_, fun | _, .change => ih⟩
  | enter g next ih => exact ⟨_, fun | _, .enter => ih⟩
  | leave g next ih => exact ⟨_, fun | _, .leave => ih⟩
  | askManifest next ih => exact ⟨_, fun | _, .askManifest answer => ih answer⟩
  | askTable path next ih => exact ⟨_, fun | _, .askTable answer => ih answer⟩

/-- Users of one shelf, each somewhere on the way through its script. -/
structure Crowd (ι α : Type) where
  shelf : Shelf
  scripts : ι → Script α
  /-- Who is inside a gate. -/
  holder : Gate → Option ι := fun _ => none
  /-- Who asked what, and the answers. -/
  past : List (ι × Exchange) := []

namespace Crowd

/-- What has been asked for, where each user asks for one table only. -/
def asked (tables : ι → String) (x : Crowd ι α) : List Gate :=
  x.past.map fun (i, e) => e.gate (tables i)

variable [DecidableEq ι]

/-- The user has the rest of its script before it. -/
def leaving (x : Crowd ι α) (i : ι) (rest : Script α) : Crowd ι α :=
  { x with scripts := Function.update x.scripts i rest }

/-- The next step of a user, if it can take one. -/
def advance (source : Source Id) (i : ι) (x : Crowd ι α) : Option (Crowd ι α) :=
  match x.scripts i with
  | .done _ => none
  | .look next => some (x.leaving i (next x.shelf))
  | .change f next => some { x.leaving i next with shelf := f x.shelf }
  | .enter g next =>
    if (x.holder g).isSome then none
    else some { x.leaving i next with holder := Function.update x.holder g (some i) }
  | .leave g next => some { x.leaving i next with holder := Function.update x.holder g none }
  | .askManifest next =>
    some { x.leaving i (next source.manifest) with
      past := x.past ++ [(i, .manifest source.manifest)] }
  | .askTable path next =>
    some { x.leaving i (next (source.table path)) with
      past := x.past ++ [(i, .table path (source.table path))] }

/-- The steps of a schedule, if all of them can be taken. -/
def run (source : Source Id) (schedule : List ι) (x : Crowd ι α) : Option (Crowd ι α) :=
  schedule.foldlM (fun x i => x.advance source i) x

variable {source : Source Id} {i : ι} {x y : Crowd ι α}

/-- What every step keeps holds after every schedule. -/
theorem run_induction {P : Crowd ι α → Prop}
    (hstep : ∀ {i x y}, P x → advance source i x = some y → P y) {schedule : List ι} (hx : P x)
    (h : x.run source schedule = some y) : P y := by
  induction schedule generalizing x with
  | nil =>
      cases h
      exact hx
  | cons i schedule ih =>
      obtain ⟨z, hz, hrest⟩ := Option.bind_eq_some_iff.mp h
      exact ih (hstep hx hz) hrest

/-- A user that is not done and cannot go on waits for another one to leave a gate. -/
theorem done_or_advance_or_waits (source : Source Id) (x : Crowd ι α) (i : ι) :
    (∃ a, x.scripts i = .done a) ∨ (∃ y, x.advance source i = some y) ∨
      ∃ g next j, x.scripts i = .enter g next ∧ x.holder g = some j := by
  cases hscript : x.scripts i with
  | done a => exact .inl ⟨a, rfl⟩
  | enter g next =>
      cases hfree : x.holder g with
      | none => exact .inr (.inl ⟨_, by simp only [advance, hscript, hfree]; rfl⟩)
      | some j => exact .inr (.inr ⟨g, next, j, rfl, hfree⟩)
  | look | change | leave | askManifest | askTable =>
      exact .inr (.inl ⟨_, by rw [advance, hscript]⟩)

/-- A step leaves something of the user's script, and the others where they are. -/
theorem exists_rest_of_advance (h : x.advance source i = some y) :
    ∃ rest, rest.Rest (x.scripts i) ∧ y.scripts = Function.update x.scripts i rest := by
  unfold advance at h
  split at h
  · cases h
  · rename_i heq
    cases h
    exact ⟨_, heq ▸ .look _, rfl⟩
  · rename_i heq
    cases h
    exact ⟨_, heq ▸ .change, rfl⟩
  · rename_i heq
    split at h
    · cases h
    · cases h
      exact ⟨_, heq ▸ .enter, rfl⟩
  · rename_i heq
    cases h
    exact ⟨_, heq ▸ .leave, rfl⟩
  · rename_i heq
    cases h
    exact ⟨_, heq ▸ .askManifest _, rfl⟩
  · rename_i heq
    cases h
    exact ⟨_, heq ▸ .askTable _, rfl⟩

/-- No crowd can go on for ever. -/
theorem wellFounded_advance [Finite ι] (source : Source Id) :
    WellFounded fun y x : Crowd ι α => ∃ i, x.advance source i = some y := by
  refine Subrelation.wf (fun {y x} ⟨i, h⟩ => ?_)
    (InvImage.wf scripts (Pi.Lex.wellFounded WellOrderingRel fun _ => Script.wellFounded_rest))
  obtain ⟨rest, hrest, hscripts⟩ := exists_rest_of_advance h
  refine ⟨i, fun j hj => ?_, ?_⟩
  · have hne : j ≠ i := fun heq => irrefl (r := WellOrderingRel) i (heq ▸ hj)
    rw [hscripts, Function.update_of_ne hne]
  · rw [hscripts, Function.update_self]
    exact hrest

end Crowd
end Bindery.Definitions
