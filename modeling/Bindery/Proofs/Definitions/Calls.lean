import Bindery.Proofs.Definitions.Conversation

/-! # Calls, one after another

A cache over a source stands at what it holds, the exchanges that it has had, and the state of the
source.  Each call takes it to another standing (`Cache.turn`), by a conversation about the call's
table, and with what the call promises on the shelf when it returns (`Cache.converses_turn`).  A
call for a table that is not held at the version in force begins by asking, or knows from the
manifest that there is no such table (`Cache.opens_perform`). -/

namespace Bindery.Definitions

open Json Attempt

/-- What a user of the cache can call, by the type of the answer. -/
inductive Call : Type → Type 1 where
  | manifest : Call Manifest
  | checkUpdates : Call Manifest
  | loadedVersion (table : String) : Call (Option String)
  | resolve (table : String) (hash : UInt32) : Call RawText
  | get (ρ : Type) [Definition ρ] (hash : UInt32) : Call ρ

namespace Call

/-- The table whose records a call is for. -/
def table? {α : Type} : Call α → Option String
  | .manifest | .checkUpdates | .loadedVersion _ => none
  | .resolve table _ => some table
  | @get ρ _ _ => some (Definition.table ρ)

/-- What is on the shelf when a call returns an answer: a manifest is in force, and a record stands
in its table, which is held at the version in force. -/
def Promise {α : Type} : Call α → α → Shelf → Prop
  | .manifest, m, s | .checkUpdates, m, s => s.manifest = some m
  | .loadedVersion table, version, s => s.version? table = version
  | .resolve table hash, r, s => ∃ records, s.Current table records ∧ records.find? hash = some r
  | @get ρ _ hash, a, s => ∃ records r, s.Current (Definition.table ρ) records ∧
      records.find? hash = some r ∧ decodeRecord (.ok r) = .ok a

end Call

namespace Cache

variable (c : Cache)

def perform {α : Type} : Call α → Attempt α
  | .manifest => manifest
  | .checkUpdates => checkUpdates
  | .loadedVersion table => loadedVersion table
  | .resolve table hash => c.resolve table hash
  | @Call.get ρ _ hash => c.get ρ hash

variable {c} {α : Type} {s s' : Shelf} {xs : List Exchange}

/-- Getting a record resolves and then decodes it. -/
theorem plays_get {ρ : Type} [Definition ρ] {hash : UInt32} {r : Except DefinitionError ρ} :
    Plays (c.get ρ hash) s xs r s' ↔
      ∃ r₀, Plays (c.resolve (Definition.table ρ) hash) s xs r₀ s' ∧ decodeRecord r₀ = r := by
  show Script.Plays ((c.resolve (Definition.table ρ) hash).run.andThen _) s xs r s' ↔ _
  rw [Script.plays_andThen]
  constructor
  · rintro ⟨ys, r₀, t, zs, h, hdone, rfl⟩
    obtain ⟨rfl, rfl, rfl⟩ := Script.plays_done.mp hdone
    exact ⟨r₀, by rwa [List.append_nil], rfl⟩
  · rintro ⟨r₀, h, rfl⟩
    exact ⟨xs, r₀, s', [], h, .done, (List.append_nil xs).symm⟩

theorem perform_heedful (call : Call α) :
    c.Heedful call.table? (fun _ => True) (c.perform call) call.Promise := by
  cases call with
  | manifest => exact manifest_heedful
  | checkUpdates => exact checkUpdates_heedful
  | loadedVersion table => exact .looking fun _ _ => rfl
  | resolve table hash => exact resolve_heedful
  | @get ρ _ hash =>
      intro s hP
      refine (resolve_heedful s hP).andThen (g := fun r => .done (decodeRecord r))
        fun r s reason hreason hQ => ⟨rfl, fun e he => by rw [hreason e he]; rfl, fun a ha => ?_⟩
      cases r with
      | error e => cases ha
      | ok r =>
          obtain ⟨records, hcurrent, hfind⟩ := hQ r rfl
          exact ⟨records, r, hcurrent, hfind, ha⟩

theorem perform_proper (call : Call α) :
    c.Proper call.table? (fun _ => True) (c.perform call) call.Promise :=
  (perform_heedful call).proper

/-! ## How calls begin -/

variable (c) in
/-- A call for the table begins by asking for the manifest if there is none, and for the table if
the manifest lists it; otherwise it fails without asking. -/
inductive Opens {α : Type} (table : String) (s : Shelf) :
    List Exchange → Except DefinitionError α → Prop
  | askManifest {answer rest r} : s.manifest = none → Opens table s (.manifest answer :: rest) r
  | askTable {m path answer rest r} : s.manifest = some m →
      m.tablePath? c.locale table = some path → Opens table s (.table path answer :: rest) r
  | unlisted {m} : s.manifest = some m → m.tablePath? c.locale table = none →
      Opens table s [] (.error (.unknownTable table))

variable {β : Type} {f : α → Attempt β} {table : String} {hash : UInt32}

theorem plays_looking_bind {g : Shelf → α} {r : Except DefinitionError β} :
    Plays (looking g >>= f) s xs r s' ↔ Plays (f (g s)) s xs r s' := by
  rw [plays_bind]
  constructor
  · rintro (⟨_, hlook, -⟩ | ⟨_, _, _, _, hlook, hf, rfl⟩)
    · cases (plays_looking.mp hlook).2.1
    · obtain ⟨rfl, heq, rfl⟩ := plays_looking.mp hlook
      cases heq
      exact hf
  · exact fun h => .inr ⟨[], g s, s, xs, plays_looking.mpr ⟨rfl, rfl, rfl⟩, h, rfl⟩

/-- What comes after does not change the beginning. -/
theorem Opens.bind {x : Attempt α} (hx : ∀ ys a t, Plays x s ys a t → c.Opens table s ys a)
    {r : Except DefinitionError β} (h : Plays (x >>= f) s xs r s') : c.Opens table s xs r := by
  rcases plays_bind.mp h with ⟨e, hplays, rfl⟩ | ⟨ys, a, t, zs, hplays, -, rfl⟩
  · cases hx _ _ _ hplays with
    | askManifest hm => exact .askManifest hm
    | askTable hm hpath => exact .askTable hm hpath
    | unlisted hm hpath => exact .unlisted hm hpath
  · cases hx _ _ _ hplays with
    | askManifest hm => exact .askManifest hm
    | askTable hm hpath => exact .askTable hm hpath

theorem plays_manifest_of_none {r : Except DefinitionError Manifest} (hm : s.manifest = none)
    (h : Plays manifest s xs r s') : Plays refresh s xs r s' := by
  unfold manifest at h
  rw [plays_looking_bind, hm] at h
  have h := plays_inside.mp h
  rwa [plays_looking_bind, hm] at h

theorem opens_manifest (hm : s.manifest = none) {r : Except DefinitionError Manifest}
    (h : Plays manifest s xs r s') : c.Opens table s xs r := by
  rcases plays_refresh (plays_manifest_of_none hm h) with ⟨_, _, rfl, -⟩ | ⟨_, rfl, -⟩
  · exact .askManifest hm
  · exact .askManifest hm

theorem plays_manifest_of_some {m : Manifest} {r : Except DefinitionError Manifest}
    (hm : s.manifest = some m) : Plays manifest s xs r s' ↔ xs = [] ∧ .ok m = r ∧ s = s' := by
  unfold manifest
  rw [plays_looking_bind, hm]
  exact plays_pure

theorem plays_manifest_bind {m : Manifest} {f : Manifest → Attempt β} {r : Except DefinitionError β}
    (hm : s.manifest = some m) : Plays (manifest >>= f) s xs r s' ↔ Plays (f m) s xs r s' := by
  rw [plays_bind]
  constructor
  · rintro (⟨_, hplays, -⟩ | ⟨_, _, _, _, hplays, hf, rfl⟩)
    · cases ((plays_manifest_of_some hm).mp hplays).2.1
    · obtain ⟨rfl, heq, rfl⟩ := (plays_manifest_of_some hm).mp hplays
      cases heq
      exact hf
  · exact fun h => .inr ⟨[], m, s, xs, (plays_manifest_of_some hm).mpr ⟨rfl, rfl, rfl⟩, h, rfl⟩

theorem opens_ensureTable (hstale : ∀ records, ¬s.Current table records)
    {r : Except DefinitionError Unit} (h : Plays (c.ensureTable table) s xs r s') :
    c.Opens table s xs r := by
  unfold ensureTable at h
  cases hm : s.manifest with
  | none => exact Opens.bind (fun _ _ _ => opens_manifest hm) h
  | some m =>
      have hv : s.version? table ≠ some m.version := fun hv =>
        (Shelf.exists_current hm hv).elim hstale
      rw [plays_manifest_bind hm] at h
      cases hpath : m.tablePath? c.locale table with
      | none =>
          simp only [hpath, Option.isNone_none, if_true] at h
          refine Opens.bind (fun ys a t h => ?_) h
          obtain ⟨rfl, rfl, rfl⟩ := plays_throw.mp h
          exact .unlisted hm hpath
      | some path =>
          simp only [hpath, Option.isNone_some, Bool.false_eq_true, if_false] at h
          rw [loadedVersion, plays_looking_bind, if_neg hv] at h
          have h := plays_inside.mp h
          rw [plays_manifest_bind hm, plays_looking_bind, if_neg hv, hpath] at h
          refine Opens.bind (fun ys a t h => ?_) h
          obtain ⟨rfl, rfl⟩ := plays_askingTable.mp h
          exact .askTable hm hpath

theorem opens_resolve (hstale : ∀ records, ¬s.Current table records)
    {r : Except DefinitionError RawText} (h : Plays (c.resolve table hash) s xs r s') :
    c.Opens table s xs r :=
  Opens.bind (fun _ _ _ => opens_ensureTable hstale) h

/-- A call for a table that is not held at the version in force. -/
theorem opens_perform {call : Call α} (htable : call.table? = some table)
    (hstale : ∀ records, ¬s.Current table records) {r : Except DefinitionError α}
    (h : Plays (c.perform call) s xs r s') : c.Opens table s xs r := by
  cases call with
  | manifest | checkUpdates | loadedVersion => cases htable
  | resolve =>
      cases htable
      exact opens_resolve hstale h
  | get ρ hash =>
      cases htable
      obtain ⟨r₀, hplays, rfl⟩ := plays_get.mp h
      cases opens_resolve hstale hplays with
      | askManifest hm => exact .askManifest hm
      | askTable hm hpath => exact .askTable hm hpath
      | unlisted hm hpath => exact .unlisted hm hpath

/-! ## Standings -/

/-- Where a cache stands, from its beginning on. -/
structure Standing (σ : Type) where
  /-- The state of the source. -/
  world : σ
  shelf : Shelf := {}
  past : List Exchange := []

variable (c) {σ : Type} (source : Source (StateM σ))

/-- The answer to a call, and the standing after it. -/
def turn (call : Call α) (st : Standing σ) : Except DefinitionError α × Standing σ :=
  let ran := (((c.perform call).run.run source.recorded).run st.shelf).run (st.world, st.past)
  (ran.1.1, ⟨ran.2.1, ran.1.2, ran.2.2⟩)

/-- The standing after some calls. -/
def after (calls : List (Σ α, Call α)) (st : Standing σ) : Standing σ :=
  calls.foldl (fun st call => (c.turn source call.2 st).2) st

variable {c}

/-- A call plays its script, and what it asks stands after the past. -/
theorem plays_turn (call : Call α) (st : Standing σ) :
    let answered := c.turn source call st
    ∃ xs, answered.2.past = st.past ++ xs ∧
      Plays (c.perform call) st.shelf xs answered.1 answered.2.shelf := by
  obtain ⟨xs, hplays, hpast⟩ :=
    Script.plays_run source (c.perform call).run st.shelf st.world st.past
  exact ⟨xs, hpast, hplays⟩

/-- A call converses about its table, fails for the reason of an answer that is of no use, and
keeps its promise when it returns. -/
theorem converses_turn (call : Call α) (st : Standing σ) :
    let answered := c.turn source call st
    ∃ xs reason, answered.2.past = st.past ++ xs ∧
      c.Converses call.table? st.shelf xs reason answered.2.shelf ∧
      (∀ e, reason = some e → answered.1 = .error e) ∧
      ∀ a, answered.1 = .ok a → call.Promise a answered.2.shelf := by
  obtain ⟨xs, hpast, hplays⟩ := plays_turn source call st
  obtain ⟨reason, hconv, hreason, hok⟩ := perform_proper call _ xs _ _ trivial hplays
  exact ⟨xs, reason, hpast, hconv, hreason, fun a ha => (hok a ha).2⟩

end Cache
end Bindery.Definitions
