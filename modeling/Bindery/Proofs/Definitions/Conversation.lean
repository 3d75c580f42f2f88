import Bindery.Definitions.Cache
import Bindery.Proofs.Definitions.Exchange
import Bindery.Proofs.Dictionary

/-! # What calls of the cache say to the source

A call asks for manifests, and for its table only while the table is not held at the version of
the manifest in force; an answer changes the shelf in one way only, and an answer that is of no use
is the last (`Cache.Converses`).  That a script does so, whatever is answered, is said step by step,
with the shelf at each step (`Cache.Heeds`); attempts that do so are closed under sequencing, and
all calls do (`Cache.perform_heedful`).  So every call converses in this way, fails for the reason
of its last answer if that was of no use, and has what it promises on the shelf when it returns
(`Cache.Proper`, `Heedful.proper`). -/

namespace Bindery.Definitions

open Json Attempt

namespace Shelf

/-- The shelf after an exchange of a call, which may be for a table. -/
def receive (table? : Option String) (s : Shelf) (x : Exchange) : Shelf :=
  match x with
  | .manifest _ => x.manifest?.elim s s.install
  | .table _ (.error _) => s
  | .table _ (.ok records) =>
    match table?, s.manifest with
    | some table, some m => s.load table m.version records
    | _, _ => s

/-- The table is held at the version of the manifest in force, with the given records. -/
def Current (s : Shelf) (table : String) (records : Records) : Prop :=
  ∃ m, s.manifest = some m ∧ s.tables.find? table = some ⟨m.version, records⟩

variable {s : Shelf} {table : String} {m : Manifest}

theorem version?_eq_some_iff {version : String} :
    s.version? table = some version ↔
      ∃ records, s.tables.find? table = some ⟨version, records⟩ := by
  rw [version?, Option.map_eq_some_iff]
  constructor
  · rintro ⟨⟨_, records⟩, h, rfl⟩
    exact ⟨records, h⟩
  · rintro ⟨records, h⟩
    exact ⟨_, h, rfl⟩

theorem Current.version? {records : Records} (h : s.Current table records) :
    s.version? table = s.manifest.map Manifest.version := by
  obtain ⟨m, hm, htable⟩ := h
  rw [hm]
  exact version?_eq_some_iff.mpr ⟨records, htable⟩

theorem exists_current (hm : s.manifest = some m) (hv : s.version? table = some m.version) :
    ∃ records, s.Current table records := by
  obtain ⟨records, h⟩ := version?_eq_some_iff.mp hv
  exact ⟨records, m, hm, h⟩

theorem find?_load {version other : String} {records : Records} :
    (s.load table version records).tables.find? other =
      if other = table then some ⟨version, records⟩ else s.tables.find? other :=
  Dict.find?_insert s.tables table other ⟨version, records⟩

theorem current_load {records : Records} (hm : s.manifest = some m) :
    (s.load table m.version records).Current table records :=
  ⟨m, hm, by rw [find?_load, if_pos rfl]⟩

theorem receive_manifest {table? : Option String} (hne : m.version.isEmpty = false) :
    s.receive table? (.manifest (.ok m)) = s.install m := by
  simp [receive, Exchange.manifest?, hne]

theorem receive_table {path : String} {records : Records} (hm : s.manifest = some m) :
    s.receive (some table) (.table path (.ok records)) = s.load table m.version records := by
  simp [receive, hm]

/-- An answer that is of no use changes nothing. -/
theorem receive_of_failure? {table? : Option String} {x : Exchange} {e : DefinitionError}
    (h : x.failure? = some e) : s.receive table? x = s := by
  match x with
  | .manifest (.error _) | .table _ (.error _) => rfl
  | .manifest (.ok m) =>
      simp only [Exchange.failure?] at h
      split at h
      · rename_i hempty
        simp only [receive, Exchange.manifest?, hempty, if_true, Option.elim_none]
      · cases h
  | .table _ (.ok _) => cases h

end Shelf

namespace Cache

variable (c : Cache)

/-- What a call that may be for a table can ask for: a manifest, or the table by the path that the
manifest in force lists, unless it is held at the manifest's version. -/
def Due (table? : Option String) (s : Shelf) : Exchange → Prop
  | .manifest _ => True
  | .table path _ => ∃ table m, table? = some table ∧ s.manifest = some m ∧
      m.tablePath? c.locale table = some path ∧ s.version? table ≠ some m.version

/-- The exchanges lead from the first shelf to the second; the reason is why the last answer was of
no use. -/
inductive Converses (table? : Option String) :
    Shelf → List Exchange → Option DefinitionError → Shelf → Prop
  | silent {s} : Converses table? s [] none s
  | refused {s x e} : c.Due table? s x → x.failure? = some e → Converses table? s [x] (some e) s
  | received {s x xs reason s'} : c.Due table? s x → x.failure? = none →
      Converses table? (s.receive table? x) xs reason s' → Converses table? s (x :: xs) reason s'

variable {c} {table? : Option String} {s t s' : Shelf} {xs ys : List Exchange}
  {reason : Option DefinitionError}

namespace Converses

theorem append (h : c.Converses table? s xs none t) (h' : c.Converses table? t ys reason s') :
    c.Converses table? s (xs ++ ys) reason s' := by
  generalize hnone : none = noReason at h
  induction h with
  | silent => exact h'
  | refused => cases hnone
  | received hdue hfail _ ih => exact .received hdue hfail (ih h' hnone)

/-- The shelf is what the exchanges make of it. -/
theorem eq_foldl (h : c.Converses table? s xs reason s') :
    s' = xs.foldl (Shelf.receive table?) s := by
  induction h with
  | silent => rfl
  | refused _ hfail => rw [List.foldl_cons, Shelf.receive_of_failure? hfail, List.foldl_nil]
  | received _ _ _ ih => rw [List.foldl_cons, ih]

/-- An answer that is of no use is the last one, and the reason; what was asked for is still due. -/
theorem failure (h : c.Converses table? s xs reason s') {before after : List Exchange}
    {x : Exchange} {e : DefinitionError} (hxs : xs = before ++ x :: after)
    (hfail : x.failure? = some e) : after = [] ∧ reason = some e ∧ c.Due table? s' x := by
  induction h generalizing before with
  | silent => simp at hxs
  | @refused s y e' hdue hfail' =>
      obtain ⟨rfl, rfl, rfl⟩ : before = [] ∧ x = y ∧ after = [] := by
        cases before with
        | nil => simpa [eq_comm] using hxs
        | cons z zs => simp at hxs
      exact ⟨rfl, hfail'.symm.trans hfail, hdue⟩
  | @received s y ys reason s' hdue hnone h ih =>
      cases before with
      | nil =>
          cases hxs
          cases hnone.symm.trans hfail
      | cons z before =>
          cases hxs
          exact ih rfl

/-- An answer that is of no use leaves the shelf as it was. -/
theorem eq_foldl_before (h : c.Converses table? s xs reason s') {before after : List Exchange}
    {x : Exchange} {e : DefinitionError} (hxs : xs = before ++ x :: after)
    (hfail : x.failure? = some e) : s' = before.foldl (Shelf.receive table?) s := by
  obtain ⟨rfl, -, -⟩ := h.failure hxs hfail
  rw [h.eq_foldl, hxs, List.foldl_append, List.foldl_cons, Shelf.receive_of_failure? hfail,
    List.foldl_nil]

end Converses

variable (c)

/-- Whatever the source answers, the script asks for what is due only, and after an answer of no use
it asks no more and fails for that reason. Whenever it asks something, and when it is done, the
shelf is what the exchanges have made of it: so far they have told this, and given a reason to fail
or not. -/
def Heeds {α : Type} (table? : Option String) (Q : α → Shelf → Prop) :
    Script (Except DefinitionError α) → Shelf → Shelf → Option DefinitionError → Prop
  | .done r, s, told, reason =>
    s = told ∧ (∀ e, reason = some e → r = .error e) ∧ ∀ a, r = .ok a → Q a s
  | .look next, s, told, reason => Heeds table? Q (next s) s told reason
  | .change f next, s, told, reason => Heeds table? Q next (f s) told reason
  | .enter _ next, s, told, reason => Heeds table? Q next s told reason
  | .leave _ next, s, told, reason => Heeds table? Q next s told reason
  | .askManifest next, s, told, reason => s = told ∧ reason = none ∧ ∀ answer,
      let x := Exchange.manifest answer
      c.Due table? s x ∧ Heeds table? Q (next answer) s (s.receive table? x) x.failure?
  | .askTable path next, s, told, reason => s = told ∧ reason = none ∧ ∀ answer,
      let x := Exchange.table path answer
      c.Due table? s x ∧ Heeds table? Q (next answer) s (s.receive table? x) x.failure?

/-- From a shelf with the first property the attempt heeds what it is told, and the shelf has the
second property when it returns. -/
def Heedful {α : Type} (table? : Option String) (P : Shelf → Prop) (x : Attempt α)
    (Q : α → Shelf → Prop) : Prop := ∀ s, P s → c.Heeds table? Q x.run s s none

/-- From a shelf with the first property the attempt converses about the table, fails for the
reason of an answer that is of no use, and has the second property when it returns. -/
def Proper {α : Type} (table? : Option String) (P : Shelf → Prop) (x : Attempt α)
    (Q : α → Shelf → Prop) : Prop :=
  ∀ s xs r s', P s → Plays x s xs r s' → ∃ reason, c.Converses table? s xs reason s' ∧
    (∀ e, reason = some e → r = .error e) ∧ ∀ a, r = .ok a → reason = none ∧ Q a s'

variable {c} {α β : Type} {P : Shelf → Prop} {Q : α → Shelf → Prop} {R : β → Shelf → Prop}
  {x : Attempt α} {f : α → Attempt β} {table : String}

namespace Heeds

/-- What follows has to heed the reason to fail that is left. -/
theorem andThen {y : Script (Except DefinitionError α)}
    {g : Except DefinitionError α → Script (Except DefinitionError β)} {told : Shelf}
    (h : c.Heeds table? Q y s told reason)
    (hg : ∀ r s reason, (∀ e, reason = some e → r = .error e) → (∀ a, r = .ok a → Q a s) →
      c.Heeds table? R (g r) s s reason) :
    c.Heeds table? R (y.andThen g) s told reason := by
  induction y generalizing s told reason with
  | done r =>
      obtain ⟨rfl, hreason, hQ⟩ := h
      exact hg r s reason hreason hQ
  | look next ih => exact ih s h
  | change f next ih => exact ih h
  | enter g next ih => exact ih h
  | leave g next ih => exact ih h
  | askManifest next ih =>
      obtain ⟨htold, hreason, h⟩ := h
      exact ⟨htold, hreason, fun answer => ⟨(h answer).1, ih answer (h answer).2⟩⟩
  | askTable path next ih =>
      obtain ⟨htold, hreason, h⟩ := h
      exact ⟨htold, hreason, fun answer => ⟨(h answer).1, ih answer (h answer).2⟩⟩

/-- With a reason to fail nothing more is asked. -/
theorem of_reason {y : Script (Except DefinitionError α)} {told : Shelf} {e : DefinitionError}
    {r : Except DefinitionError α} (h : c.Heeds table? Q y s told (some e))
    (hplays : Script.Plays y s xs r s') : xs = [] ∧ s' = told ∧ r = .error e := by
  induction hplays with
  | done =>
      obtain ⟨rfl, hreason, -⟩ := h
      exact ⟨rfl, rfl, hreason e rfl⟩
  | look _ ih | change _ ih | enter _ ih | leave _ ih => exact ih h
  | askManifest | askTable => cases h.2.1

theorem converses {y : Script (Except DefinitionError α)} {told : Shelf}
    {r : Except DefinitionError α} (h : c.Heeds table? Q y s told none)
    (hplays : Script.Plays y s xs r s') : ∃ reason, c.Converses table? told xs reason s' ∧
      (∀ e, reason = some e → r = .error e) ∧ ∀ a, r = .ok a → reason = none ∧ Q a s' := by
  -- An answer of use goes on with the conversation, and one of no use ends it.
  have hask {x : Exchange} {next : Script (Except DefinitionError α)} {s s' : Shelf}
      {xs : List Exchange} {r : Except DefinitionError α} (hdue : c.Due table? s x)
      (h : c.Heeds table? Q next s (s.receive table? x) x.failure?)
      (hplays : Script.Plays next s xs r s')
      (ih : c.Heeds table? Q next s (s.receive table? x) none →
        ∃ reason, c.Converses table? (s.receive table? x) xs reason s' ∧
          (∀ e, reason = some e → r = .error e) ∧ ∀ a, r = .ok a → reason = none ∧ Q a s') :
      ∃ reason, c.Converses table? s (x :: xs) reason s' ∧
        (∀ e, reason = some e → r = .error e) ∧ ∀ a, r = .ok a → reason = none ∧ Q a s' := by
    cases hfail : x.failure? with
    | none =>
        rw [hfail] at h
        obtain ⟨reason, hconv, houtcome⟩ := ih h
        exact ⟨reason, .received hdue hfail hconv, houtcome⟩
    | some e =>
        rw [hfail] at h
        obtain ⟨rfl, rfl, rfl⟩ := h.of_reason hplays
        rw [Shelf.receive_of_failure? hfail]
        exact ⟨some e, .refused hdue hfail, by simp, nofun⟩
  induction hplays generalizing told with
  | done =>
      obtain ⟨rfl, -, hQ⟩ := h
      exact ⟨none, .silent, nofun, fun a ha => ⟨rfl, hQ a ha⟩⟩
  | look _ ih | change _ ih | enter _ ih | leave _ ih => exact ih h
  | @askManifest next answer s xs r s' hnext ih =>
      obtain ⟨rfl, -, h⟩ := h
      exact hask (h answer).1 (h answer).2 hnext ih
  | @askTable path next answer s xs r s' hnext ih =>
      obtain ⟨rfl, -, h⟩ := h
      exact hask (h answer).1 (h answer).2 hnext ih

end Heeds

namespace Heedful

theorem proper (h : c.Heedful table? P x Q) : c.Proper table? P x Q :=
  fun s _ _ _ hP hplays => (h s hP).converses hplays

theorem bind (hx : c.Heedful table? P x Q) (hf : ∀ a, c.Heedful table? (Q a) (f a) R) :
    c.Heedful table? P (x >>= f) R := by
  intro s hP
  refine (hx s hP).andThen (g := ExceptT.bindCont f) fun r t reason hreason hQ => ?_
  cases r with
  | error e => exact ⟨rfl, fun e' he' => congrArg _ (Except.error.inj (hreason e' he')), nofun⟩
  | ok a =>
      cases reason with
      | none => exact hf a t (hQ a rfl)
      | some e => cases hreason e rfl

theorem pre {P' : Shelf → Prop} (h : c.Heedful table? P x Q) (hP : ∀ s, P' s → P s) :
    c.Heedful table? P' x Q := fun s hs => h s (hP s hs)

theorem pure {a : α} (h : ∀ s, P s → Q a s) : c.Heedful table? P (pure a) Q :=
  fun s hP => ⟨rfl, nofun, fun _ ha => Except.ok.inj ha ▸ h s hP⟩

theorem throw {e : DefinitionError} : c.Heedful table? P (throw e) Q :=
  fun _ _ => ⟨rfl, nofun, nofun⟩

theorem looking {g : Shelf → α} (h : ∀ s, P s → Q (g s) s) :
    c.Heedful table? P (looking g) Q :=
  fun s hP => ⟨rfl, nofun, fun _ ha => Except.ok.inj ha ▸ h s hP⟩

theorem inside {g : Gate} (h : c.Heedful table? P x Q) : c.Heedful table? P (inside g x) Q :=
  fun s hP => (h s hP).andThen fun _ _ _ hreason hQ => ⟨rfl, hreason, hQ⟩

end Heedful

/-! ## The calls -/

/-- Asking for the manifest comes to nothing, or puts the one that is given in force. -/
theorem plays_refresh {r : Except DefinitionError Manifest} (h : Plays refresh s xs r s') :
    (∃ answer e, xs = [.manifest answer] ∧ (Exchange.manifest answer).failure? = some e ∧
      r = .error e ∧ s' = s) ∨
    ∃ m, xs = [.manifest (.ok m)] ∧ m.version.isEmpty = false ∧ r = .ok m ∧ s' = s.install m := by
  unfold refresh at h
  rcases plays_bind.mp h with ⟨e, hask, rfl⟩ | ⟨ys, m, t, zs, hask, hrest, rfl⟩
  · obtain ⟨rfl, rfl⟩ := plays_asking.mp hask
    exact .inl ⟨_, e, rfl, rfl, rfl, rfl⟩
  · obtain ⟨rfl, rfl⟩ := plays_asking.mp hask
    dsimp only at hrest
    split at hrest
    · rename_i hempty
      rcases plays_bind.mp hrest with ⟨e, hthrow, rfl⟩ | ⟨_, _, _, _, hthrow, -, -⟩
      · obtain ⟨rfl, he, rfl⟩ := plays_throw.mp hthrow
        cases he
        exact .inl ⟨_, .missingManifest, rfl, by simp [Exchange.failure?, hempty], rfl, rfl⟩
      · obtain ⟨-, hthrow, -⟩ := plays_throw.mp hthrow
        cases hthrow
    · rename_i hempty
      rcases plays_bind.mp hrest with ⟨e, hchange, rfl⟩ | ⟨_, _, _, _, hchange, hpure, rfl⟩
      · obtain ⟨-, hchange, -⟩ := plays_changing.mp hchange
        cases hchange
      · obtain ⟨rfl, -, rfl⟩ := plays_changing.mp hchange
        obtain ⟨rfl, rfl, rfl⟩ := plays_pure.mp hpure
        exact .inr ⟨m, rfl, by simpa using hempty, rfl, rfl⟩

theorem refresh_heedful :
    c.Heedful table? (fun _ => True) refresh fun m s => s.manifest = some m := by
  refine fun s _ => ⟨rfl, rfl, fun answer => ⟨trivial, ?_⟩⟩
  cases answer with
  | error e => exact ⟨rfl, by simp [Exchange.failure?], nofun⟩
  | ok m =>
      show c.Heeds table? _ (ExceptT.run (if m.version.isEmpty then _ else _)) _ _ _
      split
      · rename_i hempty
        rw [Shelf.receive_of_failure? (e := .missingManifest) (by simp [Exchange.failure?, hempty])]
        exact ⟨rfl, by simp [Exchange.failure?, hempty], nofun⟩
      · rename_i hempty
        rw [Shelf.receive_manifest (Bool.eq_false_iff.mpr hempty)]
        exact ⟨rfl, by simp [Exchange.failure?, hempty], fun _ ha => Except.ok.inj ha ▸ rfl⟩

theorem manifest_heedful :
    c.Heedful table? (fun _ => True) manifest fun m s => s.manifest = some m := by
  have hlook (P : Shelf → Prop) : c.Heedful table? P (looking Shelf.manifest)
      fun a s => s.manifest = a := .looking fun _ _ => rfl
  refine (hlook _).bind fun found => ?_
  cases found with
  | some m => exact .pure fun _ h => h
  | none =>
      refine .inside ((hlook _).bind fun found => ?_)
      cases found with
      | some m => exact .pure fun _ h => h
      | none => exact refresh_heedful.pre fun _ _ => trivial

theorem checkUpdates_heedful :
    c.Heedful table? (fun _ => True) checkUpdates fun m s => s.manifest = some m :=
  .inside refresh_heedful

/-- Asking for a table that is due, and putting it on the shelf. -/
theorem fetch_heedful {m : Manifest} {path : String}
    (hpath : m.tablePath? c.locale table = some path) :
    c.Heedful (some table)
      (fun s => s.manifest = some m ∧ s.version? table ≠ some m.version)
      (askingTable path >>= fun records => changing (·.load table m.version records))
      fun _ s => ∃ records, s.Current table records := by
  rintro s ⟨hm, hv⟩
  refine ⟨rfl, rfl, fun answer => ⟨⟨table, m, rfl, hm, hpath, hv⟩, ?_⟩⟩
  cases answer with
  | error e => exact ⟨rfl, by simp [Exchange.failure?], nofun⟩
  | ok records =>
      rw [Shelf.receive_table hm]
      exact ⟨rfl, nofun, fun _ _ => ⟨records, Shelf.current_load hm⟩⟩

theorem ensureTable_heedful : c.Heedful (some table) (fun _ => True) (c.ensureTable table)
    fun _ s => ∃ records, s.Current table records := by
  have hlook (m : Manifest) : c.Heedful (some table) (fun s => s.manifest = some m)
      (loadedVersion table) fun v s => s.manifest = some m ∧ s.version? table = v :=
    .looking fun _ h => ⟨h, rfl⟩
  refine manifest_heedful.bind fun m => ?_
  dsimp only
  split
  · exact Heedful.throw.bind (Q := fun _ _ => False) fun _ => fun _ h => h.elim
  · refine (hlook m).bind fun v => ?_
    split
    · rename_i hv
      exact .pure fun _ h => Shelf.exists_current h.1 (h.2.trans hv)
    · refine .inside ((manifest_heedful.pre fun _ _ => trivial).bind fun m => ?_)
      refine (hlook m).bind fun v => ?_
      split
      · rename_i hv
        exact .pure fun _ h => Shelf.exists_current h.1 (h.2.trans hv)
      · rename_i hv
        split
        · exact .throw
        · rename_i path hpath
          exact (fetch_heedful hpath).pre fun _ h => ⟨h.1, fun heq => hv (h.2.symm.trans heq)⟩

/-- A record that is resolved stands in its table, which is held at the version in force. -/
theorem resolve_heedful {hash : UInt32} :
    c.Heedful (some table) (fun _ => True) (c.resolve table hash) fun r s =>
      ∃ records, s.Current table records ∧ records.find? hash = some r := by
  have hlook : c.Heedful (some table) (fun s => ∃ records, s.Current table records)
      (looking (·.record? table hash)) fun found s =>
        ∃ records, s.Current table records ∧ records.find? hash = found := by
    refine .looking fun s ⟨records, h⟩ => ⟨records, h, ?_⟩
    obtain ⟨m, -, h⟩ := h
    rw [Shelf.record?, h]
    rfl
  refine ensureTable_heedful.bind fun _ => hlook.bind fun found => ?_
  cases found with
  | some r => exact .pure fun _ h => h
  | none =>
      refine (checkUpdates_heedful.pre fun _ _ => trivial).bind fun _ => ?_
      refine (ensureTable_heedful.pre fun _ _ => trivial).bind fun _ => hlook.bind fun found => ?_
      cases found with
      | some r => exact .pure fun _ h => h
      | none => exact .throw

end Cache
end Bindery.Definitions
