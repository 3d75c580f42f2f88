import Bindery.Proofs.Definitions.Coherence

/-! # Lookups that miss

A lookup first sees to it that its table is ready, that is, listed by the manifest in force and held
at its version; there are six ways for that to go (`Cache.Ensures`).  Then it looks the hash up, and
after a miss it asks for the manifest although one is in force, sees to the table again and looks a
second time (`Cache.Resolves`).  So a lookup says that there is no such table exactly when the
manifest that it ends with does not list it, and that there is no such record exactly when it has
missed it before and after the one manifest that it asked for (`Cache.verdict_resolve`); unless the
source itself fails with one of these errors, which is passed on as any other is
(`Cache.not_own_verdict`). -/

namespace Bindery.Definitions

open Json Attempt

def Exchange.isManifest : Exchange → Bool
  | .manifest _ => true
  | .table _ _ => false

namespace Shelf

/-- How often a lookup in a table asks for a manifest although one is in force. -/
def forced (table : String) : Shelf → List Exchange → Nat
  | _, [] => 0
  | s, x :: xs =>
    (if x.isManifest && s.manifest.isSome then 1 else 0) +
      forced table (s.receive (some table) x) xs

theorem forced_append (table : String) (s : Shelf) (xs ys : List Exchange) :
    s.forced table (xs ++ ys) =
      s.forced table xs + (xs.foldl (receive (some table)) s).forced table ys := by
  induction xs generalizing s with
  | nil => exact (Nat.zero_add _).symm
  | cons x xs ih => rw [List.cons_append, forced, ih, forced, List.foldl_cons, Nat.add_assoc]

end Shelf

namespace Cache

variable (c : Cache)

/-- The manifest in force does not list the table. -/
def Unlisted (table : String) (s : Shelf) : Prop :=
  ∃ m, s.manifest = some m ∧ m.tablePath? c.locale table = none

/-- The manifest in force lists the table, which is held at its version. -/
def Ready (table : String) (s : Shelf) : Prop :=
  ∃ m path, s.manifest = some m ∧ m.tablePath? c.locale table = some path ∧
    s.version? table = some m.version

/-- The table is ready, and this is what it has under the hash. -/
def Finds (table : String) (hash : UInt32) (found : Option RawText) (s : Shelf) : Prop :=
  c.Ready table s ∧ s.record? table hash = found

/-- The exchanges begin with some after which the table is ready for the first time, and the hash is
missing; then a manifest is given, the only one that is asked for although one is in force, and under
it the table is ready in the end, and the hash is missing again. -/
def MissedTwice (table : String) (hash : UInt32) (s : Shelf) (xs : List Exchange) (s' : Shelf) :
    Prop :=
  ∃ ys m zs, xs = ys ++ .manifest (.ok m) :: zs ∧
    s.forced table ys = 0 ∧ c.Finds table hash none (ys.foldl (Shelf.receive (some table)) s) ∧
    m.version ≠ "" ∧ s.forced table xs = 1 ∧
    s'.manifest = some m ∧ c.Finds table hash none s'

/-- What comes of a lookup with these exchanges between these shelves. An error that the source
itself gives is passed on. -/
structure Verdict (table : String) (hash : UInt32) (s : Shelf) (xs : List Exchange)
    (r : Except DefinitionError RawText) (s' : Shelf) : Prop where
  unknownTable (name : String) : r = .error (.unknownTable name) ↔
    name = table ∧ c.Unlisted table s' ∨ ∃ x ∈ xs, x.failure? = some (.unknownTable name)
  notFound (name : String) (h : UInt32) : r = .error (.notFound name h) ↔
    (name = table ∧ h = hash ∧ c.MissedTwice table hash s xs s') ∨
      ∃ x ∈ xs, x.failure? = some (.notFound name h)
  /-- Where the first look finds the record no manifest is asked for although one is in force. -/
  hit {ys zs : List Exchange} {a : RawText} : xs = ys ++ zs → s.forced table ys = 0 →
    c.Finds table hash (some a) (ys.foldl (Shelf.receive (some table)) s) →
    s.forced table xs = 0 ∧ r = .ok a

/-- How it is seen to that a table is ready: by which exchanges, with what result, and what is on the
shelf then. -/
inductive Ensures (table : String) :
    Shelf → List Exchange → Except DefinitionError Unit → Shelf → Prop
  | unlisted {s} : c.Unlisted table s → Ensures table s [] (.error (.unknownTable table)) s
  | ready {s} : c.Ready table s → Ensures table s [] (.ok ()) s
  | refused {s path e} : c.Due (some table) s (.table path (.error e)) →
      Ensures table s [.table path (.error e)] (.error e) s
  | loaded {s path records} : c.Due (some table) s (.table path (.ok records)) →
      Ensures table s [.table path (.ok records)] (.ok ())
        (s.receive (some table) (.table path (.ok records)))
  | missing {s answer e} : s.manifest = none → (Exchange.manifest answer).failure? = some e →
      Ensures table s [.manifest answer] (.error e) s
  | installed {s m xs r s'} : s.manifest = none → m.version.isEmpty = false →
      Ensures table (s.install m) xs r s' → Ensures table s (.manifest (.ok m) :: xs) r s'

/-- How a record is resolved: once it is seen to the table the record is there, or the manifest is
asked for, it is seen to the table again, and the record is there or it is not. -/
inductive Resolves (table : String) (hash : UInt32) :
    Shelf → List Exchange → Except DefinitionError RawText → Shelf → Prop
  | stopped {s xs e s'} : c.Ensures table s xs (.error e) s' → Resolves table hash s xs (.error e) s'
  | found {s xs r s'} : c.Ensures table s xs (.ok ()) s' → s'.record? table hash = some r →
      Resolves table hash s xs (.ok r) s'
  | refused {s ys t answer e} : c.Ensures table s ys (.ok ()) t → t.record? table hash = none →
      (Exchange.manifest answer).failure? = some e →
      Resolves table hash s (ys ++ [.manifest answer]) (.error e) t
  | stoppedAfter {s ys t m zs e s'} : c.Ensures table s ys (.ok ()) t →
      t.record? table hash = none → m.version.isEmpty = false →
      c.Ensures table (t.install m) zs (.error e) s' →
      Resolves table hash s (ys ++ .manifest (.ok m) :: zs) (.error e) s'
  | foundAfter {s ys t m zs r s'} : c.Ensures table s ys (.ok ()) t →
      t.record? table hash = none → m.version.isEmpty = false →
      c.Ensures table (t.install m) zs (.ok ()) s' → s'.record? table hash = some r →
      Resolves table hash s (ys ++ .manifest (.ok m) :: zs) (.ok r) s'
  | missedAfter {s ys t m zs s'} : c.Ensures table s ys (.ok ()) t →
      t.record? table hash = none → m.version.isEmpty = false →
      c.Ensures table (t.install m) zs (.ok ()) s' → s'.record? table hash = none →
      Resolves table hash s (ys ++ .manifest (.ok m) :: zs) (.error (.notFound table hash)) s'

variable {c} {table : String} {hash : UInt32} {s t s' : Shelf} {xs ys zs : List Exchange}

theorem Ready.not_unlisted (h : c.Ready table s) : ¬c.Unlisted table s := by
  rintro ⟨m, hm, hnone⟩
  obtain ⟨m', path, hm', hpath, -⟩ := h
  cases hm.symm.trans hm'
  cases hnone.symm.trans hpath

theorem Ready.isSome (h : c.Ready table s) : s.manifest.isSome = true := by
  obtain ⟨m, -, hm, -⟩ := h
  rw [hm]
  rfl

theorem not_ready_of_manifest (hm : s.manifest = none) : ¬c.Ready table s := by
  rintro ⟨m, -, hm', -⟩
  cases hm.symm.trans hm'

/-- A table that can be asked for is listed, and not ready. -/
theorem Due.not_ready {path : String} {answer : Except DefinitionError Records}
    (h : c.Due (some table) s (.table path answer)) :
    ¬c.Unlisted table s ∧ ¬c.Ready table s := by
  obtain ⟨_, m, heq, hm, hpath, hv⟩ := h
  cases heq
  constructor
  · rintro ⟨m', hm', hnone⟩
    cases hm.symm.trans hm'
    cases hnone.symm.trans hpath
  · rintro ⟨m', -, hm', -, hv'⟩
    cases hm.symm.trans hm'
    exact hv hv'

/-! ## Seeing to a table -/

/-- Under a manifest only the table is asked for, if it is due. -/
theorem ensures_of_manifest {m : Manifest} {r : Except DefinitionError Unit}
    (hm : s.manifest = some m) (h : Plays (c.ensureTable table) s xs r s') :
    c.Ensures table s xs r s' := by
  rw [ensureTable, plays_manifest_bind hm] at h
  cases hpath : m.tablePath? c.locale table with
  | none =>
      simp only [hpath, Option.isNone_none, if_true] at h
      rcases plays_bind.mp h with ⟨e, hthrow, rfl⟩ | ⟨_, _, _, _, hthrow, -, -⟩
      · obtain ⟨rfl, he, rfl⟩ := plays_throw.mp hthrow
        cases he
        exact .unlisted ⟨m, hm, hpath⟩
      · obtain ⟨-, hthrow, -⟩ := plays_throw.mp hthrow
        cases hthrow
  | some path =>
      simp only [hpath, Option.isNone_some, Bool.false_eq_true, if_false] at h
      rw [loadedVersion, plays_looking_bind] at h
      by_cases hv : s.version? table = some m.version
      · rw [if_pos hv] at h
        obtain ⟨rfl, rfl, rfl⟩ := plays_pure.mp h
        exact .ready ⟨m, path, hm, hpath, hv⟩
      · rw [if_neg hv] at h
        have h := plays_inside.mp h
        rw [plays_manifest_bind hm, plays_looking_bind, if_neg hv, hpath] at h
        have hdue (answer : Except DefinitionError Records) :
            c.Due (some table) s (.table path answer) := ⟨table, m, rfl, hm, hpath, hv⟩
        rcases plays_bind.mp h with ⟨e, hask, rfl⟩ | ⟨ys, records, t, zs, hask, hload, rfl⟩
        · obtain ⟨rfl, rfl⟩ := plays_askingTable.mp hask
          exact .refused (hdue _)
        · obtain ⟨rfl, rfl⟩ := plays_askingTable.mp hask
          obtain ⟨rfl, rfl, rfl⟩ := plays_changing.mp hload
          have hreceive : s.receive (some table) (.table path (.ok records)) =
              s.load table m.version records := Shelf.receive_table hm
          rw [← hreceive]
          exact .loaded (hdue _)

theorem ensures_of_plays {r : Except DefinitionError Unit}
    (h : Plays (c.ensureTable table) s xs r s') : c.Ensures table s xs r s' := by
  cases hm : s.manifest with
  | some m => exact ensures_of_manifest hm h
  | none =>
      -- The manifest that is asked for is in force for all that follows.
      rw [ensureTable] at h
      rcases plays_bind.mp h with ⟨e, hplays, rfl⟩ | ⟨ys, m, t, zs, hplays, hrest, rfl⟩
      · rcases plays_refresh (plays_manifest_of_none hm hplays) with
          ⟨answer, e, rfl, hfail, he, rfl⟩ | ⟨_, _, _, he, _⟩
        · cases he
          exact .missing hm hfail
        · cases he
      · rcases plays_refresh (plays_manifest_of_none hm hplays) with
          ⟨_, _, _, _, he, _⟩ | ⟨m, rfl, hne, he, rfl⟩
        · cases he
        · cases he
          refine .installed hm hne (ensures_of_manifest (m := m) rfl ?_)
          rwa [ensureTable, plays_manifest_bind rfl]

namespace Ensures

variable {r : Except DefinitionError Unit}

theorem eq_foldl (h : c.Ensures table s xs r s') :
    s' = xs.foldl (Shelf.receive (some table)) s := by
  induction h with
  | unlisted | ready | refused | loaded => rfl
  | missing _ hfail => rw [List.foldl_cons, Shelf.receive_of_failure? hfail, List.foldl_nil]
  | installed _ hne _ ih => rw [List.foldl_cons, Shelf.receive_manifest hne, ih]

theorem ready_of_ok (h : c.Ensures table s xs (.ok ()) s') : c.Ready table s' := by
  generalize hr : Except.ok () = r at h
  induction h with
  | unlisted | refused | missing => cases hr
  | ready h => exact h
  | loaded h =>
      obtain ⟨_, m, heq, hm, hpath, -⟩ := h
      cases heq
      rw [Shelf.receive_table hm]
      exact ⟨m, _, hm, hpath, Shelf.version?_eq_some_iff.mpr
        ⟨_, (Shelf.find?_load).trans (if_pos rfl)⟩⟩
  | installed _ _ _ ih => exact ih hr

/-- Seeing to a table fails because it is not listed, or for the reason of a request that failed
while it was. -/
theorem unlisted_or_refused {e : DefinitionError} (h : c.Ensures table s xs (.error e) s') :
    (e = .unknownTable table ∧ c.Unlisted table s') ∨
      ¬c.Unlisted table s' ∧ ∃ x ∈ xs, x.failure? = some e := by
  generalize hr : Except.error e = r at h
  induction h with
  | ready | loaded => cases hr
  | unlisted h =>
      cases hr
      exact .inl ⟨rfl, h⟩
  | refused h =>
      cases hr
      exact .inr ⟨h.not_ready.1, _, List.mem_singleton_self _, rfl⟩
  | missing hm hfail =>
      cases hr
      refine .inr ⟨?_, _, List.mem_singleton_self _, hfail⟩
      rintro ⟨m, hm', -⟩
      cases hm.symm.trans hm'
  | installed _ _ _ ih =>
      refine (ih hr).imp_right fun ⟨hlisted, x, hx, hfail⟩ => ?_
      exact ⟨hlisted, x, List.mem_cons_of_mem _ hx, hfail⟩

/-- Nothing is asked while the table is ready. -/
theorem not_ready (h : c.Ensures table s xs r s') {x : Exchange} (hxs : xs = ys ++ x :: zs) :
    ¬c.Ready table (ys.foldl (Shelf.receive (some table)) s) := by
  induction h generalizing ys with
  | unlisted | ready => simp at hxs
  | refused h | loaded h =>
      obtain ⟨rfl, -⟩ : ys = [] ∧ _ := by simpa using List.append_eq_singleton_iff.mp hxs.symm
      exact h.not_ready.2
  | missing hm =>
      obtain ⟨rfl, -⟩ : ys = [] ∧ _ := by simpa using List.append_eq_singleton_iff.mp hxs.symm
      exact not_ready_of_manifest hm
  | installed hm hne _ ih =>
      cases ys with
      | nil => exact not_ready_of_manifest hm
      | cons y ys =>
          cases hxs
          rw [List.foldl_cons, Shelf.receive_manifest hne]
          exact ih rfl

theorem forced_eq_zero (h : c.Ensures table s xs r s') : s.forced table xs = 0 := by
  induction h with
  | unlisted | ready | refused | loaded => rfl
  | missing hm => simp [Shelf.forced, hm]
  | installed hm hne _ ih => simp [Shelf.forced, hm, Shelf.receive_manifest hne, ih]

/-- At most one manifest, and none under a manifest. -/
theorem countP_isManifest_le (h : c.Ensures table s xs r s') :
    xs.countP Exchange.isManifest ≤ if s.manifest.isSome then 0 else 1 := by
  induction h with
  | unlisted | ready | refused | loaded => exact Nat.zero_le _
  | missing hm => simp [hm, Exchange.isManifest]
  | installed hm _ _ ih =>
      rw [List.countP_cons_of_pos rfl, hm]
      exact Nat.succ_le_succ ih

theorem countP_not_isManifest_le (h : c.Ensures table s xs r s') :
    xs.countP (!·.isManifest) ≤ 1 := by
  induction h with
  | unlisted | ready | missing => exact Nat.zero_le _
  | refused | loaded => exact Nat.le_refl _
  | installed _ _ _ ih => exact ih

theorem manifest_eq {m : Manifest} (h : c.Ensures table s xs r s') (hm : s.manifest = some m) :
    s'.manifest = some m := by
  cases h with
  | unlisted | ready | refused => exact hm
  | loaded => rwa [Shelf.receive_table hm]
  | missing hnone | installed hnone => cases hnone.symm.trans hm

theorem not_ready_of_error {e : DefinitionError} (h : c.Ensures table s xs (.error e) s') :
    ¬c.Ready table s' := by
  generalize hr : Except.error e = r at h
  induction h with
  | ready | loaded => cases hr
  | unlisted h => exact fun hready => hready.not_unlisted h
  | refused h => exact h.not_ready.2
  | missing hm => exact not_ready_of_manifest hm
  | installed _ _ _ ih => exact ih hr

/-- The first time that the table is ready is when it has been seen to. -/
theorem eq_of_ready {zs₀ : List Exchange} {x : Exchange} (h : c.Ensures table s xs (.ok ()) t)
    (hx : x.isManifest = true) (hxs : xs ++ x :: zs₀ = ys ++ zs) (hforced : s.forced table ys = 0)
    (hready : c.Ready table (ys.foldl (Shelf.receive (some table)) s)) : ys = xs := by
  rcases List.append_eq_append_iff.mp hxs with ⟨as, rfl, htail⟩ | ⟨bs, rfl, htail⟩
  · cases as with
    | nil => exact List.append_nil xs
    | cons a as =>
        obtain ⟨rfl, -⟩ := List.cons.inj htail
        have hmanifest := h.ready_of_ok.isSome
        rw [Shelf.forced_append, ← h.eq_foldl, Shelf.forced, hx, hmanifest] at hforced
        simp at hforced
  · cases bs with
    | nil => exact (List.append_nil ys).symm
    | cons b bs => exact absurd hready (h.not_ready rfl)

end Ensures

/-! ## Resolving a record -/

/-- The second look at a table: what it does not find is reported. -/
theorem looks_of_plays {r : Except DefinitionError RawText}
    (h : Plays (c.ensureTable table >>= fun _ => looking (·.record? table hash) >>= fun
      | some r => pure r
      | none => throw (.notFound table hash)) s xs r s') :
    (∃ e, c.Ensures table s xs (.error e) s' ∧ r = .error e) ∨
    c.Ensures table s xs (.ok ()) s' ∧
      ((∃ a, s'.record? table hash = some a ∧ r = .ok a) ∨
        s'.record? table hash = none ∧ r = .error (.notFound table hash)) := by
  rcases plays_bind.mp h with ⟨e, hensure, rfl⟩ | ⟨ys, _, t, zs, hensure, hlook, rfl⟩
  · exact .inl ⟨e, ensures_of_plays hensure, rfl⟩
  refine .inr ?_
  rw [plays_looking_bind] at hlook
  cases hrecord : t.record? table hash with
  | some a =>
      rw [hrecord] at hlook
      obtain ⟨rfl, rfl, rfl⟩ := plays_pure.mp hlook
      rw [List.append_nil]
      exact ⟨ensures_of_plays hensure, .inl ⟨a, hrecord, rfl⟩⟩
  | none =>
      rw [hrecord] at hlook
      obtain ⟨rfl, rfl, rfl⟩ := plays_throw.mp hlook
      rw [List.append_nil]
      exact ⟨ensures_of_plays hensure, .inr ⟨hrecord, rfl⟩⟩

theorem resolves_of_plays {r : Except DefinitionError RawText}
    (h : Plays (c.resolve table hash) s xs r s') : c.Resolves table hash s xs r s' := by
  unfold resolve at h
  rcases plays_bind.mp h with ⟨e, hfirst, rfl⟩ | ⟨ys, _, t, zs, hfirst, hlook, rfl⟩
  · exact .stopped (ensures_of_plays hfirst)
  have hfirst := ensures_of_plays hfirst
  rw [plays_looking_bind] at hlook
  cases hrecord : t.record? table hash with
  | some r =>
      rw [hrecord] at hlook
      obtain ⟨rfl, rfl, rfl⟩ := plays_pure.mp hlook
      rw [List.append_nil]
      exact .found hfirst hrecord
  | none =>
      rw [hrecord] at hlook
      rcases plays_bind.mp hlook with ⟨e, hcheck, rfl⟩ | ⟨ys', m, t', zs', hcheck, hagain, rfl⟩
      · rcases plays_refresh (plays_inside.mp hcheck) with
          ⟨answer, e, rfl, hfail, he, rfl⟩ | ⟨_, _, _, he, _⟩
        · cases he
          exact .refused hfirst hrecord hfail
        · cases he
      · rcases plays_refresh (plays_inside.mp hcheck) with
          ⟨_, _, _, _, he, _⟩ | ⟨m, rfl, hne, he, rfl⟩
        · cases he
        rcases looks_of_plays hagain with
          ⟨e, hensure, rfl⟩ | ⟨hensure, ⟨a, hrecord', rfl⟩ | ⟨hrecord', rfl⟩⟩
        · exact .stoppedAfter hfirst hrecord hne hensure
        · exact .foundAfter hfirst hrecord hne hensure hrecord'
        · exact .missedAfter hfirst hrecord hne hensure hrecord'

namespace Resolves

variable {r : Except DefinitionError RawText}

theorem countP_isManifest_le (h : c.Resolves table hash s xs r s') :
    xs.countP Exchange.isManifest ≤ 2 := by
  have hone {s xs r s'} (h : c.Ensures table s xs r s') : xs.countP Exchange.isManifest ≤ 1 :=
    h.countP_isManifest_le.trans (by split <;> omega)
  have hnone {t : Shelf} {m zs r s'} (h : c.Ensures table (t.install m) zs r s') :
      zs.countP Exchange.isManifest = 0 := Nat.le_zero.mp h.countP_isManifest_le
  cases h with
  | stopped h | found h => exact (hone h).trans (by omega)
  | refused h =>
      rw [List.countP_append]
      exact Nat.add_le_add (hone h) (Nat.le_refl 1)
  | stoppedAfter h _ _ h' | foundAfter h _ _ h' | missedAfter h _ _ h' =>
      rw [List.countP_append, List.countP_cons_of_pos rfl, hnone h']
      exact Nat.add_le_add (hone h) (Nat.le_refl 1)

theorem countP_not_isManifest_le (h : c.Resolves table hash s xs r s') :
    xs.countP (!·.isManifest) ≤ 2 := by
  cases h with
  | stopped h | found h => exact h.countP_not_isManifest_le.trans (by omega)
  | refused h =>
      rw [List.countP_append]
      exact Nat.add_le_add h.countP_not_isManifest_le (Nat.zero_le 1)
  | stoppedAfter h _ _ h' | foundAfter h _ _ h' | missedAfter h _ _ h' =>
      rw [List.countP_append, List.countP_cons_of_neg (by simp [Exchange.isManifest])]
      exact Nat.add_le_add h.countP_not_isManifest_le h'.countP_not_isManifest_le

/-- The four ways to end: with a record, without the table, without the record after two looks, and
with what made a request fail while the table was not unlisted. -/
theorem outcome (h : c.Resolves table hash s xs r s') :
    (∃ a, r = .ok a ∧ c.Ready table s') ∨
    (r = .error (.unknownTable table) ∧ c.Unlisted table s') ∨
    (r = .error (.notFound table hash) ∧ c.MissedTwice table hash s xs s') ∨
    ∃ e, r = .error e ∧ ¬c.Unlisted table s' ∧ ∃ x ∈ xs, x.failure? = some e := by
  cases h with
  | stopped h =>
      rcases h.unlisted_or_refused with ⟨rfl, hun⟩ | ⟨hun, x, hx, hfail⟩
      · exact .inr (.inl ⟨rfl, hun⟩)
      · exact .inr (.inr (.inr ⟨_, rfl, hun, x, hx, hfail⟩))
  | found h | foundAfter _ _ _ h => exact .inl ⟨_, rfl, h.ready_of_ok⟩
  | refused h _ hfail =>
      exact .inr (.inr (.inr ⟨_, rfl, h.ready_of_ok.not_unlisted, _,
        List.mem_append_right _ (List.mem_singleton_self _), hfail⟩))
  | stoppedAfter _ _ _ h =>
      rcases h.unlisted_or_refused with ⟨rfl, hun⟩ | ⟨hun, x, hx, hfail⟩
      · exact .inr (.inl ⟨rfl, hun⟩)
      · exact .inr (.inr (.inr ⟨_, rfl, hun, x,
          List.mem_append_right _ (List.mem_cons_of_mem _ hx), hfail⟩))
  | missedAfter h hmiss hne h' hmiss' =>
      refine .inr (.inr (.inl ⟨rfl, _, _, _, rfl, h.forced_eq_zero, ?_, ?_, ?_,
        h'.manifest_eq rfl, h'.ready_of_ok, hmiss'⟩))
      · rw [← h.eq_foldl]
        exact ⟨h.ready_of_ok, hmiss⟩
      · rintro heq
        rw [heq] at hne
        cases hne
      · rw [Shelf.forced_append, h.forced_eq_zero, ← h.eq_foldl, Shelf.forced, h.ready_of_ok.isSome,
          Shelf.receive_manifest hne, h'.forced_eq_zero]
        rfl

/-- Who has looked twice in vain reports it. -/
theorem eq_notFound (h : c.Resolves table hash s xs r s')
    (hmissed : c.MissedTwice table hash s xs s') : r = .error (.notFound table hash) := by
  obtain ⟨ys, m, zs, hxs, hforced, ⟨hready, -⟩, hne, hone, -, hready', hmiss⟩ := hmissed
  cases h with
  | stopped h | found h => cases h.forced_eq_zero.symm.trans hone
  | refused h _ hfail =>
      -- The one manifest that was asked for would be the one that was refused.
      cases h.eq_of_ready rfl hxs hforced hready
      obtain ⟨heq, -⟩ := List.cons.inj (List.append_cancel_left hxs)
      rw [heq] at hfail
      simp [Exchange.failure?, hne] at hfail
  | stoppedAfter _ _ _ h => exact absurd hready' h.not_ready_of_error
  | foundAfter _ _ _ _ hfound => cases hfound.symm.trans hmiss
  | missedAfter => rfl

/-- Where the first look finds the record, it is the answer. -/
theorem eq_found (h : c.Resolves table hash s xs r s') {a : RawText} (hxs : xs = ys ++ zs)
    (hforced : s.forced table ys = 0)
    (hfinds : c.Finds table hash (some a) (ys.foldl (Shelf.receive (some table)) s)) :
    s.forced table xs = 0 ∧ r = .ok a := by
  obtain ⟨hready, hfound⟩ := hfinds
  -- A first look that misses would have been at the same time.
  have hmissed {ys₀ zs₀ t} {x : Exchange} (h : c.Ensures table s ys₀ (.ok ()) t)
      (hmiss : t.record? table hash = none) (hx : x.isManifest = true)
      (hxs : ys₀ ++ x :: zs₀ = ys ++ zs) : False := by
    cases h.eq_of_ready hx hxs hforced hready
    rw [← h.eq_foldl, hmiss] at hfound
    cases hfound
  cases h with
  | stopped h =>
      cases zs with
      | nil =>
          rw [List.append_nil] at hxs
          rw [← hxs, ← h.eq_foldl] at hready
          exact absurd hready h.not_ready_of_error
      | cons x zs => exact absurd hready (h.not_ready hxs)
  | found h hrecord =>
      cases zs with
      | nil =>
          rw [List.append_nil] at hxs
          rw [← hxs, ← h.eq_foldl, hrecord] at hfound
          cases hfound
          exact ⟨h.forced_eq_zero, rfl⟩
      | cons x zs => exact absurd hready (h.not_ready hxs)
  | refused h hmiss | stoppedAfter h hmiss | foundAfter h hmiss | missedAfter h hmiss =>
      exact (hmissed h hmiss rfl hxs).elim

end Resolves

/-! ## Calls -/

variable {α σ : Type} (source : Source (StateM σ))

theorem countP_perform_le (call : Call α) {r : Except DefinitionError α}
    (h : Plays (c.perform call) s xs r s') :
    xs.countP Exchange.isManifest ≤ 2 ∧ xs.countP (!·.isManifest) ≤ 2 := by
  have hrefresh {xs r s'} (h : Plays refresh s xs r s') :
      xs.countP Exchange.isManifest ≤ 2 ∧ xs.countP (!·.isManifest) ≤ 2 := by
    rcases plays_refresh h with ⟨_, _, rfl, -⟩ | ⟨_, rfl, -⟩ <;> simp [Exchange.isManifest]
  have hresolve {table hash xs r s'} (h : Plays (c.resolve table hash) s xs r s') :
      xs.countP Exchange.isManifest ≤ 2 ∧ xs.countP (!·.isManifest) ≤ 2 :=
    have h := resolves_of_plays h
    ⟨h.countP_isManifest_le, h.countP_not_isManifest_le⟩
  cases call with
  | manifest =>
      cases hm : s.manifest with
      | none => exact hrefresh (plays_manifest_of_none hm h)
      | some m =>
          obtain ⟨rfl, -⟩ := (plays_manifest_of_some hm).mp h
          simp
  | checkUpdates => exact hrefresh (plays_inside.mp h)
  | loadedVersion table =>
      obtain ⟨rfl, -⟩ := plays_looking.mp h
      simp
  | resolve table hash => exact hresolve h
  | get ρ hash =>
      obtain ⟨r₀, h, -⟩ := plays_get.mp h
      exact hresolve h

/-- A request that failed gives its reason to the call. -/
theorem eq_error_of_refused {call : Call α} {r : Except DefinitionError α} {e : DefinitionError}
    (h : Plays (c.perform call) s xs r s') (hx : ∃ x ∈ xs, x.failure? = some e) : r = .error e := by
  obtain ⟨x, hx, hfail⟩ := hx
  obtain ⟨before, after, hxs⟩ := List.append_of_mem hx
  obtain ⟨reason, hconv, hreason, -⟩ := perform_proper call _ xs _ _ trivial h
  exact hreason e (hconv.failure hxs hfail).2.1

theorem verdict_of_plays {r : Except DefinitionError RawText}
    (hplays : Plays (c.perform (.resolve table hash)) s xs r s') :
    c.Verdict table hash s xs r s' := by
  have h : c.Resolves table hash s xs r s' := resolves_of_plays hplays
  have hrefused {e : DefinitionError} : (∃ x ∈ xs, x.failure? = some e) → r = .error e :=
    eq_error_of_refused hplays
  refine ⟨fun name => ⟨fun heq => ?_, ?_⟩, fun name h' => ⟨fun heq => ?_, ?_⟩, h.eq_found⟩
  · rcases h.outcome with ⟨a, hok, -⟩ | ⟨hun, hunlisted⟩ | ⟨hnot, -⟩ | ⟨e, he, -, hx⟩
    · cases hok.symm.trans heq
    · cases hun.symm.trans heq
      exact .inl ⟨rfl, hunlisted⟩
    · cases hnot.symm.trans heq
    · cases he.symm.trans heq
      exact .inr hx
  · rintro (⟨rfl, hunlisted⟩ | hx)
    · rcases h.outcome with ⟨a, -, hready⟩ | ⟨hun, -⟩ | ⟨-, hmissed⟩ | ⟨e, -, hlisted, -⟩
      · exact absurd hunlisted hready.not_unlisted
      · exact hun
      · obtain ⟨-, -, -, -, -, -, -, -, -, hready, -⟩ := hmissed
        exact absurd hunlisted hready.not_unlisted
      · exact absurd hunlisted hlisted
    · exact hrefused hx
  · rcases h.outcome with ⟨a, hok, -⟩ | ⟨hun, -⟩ | ⟨hnot, hmissed⟩ | ⟨e, he, -, hx⟩
    · cases hok.symm.trans heq
    · cases hun.symm.trans heq
    · cases hnot.symm.trans heq
      exact .inl ⟨rfl, rfl, hmissed⟩
    · cases he.symm.trans heq
      exact .inr hx
  · rintro (⟨rfl, rfl, hmissed⟩ | hx)
    · exact h.eq_notFound hmissed
    · exact hrefused hx

variable (c) in
/-- Whatever the source answers, and whatever the cache holds: a lookup says that there is no such
table exactly when the manifest in force at its end does not list it or a request failed for that
reason, and that there is no such record exactly when it has looked twice in vain, before and after
the one manifest that it asked for, or a request failed for that reason; what the first look finds
is the answer.  No call asks for more than two manifests or two tables. -/
theorem verdict_resolve (st : Standing σ) (table : String) (hash : UInt32) :
    let answered := c.turn source (.resolve table hash) st
    (∃ xs, answered.2.past = st.past ++ xs ∧
      c.Verdict table hash st.shelf xs answered.1 answered.2.shelf) ∧
    ∀ {α : Type} (call : Call α), ∃ xs, (c.turn source call st).2.past = st.past ++ xs ∧
      xs.countP Exchange.isManifest ≤ 2 ∧ xs.countP (!·.isManifest) ≤ 2 := by
  intro answered
  constructor
  · obtain ⟨xs, hpast, hplays⟩ := plays_turn source (.resolve table hash) st
    exact ⟨xs, hpast, verdict_of_plays hplays⟩
  · intro α call
    obtain ⟨xs, hpast, hplays⟩ := plays_turn source call st
    exact ⟨xs, hpast, countP_perform_le call hplays⟩

/-- A table that the same version no longer lists is unknown, although it is held. -/
example : (Cache.turn ⟨"en"⟩ (serial issue) (.resolve "Items" 2)
    { world := [edition "1" "/first", { version := "1" }] }).1 = .error (.unknownTable "Items") := by
  rfl

/-! ## Two issues without the record -/

/-- The second issue lacks the record as the first does, so the lookup asks for both manifests and
both tables; the record that the first issue has is given without the second. -/
theorem verdict_resolve_reissue :
    let c : Cache := ⟨"en"⟩
    let st : Standing (List Manifest) := { world := [edition "1" "/first", edition "2" "/second"] }
    let missed := c.turn (serial issue) (.resolve "Items" 2) st
    let met := c.turn (serial issue) (.resolve "Items" 1) st
    missed.1 = .error (.notFound "Items" 2) ∧
      c.MissedTwice "Items" 2 st.shelf missed.2.past missed.2.shelf ∧
      missed.2.past.countP Exchange.isManifest = 2 ∧ missed.2.past.countP (!·.isManifest) = 2 ∧
      met.1 = .ok ⟨.bool false⟩ ∧ st.shelf.forced "Items" met.2.past = 0 := by
  intro c st missed met
  obtain ⟨⟨xs, hpast, hmissed⟩, -⟩ := verdict_resolve c (serial issue) st "Items" 2
  cases (show missed.2.past = xs from hpast)
  obtain ⟨⟨ys, hpast, hmet⟩, -⟩ := verdict_resolve c (serial issue) st "Items" 1
  cases (show met.2.past = ys from hpast)
  have htwice : c.MissedTwice "Items" 2 st.shelf missed.2.past missed.2.shelf := by
    rcases (hmissed.notFound "Items" 2).mp rfl with ⟨-, -, h⟩ | ⟨x, hx, hfail⟩
    · exact h
    · -- No request failed.
      have hfailures : missed.2.past.filterMap Exchange.failure? = [] := by rfl
      have hmem := List.mem_filterMap.mpr ⟨x, hx, hfail⟩
      rw [hfailures] at hmem
      cases hmem
  obtain ⟨hforced, hok⟩ := hmet.hit (List.append_nil _).symm rfl
    ⟨⟨edition "1" "/first", "/first", rfl, by rfl, rfl⟩, rfl⟩
  exact ⟨rfl, htwice, by rfl, by rfl, hok, hforced⟩

/-- The two errors are not the cache's own alone: where the table is listed and no look has been in
vain, a request that fails with one of them ends the lookup with it.  And a manifest without a
version, which a miss has asked for, lists no table, but does not make the table unknown. -/
theorem not_own_verdict :
    let c : Cache := ⟨"en"⟩
    let failed (e : DefinitionError) :=
      c.turn (serial fun _ => .error e) (.resolve "Items" 1) { world := [edition "1" "/first"] }
    let unversioned : Manifest := { version := "" }
    let emptied := c.turn (serial issue) (.resolve "Items" 2)
      { world := [edition "1" "/first", unversioned] }
    ¬((failed (.unknownTable "Items")).1 = .error (.unknownTable "Items") ↔
        c.Unlisted "Items" (failed (.unknownTable "Items")).2.shelf) ∧
      ¬((failed (.notFound "Items" 1)).1 = .error (.notFound "Items" 1) ↔
        c.MissedTwice "Items" 1 {} (failed (.notFound "Items" 1)).2.past
          (failed (.notFound "Items" 1)).2.shelf) ∧
      ∃ ys, emptied.2.past = ys ++ [.manifest (.ok unversioned)] ∧
        c.Finds "Items" 2 none (ys.foldl (Shelf.receive (some "Items")) {}) ∧
        ¬(emptied.1 = .error (.unknownTable "Items") ↔
          unversioned.tablePath? c.locale "Items" = none) := by
  intro c failed unversioned emptied
  refine ⟨fun h => ?_, fun h => ?_, ?_⟩
  · -- The manifest in force lists the table, which could not be had.
    obtain ⟨m, hm, hnone⟩ := h.mp rfl
    cases (show some (edition "1" "/first") = some m from hm)
    cases (show some "/first" = none from hnone)
  · -- No manifest was asked for after the first.
    obtain ⟨ys, m, zs, -, -, -, -, hforced, -⟩ := h.mp rfl
    cases (show 0 = 1 from hforced)
  · refine ⟨[.manifest (.ok (edition "1" "/first")), .table "/first" (issue "/first")], by rfl,
      ⟨⟨edition "1" "/first", "/first", rfl, by rfl, rfl⟩, rfl⟩, fun h => ?_⟩
    cases (show .error .missingManifest = Except.error (DefinitionError.unknownTable "Items") from
      h.mpr rfl)

end Cache
end Bindery.Definitions
