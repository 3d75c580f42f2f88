import Bindery.Proofs.Definitions.Requests

/-! # What is downloaded in a run

A request for a table that succeeds is a download of the table at the version of the manifest in
force.  A table is held at the version of its last download (`Chronicle.version?_eq`), and is asked
for only when the manifest has another one, so two downloads of a table that follow one another
differ in their versions.  The version of an earlier download has been replaced since by that of the
last one (`Chronicle.replaced`): where versions that have been replaced do not come back, nothing is
downloaded twice (`Cache.downloads_after`). -/

namespace Bindery.Definitions

/-- The table and the version that the answer of a request is put on the shelf under. -/
def Request.download? (r : Request) : Option (String × String) :=
  match r.exchange, r.table?, r.shelf.manifest with
  | .table _ (.ok _), some table, some m => some (table, m.version)
  | _, _, _ => none

/-- The tables with the versions that they were downloaded at, in the order of the requests. -/
def downloads (log : List Request) : List (String × String) := log.filterMap Request.download?

/-- The versions of the manifests that requests put in force, in order. -/
def versions (log : List Request) : List String :=
  (installed (log.map Request.exchange)).map Manifest.version

/-- The version of a table's last download. -/
def lastVersion? (ds : List (String × String)) (table : String) : Option String :=
  ds.reverse.lookup table

/-- A version that another one has replaced does not come back. -/
def NoReturn (vs : List String) : Prop := ∀ v w, [v, w, v].Sublist vs → w = v

theorem downloads_concat (log : List Request) (r : Request) :
    downloads (log ++ [r]) = downloads log ++ r.download?.toList := by
  rw [downloads, List.filterMap_append, downloads]
  cases h : r.download? <;> simp [h]

theorem versions_sublist_concat (log : List Request) (r : Request) :
    (versions log).Sublist (versions (log ++ [r])) := by
  rw [versions, versions, List.map_append, installed_append, List.map_append]
  exact List.sublist_append_left _ _

theorem lastVersion?_concat (ds : List (String × String)) (table version other : String) :
    lastVersion? (ds ++ [(table, version)]) other =
      if other = table then some version else lastVersion? ds other := by
  rw [lastVersion?, List.reverse_append, List.reverse_singleton, List.singleton_append,
    List.lookup_cons, lastVersion?]
  by_cases h : other = table
  · simp [h]
  · simp [h, beq_false_of_ne h]

theorem exists_lastVersion? {ds : List (String × String)} {table version : String}
    (h : (table, version) ∈ ds) : ∃ last, lastVersion? ds table = some last := by
  apply Option.isSome_iff_exists.mp
  exact List.lookup_isSome_iff.mpr ⟨_, List.mem_reverse.mpr h, beq_self_eq_true table⟩

/-- What does not end a list with the list's last element can be continued by it. -/
theorem sublist_of_getLast? {vs l : List String} {w v : String} (h : (l ++ [w]).Sublist vs)
    (hlast : vs.getLast? = some v) (hne : w ≠ v) : (l ++ [w] ++ [v]).Sublist vs := by
  obtain ⟨before, rfl⟩ := List.getLast?_eq_some_iff.mp hlast
  obtain ⟨l₁, l₂, heq, h₁, h₂⟩ := List.sublist_append_iff.mp h
  rcases List.sublist_singleton.mp h₂ with rfl | rfl
  · rw [heq, List.append_nil]
    exact h₁.append (List.Sublist.refl [v])
  · obtain ⟨-, hw⟩ := List.append_inj' heq rfl
    exact absurd (List.head_eq_of_cons_eq hw) hne

namespace Cache

variable {c : Cache} {log : List Request} {s : Shelf} {table? : Option String} {x : Exchange}

/-- A request that is due downloads nothing and leaves the tables at their versions, or it downloads
a table that is not held at the version in force, which it is then held at. -/
theorem Due.download (h : c.Due table? s x) :
    (Request.download? ⟨table?, s, x⟩ = none ∧
      ∀ other, (s.receive table? x).version? other = s.version? other) ∨
    ∃ table m, Request.download? ⟨table?, s, x⟩ = some (table, m.version) ∧
      s.manifest = some m ∧ x.manifest? = none ∧ s.version? table ≠ some m.version ∧
      ∀ other, (s.receive table? x).version? other =
        if other = table then some m.version else s.version? other := by
  match x with
  | .manifest answer =>
      refine .inl ⟨rfl, fun other => ?_⟩
      rw [Shelf.receive]
      cases (Exchange.manifest answer).manifest? with
      | none => rfl
      | some m => rfl
  | .table path (.error e) => exact .inl ⟨rfl, fun _ => rfl⟩
  | .table path (.ok records) =>
      obtain ⟨table, m, rfl, hm, -, hv⟩ := h
      refine .inr ⟨table, m, by simp [Request.download?, hm], hm, rfl, hv, fun other => ?_⟩
      rw [Shelf.receive_table hm, Shelf.version?, Shelf.find?_load, Shelf.version?]
      split
      · rfl
      · rfl

namespace Chronicle

/-- A table is held at the version of its last download. -/
theorem version?_eq (h : c.Chronicle log s) (table : String) :
    s.version? table = lastVersion? (downloads log) table := by
  induction h with
  | nil => rfl
  | snoc h hdue ih =>
      rw [downloads_concat]
      rcases hdue.download with ⟨hnone, hv⟩ | ⟨other, m, hsome, -, -, -, hv⟩
      · rw [hv, hnone, ih, Option.toList_none, List.append_nil]
      · rw [hv, hsome, ih, Option.toList_some, lastVersion?_concat]

theorem getLast?_versions (h : c.Chronicle log s) :
    (versions log).getLast? = s.manifest.map Manifest.version := by
  rw [versions, List.getLast?_map, h.manifest_eq]

/-- What is downloaded is a version in force, which differs from that of the table's last
download. -/
theorem download (h : c.Chronicle log s) (hdue : c.Due table? s x) {table version : String}
    (hdown : Request.download? ⟨table?, s, x⟩ = some (table, version)) :
    (versions log).getLast? = some version ∧ lastVersion? (downloads log) table ≠ some version := by
  rcases hdue.download with ⟨hnone, -⟩ | ⟨other, m, hsome, hm, -, hv, -⟩
  · cases hnone.symm.trans hdown
  · cases hsome.symm.trans hdown
    rw [h.getLast?_versions, hm, ← h.version?_eq]
    exact ⟨rfl, hv⟩

/-- The version of a download is that of the table's last one, or this one has replaced it. -/
theorem replaced (h : c.Chronicle log s) {table version last : String}
    (hmem : (table, version) ∈ downloads log)
    (hlast : lastVersion? (downloads log) table = some last) :
    version = last ∧ version ∈ versions log ∨ [version, last].Sublist (versions log) := by
  induction h generalizing last with
  | nil => cases hmem
  | @snoc log s table? x h hdue ih =>
      have hmono := versions_sublist_concat log ⟨table?, s, x⟩
      rw [downloads_concat] at hmem hlast
      cases hdown : Request.download? ⟨table?, s, x⟩ with
      | none =>
          rw [hdown, Option.toList_none, List.append_nil] at hmem hlast
          exact (ih hmem hlast).imp (And.imp_right (hmono.subset ·)) (·.trans hmono)
      | some d =>
          obtain ⟨other, v⟩ := d
          obtain ⟨hv, hne⟩ := h.download hdue hdown
          rw [hdown, Option.toList_some, lastVersion?_concat] at hlast
          rw [hdown, Option.toList_some, List.mem_append, List.mem_singleton] at hmem
          rcases hmem with hmem | heq
          · split at hlast
            · rename_i hother
              subst hother
              cases hlast
              -- The last download so far was of another version, which is replaced now.
              obtain ⟨w, hw⟩ := exists_lastVersion? hmem
              have hwv : w ≠ last := fun heq => hne (heq ▸ hw)
              rcases ih hmem hw with ⟨rfl, hin⟩ | hsub
              · have hsub := List.singleton_sublist.mpr hin
                exact .inr ((sublist_of_getLast? (l := []) hsub hv hwv).trans hmono)
              · have hsub := sublist_of_getLast? (l := [version]) hsub hv hwv
                have hdrop : [version, last].Sublist [version, w, last] := by simp
                exact .inr (hdrop.trans (hsub.trans hmono))
            · exact (ih hmem hlast).imp (And.imp_right (hmono.subset ·)) (·.trans hmono)
          · cases heq
            rw [if_pos rfl] at hlast
            cases hlast
            exact .inl ⟨rfl, hmono.subset (List.mem_of_getLast? hv)⟩

/-- Where no version comes back nothing is downloaded twice. -/
theorem downloads_nodup (h : c.Chronicle log s) (hback : NoReturn (versions log)) :
    (downloads log).Nodup := by
  induction h with
  | nil => exact List.nodup_nil
  | @snoc log s table? x h hdue ih =>
      have hback : NoReturn (versions log) :=
        fun v w hsub => hback v w (hsub.trans (versions_sublist_concat log _))
      rw [downloads_concat]
      cases hdown : Request.download? ⟨table?, s, x⟩ with
      | none =>
          rw [Option.toList_none, List.append_nil]
          exact ih hback
      | some d =>
          obtain ⟨table, v⟩ := d
          obtain ⟨hv, hne⟩ := h.download hdue hdown
          rw [Option.toList_some, ← List.concat_eq_append]
          refine (ih hback).concat fun hmem => ?_
          obtain ⟨w, hw⟩ := exists_lastVersion? hmem
          have hwv : w ≠ v := fun heq => hne (heq ▸ hw)
          rcases h.replaced hmem hw with ⟨heq, -⟩ | hsub
          · exact hwv heq.symm
          · exact hwv (hback v w (sublist_of_getLast? (l := [v]) hsub hv hwv))

/-- Each download is of another version than the one before it of the same table. -/
theorem lastVersion?_ne (h : c.Chronicle log s) {earlier later : List (String × String)}
    {table version : String} (hsplit : downloads log = earlier ++ (table, version) :: later) :
    lastVersion? earlier table ≠ some version := by
  obtain ⟨before, rest, rfl, rfl, hrest⟩ := List.filterMap_eq_append_iff.mp hsplit
  obtain ⟨idle, r, after, rfl, hidle, hdown, -⟩ := List.filterMap_eq_cons_iff.mp hrest
  rw [← List.append_assoc] at h
  obtain ⟨hbefore, hdue⟩ := h.before
  have heq : downloads (before ++ idle) = before.filterMap Request.download? := by
    rw [downloads, List.filterMap_append, List.filterMap_eq_nil_iff.mpr hidle, List.append_nil]
  rw [← heq]
  exact (hbefore.download hdue hdown).2

end Chronicle

variable (c) {α σ : Type} (source : Source (StateM σ))

/-- Whatever the source answers and whatever is called: when something is asked for it is due, a
table only while it is held at another version than that of the manifest in force, and what a table
is held at is the version of its last download.  So two downloads of a table that follow one
another differ in their versions, and where no version comes back nothing is downloaded twice. -/
theorem downloads_after (world : σ) (calls : List (Σ α, Call α)) :
    let st := c.after source calls { world }
    let log := c.requests source calls { world }
    log.map Request.exchange = st.past ∧
    (∀ earlier r later, log = earlier ++ r :: later →
      c.Due r.table? r.shelf r.exchange ∧
      r.shelf.manifest = (installed (earlier.map Request.exchange)).getLast? ∧
      ∀ table, r.shelf.version? table = lastVersion? (downloads earlier) table) ∧
    (∀ table, st.shelf.version? table = lastVersion? (downloads log) table) ∧
    (∀ earlier table version later, downloads log = earlier ++ (table, version) :: later →
      lastVersion? earlier table ≠ some version) ∧
    (NoReturn (versions log) → (downloads log).Nodup) := by
  intro st log
  have h : c.Chronicle ([] ++ log) st.shelf := Chronicle.requests source calls .nil
  rw [List.nil_append] at h
  refine ⟨(past_after source calls { world }).symm, fun earlier r later hlog => ?_, h.version?_eq,
    fun earlier table version later => h.lastVersion?_ne, h.downloads_nodup⟩
  rw [hlog] at h
  obtain ⟨hbefore, hdue⟩ := h.before
  exact ⟨hdue, hbefore.manifest_eq, hbefore.version?_eq⟩

/-! ## A table in two issues -/

/-- A miss puts the second issue in force and downloads the table again; the next miss puts it in
force once more, and downloads nothing. -/
theorem downloads_after_reissue :
    let log := Cache.requests ⟨"en"⟩ (serial issue)
      [⟨_, .resolve "Items" 1⟩, ⟨_, .resolve "Items" 2⟩, ⟨_, .resolve "Items" 2⟩]
      { world := [edition "1" "/first", edition "2" "/second"] }
    versions log = ["1", "2", "2"] ∧ downloads log = [("Items", "1"), ("Items", "2")] ∧
      (downloads log).Nodup := by
  obtain ⟨-, -, -, -, hnodup⟩ := downloads_after ⟨"en"⟩ (serial issue)
    [edition "1" "/first", edition "2" "/second"]
    [⟨_, .resolve "Items" 1⟩, ⟨_, .resolve "Items" 2⟩, ⟨_, .resolve "Items" 2⟩]
  refine ⟨by rfl, by rfl, hnodup fun v w h => ?_⟩
  change [v, w, v].Sublist ["1", "2", "2"] at h
  obtain ⟨hv, -, hv'⟩ : v = "1" ∧ w = "2" ∧ v = "2" := by simpa [List.cons_sublist_cons'] using h
  exact absurd (hv.symm.trans hv') (by decide)

/-- Where the first version comes back it is downloaded again. -/
example :
    downloads (Cache.requests ⟨"en"⟩ (serial issue)
      [⟨_, .resolve "Items" 2⟩, ⟨_, .resolve "Items" 2⟩]
      { world := [edition "1" "/first", edition "2" "/second", edition "1" "/first"] }) =
        [("Items", "1"), ("Items", "2"), ("Items", "1")] := by
  rfl

end Cache
end Bindery.Definitions
