import Bindery.Proofs.Definitions.Calls

/-! # What a cache holds, and where it comes from

The manifest in force is the last one that the source gave with a version, and a table that is held
came from the path that the manifest in force listed when it was asked for, and is held at that
manifest's version (`Cache.Coherent`).  One exchange of a call keeps this (`Coherent.receive`), and
so do a call and a run of calls, so it holds of every cache over every source
(`Cache.coherent_after`). -/

namespace Bindery.Definitions

/-- The manifests that some exchanges put in force, in order. -/
def installed (past : List Exchange) : List Manifest := past.filterMap Exchange.manifest?

theorem installed_append (past xs : List Exchange) :
    installed (past ++ xs) = installed past ++ installed xs := List.filterMap_append

theorem getLast?_installed_concat (past : List Exchange) (x : Exchange) :
    (installed (past ++ [x])).getLast? = x.manifest?.or (installed past).getLast? := by
  rw [installed_append, List.getLast?_append]
  cases hx : x.manifest? <;> simp [installed, hx]

theorem version_ne_empty_of_mem_installed {past : List Exchange} {m : Manifest}
    (h : m ∈ installed past) : m.version ≠ "" := by
  obtain ⟨x, -, hx⟩ := List.mem_filterMap.mp h
  match x with
  | .manifest (.ok m') =>
      simp only [Exchange.manifest?] at hx
      split at hx
      · cases hx
      · rename_i hne
        cases hx
        exact fun heq => hne (String.isEmpty_iff.mpr heq)

namespace Shelf

variable {s : Shelf} {table? : Option String}

/-- No exchange takes a table off the shelf. -/
theorem isSome_version?_receive {table : String} (x : Exchange)
    (h : (s.version? table).isSome) : ((s.receive table? x).version? table).isSome := by
  match x with
  | .manifest answer =>
      rw [receive]
      cases (Exchange.manifest answer).manifest? with
      | none => exact h
      | some m => exact h
  | .table path (.error e) => exact h
  | .table path (.ok records) =>
      unfold receive
      dsimp only
      split
      · rw [version?, find?_load]
        split
        · rfl
        · exact h
      · exact h

end Shelf

namespace Cache

variable (c : Cache)

/-- The records came at a time from the path that the manifest then in force listed for the table,
and the manifest had the version. -/
def Fetched (past : List Exchange) (table version : String) (records : Records) : Prop :=
  ∃ before path rest m, past = before ++ .table path (.ok records) :: rest ∧
    (installed before).getLast? = some m ∧ m.version = version ∧
    m.tablePath? c.locale table = some path

/-- What is on the shelf comes from the exchanges. -/
structure Coherent (past : List Exchange) (s : Shelf) : Prop where
  manifest : s.manifest = (installed past).getLast?
  table {table version records} : s.tables.find? table = some ⟨version, records⟩ →
    c.Fetched past table version records

variable {c} {past : List Exchange} {s s' : Shelf} {table? : Option String}

theorem Fetched.append {table version : String} {records : Records}
    (h : c.Fetched past table version records) (xs : List Exchange) :
    c.Fetched (past ++ xs) table version records := by
  obtain ⟨before, path, rest, m, rfl, hm⟩ := h
  exact ⟨before, path, rest ++ xs, m, by simp, hm⟩

namespace Coherent

theorem receive (h : c.Coherent past s) {x : Exchange} (hdue : c.Due table? s x) :
    c.Coherent (past ++ [x]) (s.receive table? x) := by
  have hmanifest := getLast?_installed_concat past x
  rw [← h.manifest] at hmanifest
  match x with
  | .manifest answer =>
      rw [Shelf.receive]
      cases hx : (Exchange.manifest answer).manifest? with
      | none => exact ⟨by simp [hmanifest, hx], fun htable => (h.table htable).append _⟩
      | some m =>
          exact ⟨by simp [hmanifest, hx, Shelf.install], fun htable => (h.table htable).append _⟩
  | .table path (.error e) => exact ⟨hmanifest.symm, fun htable => (h.table htable).append _⟩
  | .table path (.ok records) =>
      obtain ⟨due, m, rfl, hm, hpath, -⟩ := hdue
      rw [Shelf.receive_table hm]
      refine ⟨hmanifest.symm, fun {table version held} htable => ?_⟩
      rw [Shelf.find?_load] at htable
      split at htable
      · rename_i heq
        cases htable
        exact ⟨past, path, [], m, rfl, h.manifest.symm.trans hm, rfl, heq ▸ hpath⟩
      · exact (h.table htable).append _

/-- By induction over the conversation: every request was due at its time. -/
theorem converses (h : c.Coherent past s) {xs : List Exchange} {reason : Option DefinitionError}
    (hconv : c.Converses table? s xs reason s') : c.Coherent (past ++ xs) s' := by
  induction hconv generalizing past with
  | silent => rwa [List.append_nil]
  | refused hdue hfail =>
      have hreceive := h.receive hdue
      rwa [Shelf.receive_of_failure? hfail] at hreceive
  | received hdue _ _ ih =>
      rw [List.append_cons]
      exact ih (h.receive hdue)

end Coherent

/-- A table that is held stays held. -/
theorem Converses.isSome_version? {xs : List Exchange} {reason : Option DefinitionError}
    (hconv : c.Converses table? s xs reason s') {table : String} (h : (s.version? table).isSome) :
    (s'.version? table).isSome := by
  induction hconv with
  | silent | refused => exact h
  | received _ _ _ ih => exact ih (Shelf.isSome_version?_receive _ h)

/-! ## Runs of calls -/

variable {σ : Type} (source : Source (StateM σ))

/-- What every call keeps holds after all calls. -/
theorem after_induction {P : Standing σ → Prop}
    (hturn : ∀ {α : Type} (call : Call α) st, P st → P (c.turn source call st).2)
    (calls : List (Σ α, Call α)) {st : Standing σ} (h : P st) : P (c.after source calls st) := by
  induction calls generalizing st with
  | nil => exact h
  | cons call calls ih => exact ih (hturn call.2 st h)

variable {source}

theorem Coherent.after {st : Standing σ} (h : c.Coherent st.past st.shelf)
    (calls : List (Σ α, Call α)) :
    c.Coherent (c.after source calls st).past (c.after source calls st).shelf := by
  refine after_induction source (P := fun st => c.Coherent st.past st.shelf)
    (fun call st h => ?_) calls h
  obtain ⟨xs, reason, hpast, hconv, -⟩ := converses_turn source call st
  rw [hpast]
  exact h.converses hconv

theorem isSome_version?_after {st : Standing σ} {table : String}
    (h : (st.shelf.version? table).isSome) (calls : List (Σ α, Call α)) :
    ((c.after source calls st).shelf.version? table).isSome := by
  refine after_induction source (P := fun st => (st.shelf.version? table).isSome)
    (fun call st h => ?_) calls h
  obtain ⟨xs, reason, -, hconv, -⟩ := converses_turn source call st
  exact hconv.isSome_version? h

variable (c source) in
/-- Whatever the source answers and whatever is called: a manifest in force is the last one that
was given with a version, what is held of a table was fetched for it at the version it is held at,
later calls leave no table unheld, and a record that is resolved is that of its table, held at the
version in force. -/
theorem coherent_after (world : σ) (calls : List (Σ α, Call α)) :
    let st := c.after source calls { world }
    st.shelf.manifest = (installed st.past).getLast? ∧
    (∀ m ∈ st.shelf.manifest, m.version ≠ "") ∧
    (∀ table version records, st.shelf.tables.find? table = some ⟨version, records⟩ →
      c.Fetched st.past table version records) ∧
    (∀ more table, (st.shelf.version? table).isSome →
      ((c.after source more st).shelf.version? table).isSome) ∧
    ∀ table hash r, (c.turn source (.resolve table hash) st).1 = .ok r →
      ∃ records, (c.turn source (.resolve table hash) st).2.shelf.Current table records ∧
        records.find? hash = some r := by
  intro st
  have hst : c.Coherent st.past st.shelf :=
    Coherent.after ⟨rfl, fun h => by cases h⟩ calls
  refine ⟨hst.manifest, fun m hm => ?_, fun _ _ _ => hst.table,
    fun more table h => isSome_version?_after h more, fun table hash r h => ?_⟩
  · rw [hst.manifest] at hm
    exact version_ne_empty_of_mem_installed (List.mem_of_getLast? hm)
  · obtain ⟨-, -, -, -, -, hpromise⟩ := converses_turn source (.resolve table hash) st
    exact hpromise r h

/-! ## A table that is issued again -/

/-- A manifest that lists one table. -/
def edition (version path : String) : Manifest where
  version := version
  paths := ⟨[("en", ⟨[("Items", path)], by simp⟩)], by simp⟩

/-- Gives some manifests one after another, and the last one for good. -/
def serial (tables : String → Except DefinitionError Records) :
    Source (StateM (List Manifest)) where
  manifest := fun
    | [] => (.error .missingManifest, [])
    | [m] => (.ok m, [m])
    | m :: ms => (.ok m, ms)
  table path := fun ms => (tables path, ms)
  label := "serial"

/-- One record, which tells whether it is of the second issue. -/
def issue (path : String) : Except DefinitionError Records :=
  .ok ⟨[(1, ⟨.bool (path == "/second")⟩)], by simp⟩

/-- The table is held at the first version while the manifest of the second is in force; then it
is fetched again. -/
theorem coherent_after_reissue :
    let c : Cache := ⟨"en"⟩
    let st := c.after (serial issue) [⟨_, .resolve "Items" 1⟩, ⟨_, .checkUpdates⟩]
      { world := [edition "1" "/first", edition "2" "/second"] }
    st.shelf.version? "Items" = some "1" ∧ st.shelf.manifest = some (edition "2" "/second") ∧
      (∃ records, c.Fetched st.past "Items" "1" records) ∧
      ∃ records, (c.turn (serial issue) (.resolve "Items" 1) st).2.shelf.Current "Items" records ∧
        records.find? 1 = some ⟨.bool true⟩ := by
  obtain ⟨-, -, hfetched, -, hresolve⟩ := coherent_after ⟨"en"⟩ (serial issue)
    [edition "1" "/first", edition "2" "/second"] [⟨_, .resolve "Items" 1⟩, ⟨_, .checkUpdates⟩]
  refine ⟨by rfl, by rfl, ⟨_, hfetched "Items" "1" ⟨[(1, ⟨.bool false⟩)], by simp⟩ (by rfl)⟩,
    hresolve "Items" 1 ⟨.bool true⟩ (by rfl)⟩

end Cache
end Bindery.Definitions
