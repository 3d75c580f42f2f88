import Bindery.Proofs.Definitions.Coherence

/-! # The requests of a run

A request of a run is made for one of its calls, at a moment at which something is on the shelf
(`Cache.requests`).  In a chronicle each request was due when it was made, and what was on the
shelf then is what the requests before it have made of an empty one (`Cache.Chronicle`).  The
requests of every run are a chronicle, which ends with what the run leaves on the shelf
(`Chronicle.requests`), so what holds along chronicles holds at every moment of a run, also in the
middle of a call. -/

namespace Bindery.Definitions

namespace Script

variable {α σ : Type} (source : Source (StateM σ))

/-- What a script asks when it is run alone, each time with what is on the shelf at that moment. -/
def asks : Script α → Shelf → σ → List (Shelf × Exchange)
  | .done _, _, _ => []
  | .look next, s, w => (next s).asks s w
  | .change f next, s, w => next.asks (f s) w
  | .enter _ next, s, w | .leave _ next, s, w => next.asks s w
  | .askManifest next, s, w =>
    let answered := source.manifest.run w
    (s, .manifest answered.1) :: (next answered.1).asks s answered.2
  | .askTable path next, s, w =>
    let answered := (source.table path).run w
    (s, .table path answered.1) :: (next answered.1).asks s answered.2

/-- A recording source writes down what is asked. -/
theorem past_run (x : Script α) (s : Shelf) (w : σ) (past : List Exchange) :
    (((x.run source.recorded).run s).run (w, past)).2.2 =
      past ++ (x.asks source s w).map Prod.snd := by
  induction x generalizing s w past with
  | done a => exact (List.append_nil past).symm
  | look next ih => exact ih s s w past
  | change f next ih => exact ih (f s) w past
  | enter g next ih => exact ih s w past
  | leave g next ih => exact ih s w past
  | askManifest next ih =>
      let answered := source.manifest.run w
      exact (ih answered.1 s answered.2 _).trans (List.append_cons past _ _).symm
  | askTable path next ih =>
      let answered := (source.table path).run w
      exact (ih answered.1 s answered.2 _).trans (List.append_cons past _ _).symm

end Script

/-- A request of a run: the table of the call that makes it, what is on the shelf at that moment,
and what is asked and answered. -/
structure Request where
  table? : Option String
  shelf : Shelf
  exchange : Exchange

namespace Cache

variable (c : Cache)

/-- Each request was due, and the shelf then was what the requests before had made of it. -/
inductive Chronicle : List Request → Shelf → Prop
  | nil : Chronicle [] {}
  | snoc {log s table? x} : Chronicle log s → c.Due table? s x →
      Chronicle (log ++ [⟨table?, s, x⟩]) (s.receive table? x)

variable {α σ : Type} (source : Source (StateM σ))

/-- The requests that a call makes. -/
def requestsOf (call : Call α) (st : Standing σ) : List Request :=
  ((c.perform call).run.asks source st.shelf st.world).map fun (s, x) => ⟨call.table?, s, x⟩

/-- The requests that calls make one after another. -/
def requests : List (Σ α, Call α) → Standing σ → List Request
  | [], _ => []
  | call :: calls, st =>
    c.requestsOf source call.2 st ++ requests calls (c.turn source call.2 st).2

variable {c}

theorem past_after (calls : List (Σ α, Call α)) (st : Standing σ) :
    (c.after source calls st).past =
      st.past ++ (c.requests source calls st).map Request.exchange := by
  induction calls generalizing st with
  | nil => exact (List.append_nil st.past).symm
  | cons call calls ih =>
      have hturn : (c.turn source call.2 st).2.past =
          st.past ++ (c.requestsOf source call.2 st).map Request.exchange := by
        rw [requestsOf, List.map_map]
        exact Script.past_run source (c.perform call.2).run st.shelf st.world st.past
      rw [requests, List.map_append, ← List.append_assoc, ← hturn]
      exact ih (c.turn source call.2 st).2

namespace Chronicle

variable {log : List Request} {s : Shelf}

/-- A request of a chronicle was due, and the requests before it are a chronicle. -/
theorem before {earlier later : List Request} {r : Request}
    (h : c.Chronicle (earlier ++ r :: later) s) :
    c.Chronicle earlier r.shelf ∧ c.Due r.table? r.shelf r.exchange := by
  generalize hlog : earlier ++ r :: later = log at h
  induction h generalizing later with
  | nil => simp at hlog
  | snoc h hdue ih =>
      rcases List.eq_nil_or_concat later with rfl | ⟨later, last, rfl⟩
      · obtain ⟨rfl, hr⟩ := List.append_inj' hlog rfl
        cases hr
        exact ⟨h, hdue⟩
      · rw [List.concat_eq_append, ← List.cons_append, ← List.append_assoc] at hlog
        exact ih (List.append_inj' hlog rfl).1

/-- A script that heeds what it is told goes on with the chronicle. -/
theorem asks {table? : Option String} {Q : α → Shelf → Prop}
    {x : Script (Except DefinitionError α)} {told : Shelf} {reason : Option DefinitionError}
    (h : c.Chronicle log told) (hx : c.Heeds table? Q x s told reason) (w : σ)
    (past : List Exchange) :
    c.Chronicle (log ++ (x.asks source s w).map fun (s, x) => ⟨table?, s, x⟩)
      (((x.run source.recorded).run s).run (w, past)).1.2 := by
  induction x generalizing log s told reason w past with
  | done r =>
      obtain ⟨rfl, -⟩ := hx
      rw [Script.asks, List.map_nil, List.append_nil]
      exact h
  | look next ih => exact ih s h hx w past
  | change f next ih => exact ih h hx w past
  | enter g next ih => exact ih h hx w past
  | leave g next ih => exact ih h hx w past
  | askManifest next ih =>
      obtain ⟨rfl, -, hx⟩ := hx
      let answered := source.manifest.run w
      obtain ⟨hdue, hx⟩ := hx answered.1
      rw [Script.asks, List.map_cons, List.append_cons]
      exact ih answered.1 (h.snoc hdue) hx answered.2 _
  | askTable path next ih =>
      obtain ⟨rfl, -, hx⟩ := hx
      let answered := (source.table path).run w
      obtain ⟨hdue, hx⟩ := hx answered.1
      rw [Script.asks, List.map_cons, List.append_cons]
      exact ih answered.1 (h.snoc hdue) hx answered.2 _

theorem requestsOf (call : Call α) {st : Standing σ} (h : c.Chronicle log st.shelf) :
    c.Chronicle (log ++ c.requestsOf source call st) (c.turn source call st).2.shelf :=
  h.asks source (perform_heedful call st.shelf trivial) st.world st.past

/-- By induction over the calls, each of which goes on with the chronicle of those before. -/
theorem requests (calls : List (Σ α, Call α)) {st : Standing σ} (h : c.Chronicle log st.shelf) :
    c.Chronicle (log ++ c.requests source calls st) (c.after source calls st).shelf := by
  induction calls generalizing log st with
  | nil =>
      rw [Cache.requests, List.append_nil]
      exact h
  | cons call calls ih =>
      rw [Cache.requests, ← List.append_assoc]
      exact ih (h.requestsOf source call.2)

/-- The manifest in force is the last one that was given with a version. -/
theorem manifest_eq (h : c.Chronicle log s) :
    s.manifest = (installed (log.map Request.exchange)).getLast? := by
  induction h with
  | nil => rfl
  | @snoc log s table? x h hdue ih =>
      rw [List.map_append, List.map_singleton, getLast?_installed_concat, ← ih]
      match x with
      | .manifest answer =>
          rw [Shelf.receive]
          cases (Exchange.manifest answer).manifest? with
          | none => rfl
          | some m => rfl
      | .table path (.error e) => rfl
      | .table path (.ok records) =>
          obtain ⟨table, m, rfl, hm, -, -⟩ := hdue
          rw [Shelf.receive_table hm]
          rfl

end Chronicle
end Cache
end Bindery.Definitions
