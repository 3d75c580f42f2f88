import Bindery.Proofs.Definitions.Coherence

/-! # Answers that are of no use

A request that fails, or a manifest without a version, ends the call that met it: nothing is asked
after it, its reason is the answer of the call, the shelf stays as the exchanges before it made it,
and a table that could not be had is asked for again (`Cache.Refused`).  No call serves records of
another version than that of the manifest in force: where the table is held at another one, the
call begins by asking, or fails (`Cache.refused_turn`). -/

namespace Bindery.Definitions.Cache

variable {α σ : Type} {c : Cache} (source : Source (StateM σ)) {call : Call α} {st : Standing σ}

/-- What is due is not held at the version in force. -/
theorem Due.not_current {table? : Option String} {s : Shelf} {path : String}
    {answer : Except DefinitionError Records} (h : c.Due table? s (.table path answer)) :
    ∃ table m, table? = some table ∧ s.manifest = some m ∧
      m.tablePath? c.locale table = some path ∧ ∀ records, ¬s.Current table records := by
  obtain ⟨table, m, htable, hm, hpath, hv⟩ := h
  refine ⟨table, m, htable, hm, hpath, fun records hcurrent => hv ?_⟩
  rw [hcurrent.version?, hm]
  rfl

/-- How a call begins for a table that is not held at the version in force. -/
theorem opens_turn {table : String} (htable : call.table? = some table)
    (hstale : ∀ records, ¬st.shelf.Current table records) :
    ∃ xs, (c.turn source call st).2.past = st.past ++ xs ∧
      c.Opens table st.shelf xs (c.turn source call st).1 := by
  obtain ⟨xs, hpast, hplays⟩ := plays_turn source call st
  exact ⟨xs, hpast, opens_perform htable hstale hplays⟩

/-- A call asks for a table that is due. -/
theorem asks_turn {path : String} {answer : Except DefinitionError Records}
    (h : c.Due call.table? st.shelf (.table path answer)) :
    ∃ answer' xs, (c.turn source call st).2.past = st.past ++ .table path answer' :: xs := by
  obtain ⟨table, m, htable, hm, hpath, hstale⟩ := h.not_current
  obtain ⟨xs, hpast, hopens⟩ := opens_turn source htable hstale
  generalize (c.turn source call st).1 = served at hopens
  cases hopens with
  | askManifest hnone => cases hnone.symm.trans hm
  | askTable hm' hpath' =>
      cases hm.symm.trans hm'
      cases hpath.symm.trans hpath'
      exact ⟨_, _, hpast⟩
  | unlisted hm' hnone =>
      cases hm.symm.trans hm'
      cases hpath.symm.trans hnone

variable (c call st) in
/-- What becomes of a call that meets an answer of no use between its other exchanges. -/
structure Refused (before : List Exchange) (x : Exchange) (rest : List Exchange)
    (e : DefinitionError) : Prop where
  /-- Nothing is asked afterwards. -/
  last : rest = []
  answer : (c.turn source call st).1 = .error e
  /-- The shelf is what the exchanges before have made of it. -/
  shelf : (c.turn source call st).2.shelf = before.foldl (Shelf.receive call.table?) st.shelf
  /-- The next call for a table that could not be had asks for it. -/
  again {path answer} : x = .table path answer → ∀ {β : Type} (next : Call β),
    next.table? = call.table? → ∃ answer' xs,
      (c.turn source next (c.turn source call st).2).2.past =
        (c.turn source call st).2.past ++ .table path answer' :: xs

variable (c call) in
/-- Whatever the source answers and whatever has been called: every answer of no use ends the call
that meets it, and after any further calls a call for a table serves what is held at the version in
force; what is held at another version it does not serve without asking. -/
theorem refused_turn (world : σ) (calls : List (Σ α, Call α)) :
    let st := c.after source calls { world }
    (∃ xs, (c.turn source call st).2.past = st.past ++ xs ∧
      ∀ before x rest e, xs = before ++ x :: rest → x.failure? = some e →
        c.Refused source call st before x rest e) ∧
    ∀ (later : List (Σ α, Call α)) {β : Type} (next : Call β) (table : String),
      next.table? = some table →
      let st' := c.after source later (c.turn source call st).2
      let served := c.turn source next st'
      (∀ a, served.1 = .ok a → next.Promise a served.2.shelf) ∧
      ((∀ records, ¬st'.shelf.Current table records) →
        ∃ xs, served.2.past = st'.past ++ xs ∧ c.Opens table st'.shelf xs served.1) := by
  intro st
  refine ⟨?_, fun later _ next table htable => ⟨?_, opens_turn source htable⟩⟩
  · obtain ⟨xs, reason, hpast, hconv, hreason, -⟩ := converses_turn source call st
    refine ⟨xs, hpast, fun before x rest e hxs hfail => ?_⟩
    obtain ⟨hrest, heq, hdue⟩ := hconv.failure hxs hfail
    refine ⟨hrest, hreason e heq, hconv.eq_foldl_before hxs hfail, ?_⟩
    rintro path answer rfl _ next htable
    exact asks_turn source (htable ▸ hdue)
  · obtain ⟨-, -, -, -, -, hpromise⟩ :=
      converses_turn source next (c.after source later (c.turn source call st).2)
    exact hpromise

/-! ## A second issue that cannot be had -/

/-- Only the first issue can be had. -/
def firstIssue (path : String) : Except DefinitionError Records :=
  if path == "/first" then issue path else .error (.call (.transport (.status 404 [])))

/-- The request for the second issue fails: the record of the first is not served, the table stays
at the first version, and the next call asks for the second issue again. -/
theorem refused_turn_reissue :
    let c : Cache := ⟨"en"⟩
    let st := c.after (serial firstIssue) [⟨_, .resolve "Items" 1⟩, ⟨_, .checkUpdates⟩]
      { world := [edition "1" "/first", edition "2" "/second"] }
    let left := c.turn (serial firstIssue) (.resolve "Items" 1) st
    left.1 = .error (.call (.transport (.status 404 []))) ∧
      left.2.shelf.version? "Items" = some "1" ∧
      left.2.shelf.manifest = some (edition "2" "/second") ∧
      ∃ answer xs, (c.turn (serial firstIssue) (.resolve "Items" 2) left.2).2.past =
        left.2.past ++ .table "/second" answer :: xs := by
  obtain ⟨⟨xs, hpast, hrefused⟩, -⟩ := refused_turn ⟨"en"⟩ (serial firstIssue)
    (.resolve "Items" 1) [edition "1" "/first", edition "2" "/second"]
    [⟨_, .resolve "Items" 1⟩, ⟨_, .checkUpdates⟩]
  have hxs : xs = [] ++ .table "/second" (.error (.call (.transport (.status 404 [])))) :: [] :=
    List.append_cancel_left (hpast.symm.trans (by rfl))
  have hends := hrefused [] _ [] _ hxs rfl
  exact ⟨hends.answer, by rw [hends.shelf]; rfl, by rw [hends.shelf]; rfl,
    hends.again rfl (.resolve "Items" 2) rfl⟩

end Bindery.Definitions.Cache
