import Mathlib.Data.Finset.Basic
import Bindery.Definitions.Cache
import Bindery.Proofs.Definitions.Exchange
import Bindery.Proofs.Dictionary

/-! # What simultaneous lookups settle

While the source does not change, all that happens to the shelf is that its manifest and its tables
are settled: each is put where it was missing or of another version, once, by whoever is inside its
gate (`Scene.Shows`).  A script fits if, whatever the others settle meanwhile, it changes only what
it holds the gate of, enters gates in one order, asks for something only at the expense of a credit,
and ends as it should (`Scene.Fits`).  The credit for what is not settled lies inside its gate; the
credit for asking again has to be brought along.  Scripts that fit are closed under sequencing, and
a lookup fits with its answer (`Scene.fits_resolve`), which it therefore also gives alone
(`Scene.Fits.run`). -/

namespace Bindery.Definitions

open Json Attempt

theorem Script.andThen_done {α : Type} (x : Script α) : x.andThen .done = x := by
  induction x <;> simp_all [andThen]

/-- Gates are entered from the higher to the lower. -/
def Gate.rank : Gate → Nat
  | .manifest => 0
  | .table _ => 1

/-- A cache and a source with one manifest, and for each table the records it is held with or would
be fetched with. -/
structure Scene where
  cache : Cache
  source : Source Id
  served : Manifest
  records : String → Records
  serves : source.manifest = .ok served

/-- Later, more may be settled, but nothing behind the gates that are held. -/
structure Later (held : Finset Gate) (before after : Gate → Bool) : Prop where
  settled {g} : before g = true → after g = true
  held {g} : g ∈ held → after g = before g

namespace Later

variable {held held' : Finset Gate} {a b c : Gate → Bool} {g : Gate}

theorem refl (held : Finset Gate) (a : Gate → Bool) : Later held a a := ⟨id, fun _ => rfl⟩

theorem trans (h : Later held a b) (h' : Later held b c) : Later held a c :=
  ⟨fun hg => h'.settled (h.settled hg), fun hg => (h'.held hg).trans (h.held hg)⟩

theorem mono (h : Later held a b) (hsub : held' ⊆ held) : Later held' a b :=
  ⟨h.settled, fun hg => h.held (hsub hg)⟩

/-- Settling what others have no gate of. -/
theorem update (hg : g ∉ held) (a : Gate → Bool) : Later held a (Function.update a g true) where
  settled {g'} ha := by
    rw [Function.update_apply]
    split
    · rfl
    · exact ha
  held hg' := Function.update_of_ne (ne_of_mem_of_not_mem hg' hg) _ _

theorem update_both (h : Later held a b) (g : Gate) :
    Later held (Function.update a g true) (Function.update b g true) where
  settled {g'} ha := by
    by_cases hg' : g' = g
    · rw [hg', Function.update_self]
    · rw [Function.update_of_ne hg'] at ha ⊢
      exact h.settled ha
  held {g'} hmem := by
    by_cases hg' : g' = g
    · rw [hg', Function.update_self, Function.update_self]
    · rw [Function.update_of_ne hg', Function.update_of_ne hg', h.held hmem]

end Later

/-- What a script has to account for: the gates it holds, its credit, and what it knows to be
settled. -/
structure Account where
  held : Finset Gate
  credit : List Gate
  settled : Gate → Bool

namespace Scene

variable (sc : Scene)

/-- The shelf when some things are settled. -/
structure Shows (settled : Gate → Bool) (s : Shelf) : Prop where
  manifest : s.manifest = if settled .manifest then some sc.served else none
  versioned : settled .manifest = true → sc.served.version.isEmpty = false
  table {t} : settled (.table t) = true →
    s.tables.find? t = some ⟨sc.served.version, sc.records t⟩
  due {t} : settled (.table t) = false → s.version? t ≠ some sc.served.version ∧
    ∀ path records, sc.served.tablePath? sc.cache.locale t = some path →
      sc.source.table path = .ok records → records = sc.records t

/-- The credit inside a gate; a manifest without a version cannot be settled. -/
def supply (settled : Gate → Bool) (g : Gate) : List Gate :=
  if settled g || (g == .manifest && sc.served.version.isEmpty) then [] else [g]

/-- A user of a table can go on with the script, whatever others settle, and ends as asked. -/
def Fits {α : Type} (table : String) (Q : α → Account → Prop) : Script α → Account → Prop
  | .done a, A => Q a A
  | .look next, A => ∀ settled s, Later A.held A.settled settled → sc.Shows settled s →
      Fits table Q (next s) { A with settled }
  | .change f next, A => ∃ g ∈ A.held,
      (∀ settled s, Later A.held A.settled settled → sc.Shows settled s →
        sc.Shows (Function.update settled g true) (f s)) ∧
      Fits table Q next { A with settled := Function.update A.settled g true }
  | .enter g next, A => (∀ g' ∈ A.held, g.rank < g'.rank) ∧
      ∀ settled, Later A.held A.settled settled →
        Fits table Q next ⟨insert g A.held, sc.supply settled g ++ A.credit, settled⟩
  | .leave g next, A => g ∈ A.held ∧ ∃ credit, A.credit = sc.supply A.settled g ++ credit ∧
      Fits table Q next ⟨A.held.erase g, credit, A.settled⟩
  | .askManifest next, A => ∃ credit, A.credit = .manifest :: credit ∧
      Fits table Q (next sc.source.manifest) { A with credit }
  | .askTable path next, A => ∃ credit, A.credit = .table table :: credit ∧
      sc.served.tablePath? sc.cache.locale table = some path ∧
      Fits table Q (next (sc.source.table path)) { A with credit }

/-- The end of what is done inside a gate: the credit for what is not settled stays inside. -/
def Within {α : Type} (g : Gate) (held : Finset Gate) (Q : α → Account → Prop) (a : α)
    (A : Account) : Prop :=
  A.held = insert g held ∧ ∃ rest, A.credit = sc.supply A.settled g ++ rest ∧
    Q a ⟨held, rest, A.settled⟩

variable {sc} {α β : Type} {table : String} {A : Account}

theorem Within.mono {g : Gate} {held : Finset Gate} {P Q : α → Account → Prop} {a : α}
    (h : sc.Within g held P a A) (hQ : ∀ B, P a B → Q a B) : sc.Within g held Q a A := by
  obtain ⟨hheld, rest, hcredit, hP⟩ := h
  exact ⟨hheld, rest, hcredit, hQ _ hP⟩

namespace Fits

theorem andThen {P : α → Account → Prop} {Q : β → Account → Prop} {f : α → Script β}
    {x : Script α} (h : sc.Fits table P x A) (hf : ∀ a B, P a B → sc.Fits table Q (f a) B) :
    sc.Fits table Q (x.andThen f) A := by
  induction x generalizing A with
  | done a => exact hf a A h
  | look next ih => exact fun settled s hlater hshows => ih s (h settled s hlater hshows)
  | change g next ih =>
      obtain ⟨g, hg, hchange, h⟩ := h
      exact ⟨g, hg, hchange, ih h⟩
  | enter g next ih => exact ⟨h.1, fun settled hlater => ih (h.2 settled hlater)⟩
  | leave g next ih =>
      obtain ⟨hg, credit, hcredit, h⟩ := h
      exact ⟨hg, credit, hcredit, ih h⟩
  | askManifest next ih =>
      obtain ⟨credit, hcredit, h⟩ := h
      exact ⟨credit, hcredit, ih _ h⟩
  | askTable path next ih =>
      obtain ⟨credit, hcredit, hpath, h⟩ := h
      exact ⟨credit, hcredit, hpath, ih _ h⟩

theorem mono {P Q : α → Account → Prop} {x : Script α} (h : sc.Fits table P x A)
    (hQ : ∀ a B, P a B → Q a B) : sc.Fits table Q x A := by
  rw [← x.andThen_done]
  exact h.andThen hQ

/-- Alone, nothing else happens: the script ends as asked. -/
theorem run {Q : α → Account → Prop} {x : Script α} (h : sc.Fits table Q x A) {s : Shelf}
    (hs : sc.Shows A.settled s) : ∃ B, Q ((x.run sc.source).run s).1 B := by
  induction x generalizing A s with
  | done a => exact ⟨A, h⟩
  | look next ih => exact ih s (h A.settled s (.refl _ _) hs) hs
  | change f next ih =>
      obtain ⟨g, hg, hf, h⟩ := h
      exact ih h (hf A.settled s (.refl _ _) hs)
  | enter g next ih => exact ih (h.2 A.settled (.refl _ _)) hs
  | leave g next ih =>
      obtain ⟨-, credit, -, h⟩ := h
      exact ih h hs
  | askManifest next ih =>
      obtain ⟨credit, -, h⟩ := h
      exact ih _ h hs
  | askTable path next ih =>
      obtain ⟨credit, -, -, h⟩ := h
      exact ih _ h hs

/-! ## Attempts -/

variable {P : Except DefinitionError α → Account → Prop}
  {Q : Except DefinitionError β → Account → Prop} {f : α → Attempt β} {held : Finset Gate}
  {credit : List Gate} {S : Gate → Bool}

theorem bind {x : Attempt α} (h : sc.Fits table P x.run A)
    (hok : ∀ a B, P (.ok a) B → sc.Fits table Q (f a).run B)
    (herror : ∀ e B, P (.error e) B → Q (.error e) B) : sc.Fits table Q (x >>= f).run A :=
  andThen (x := x.run) (f := ExceptT.bindCont f) h fun r B hr => match r with
    | .ok a => hok a B hr
    | .error e => herror e B hr

theorem bind_error {x : Attempt α} {e : DefinitionError} {R : Account → Prop}
    (h : sc.Fits table (fun r B => r = .error e ∧ R B) x.run A) :
    sc.Fits table (fun r B => r = .error e ∧ R B) (x >>= f).run A := by
  refine h.bind (fun _ _ h => nomatch h.1) fun e' B h => ⟨?_, h.2⟩
  rw [Except.error.inj h.1]

theorem looking_bind {g : Shelf → α} (h : ∀ S' s, Later held S S' → sc.Shows S' s →
      sc.Fits table Q (f (g s)).run ⟨held, credit, S'⟩) :
    sc.Fits table Q (looking g >>= f).run ⟨held, credit, S⟩ := h

theorem inside {g : Gate} {x : Attempt β} (hrank : ∀ g' ∈ held, g.rank < g'.rank)
    (h : ∀ S', Later held S S' → sc.Fits table (sc.Within g held Q) x.run
      ⟨insert g held, sc.supply S' g ++ credit, S'⟩) :
    sc.Fits table Q (inside g x).run ⟨held, credit, S⟩ := by
  have hg : g ∉ held := fun hmem => Nat.lt_irrefl _ (hrank g hmem)
  refine ⟨hrank, fun S' hlater => andThen (h S' hlater) fun r B hB => ?_⟩
  obtain ⟨hheld, rest, hcredit, hQ⟩ := hB
  refine ⟨hheld ▸ Finset.mem_insert_self g _, rest, hcredit, ?_⟩
  rwa [hheld, Finset.erase_insert hg]

end Fits

/-! ## What is settled -/

variable {held : Finset Gate} {credit : List Gate} {S : Gate → Bool} {s : Shelf}

theorem supply_of_settled {g : Gate} (h : S g = true) : sc.supply S g = [] := by
  simp [supply, h]

theorem supply_manifest (hv : sc.served.version.isEmpty = false) (h : S .manifest = false) :
    sc.supply S .manifest = [.manifest] := by
  simp [supply, h, hv]

theorem supply_manifest_of_isEmpty (hv : sc.served.version.isEmpty = true) (S : Gate → Bool) :
    sc.supply S .manifest = [] := by
  simp [supply, hv]

theorem supply_table (h : S (.table table) = false) :
    sc.supply S (.table table) = [.table table] := by
  simp [supply, h]

namespace Shows

theorem manifest_of_settled (h : sc.Shows S s) (hS : S .manifest = true) :
    s.manifest = some sc.served := by
  rw [h.manifest, hS, if_pos rfl]

theorem manifest_of_not_settled (h : sc.Shows S s) (hS : S .manifest = false) :
    s.manifest = none := by
  simp [h.manifest, hS]

theorem manifest_of_isEmpty (h : sc.Shows S s) (hv : sc.served.version.isEmpty = true) :
    s.manifest = none :=
  h.manifest_of_not_settled <| Bool.eq_false_iff.mpr fun hS =>
    Bool.false_ne_true ((h.versioned hS).symm.trans hv)

theorem version?_eq_iff (h : sc.Shows S s) {t : String} :
    s.version? t = some sc.served.version ↔ S (.table t) = true := by
  cases hS : S (.table t) with
  | true => simp [Shelf.version?, h.table hS]
  | false => simp [(h.due hS).1]

theorem record?_eq (h : sc.Shows S s) {t : String} (hS : S (.table t) = true) (hash : UInt32) :
    s.record? t hash = (sc.records t).find? hash := by
  rw [Shelf.record?, h.table hS]
  rfl

theorem install (h : sc.Shows S s) (hv : sc.served.version.isEmpty = false) :
    sc.Shows (Function.update S .manifest true) (s.install sc.served) where
  manifest := by rw [Function.update_self]; rfl
  versioned _ := hv
  table ht := h.table (by rwa [Function.update_of_ne (by nofun)] at ht)
  due ht := h.due (by rwa [Function.update_of_ne (by nofun)] at ht)

theorem load (h : sc.Shows S s) (t : String) :
    sc.Shows (Function.update S (.table t) true)
      (s.load t sc.served.version (sc.records t)) where
  manifest := by rw [Function.update_of_ne (by nofun)]; exact h.manifest
  versioned hS := h.versioned (by rwa [Function.update_of_ne (by nofun)] at hS)
  table {t'} ht' := by
    rw [Shelf.load, Dict.find?_insert]
    split
    · rename_i heq
      rw [heq]
    · rename_i hne
      rw [Function.update_of_ne (fun heq => hne (Gate.table.inj heq))] at ht'
      exact h.table ht'
  due {t'} ht' := by
    have hne : t' ≠ t := by
      rintro rfl
      rw [Function.update_self] at ht'
      cases ht'
    rw [Function.update_of_ne (fun heq => hne (Gate.table.inj heq))] at ht'
    rw [Shelf.version?, Shelf.load, Dict.find?_insert, if_neg hne]
    exact h.due ht'

end Shows

/-! ## The calls -/

/-- The call returns with this credit; more may be settled, and what is behind these gates is. -/
def Settles (held : Finset Gate) (credit : List Gate) (S : Gate → Bool) (gates : List Gate) (a : α)
    (r : Except DefinitionError α) (B : Account) : Prop :=
  r = .ok a ∧ ∃ S', B = ⟨held, credit, S'⟩ ∧ Later held S S' ∧ ∀ g ∈ gates, S' g = true

theorem Settles.after {S₀ : Gate → Bool} {gates : List Gate} {a : α}
    {r : Except DefinitionError α} {B : Account} (hlater : Later held S₀ S)
    (h : Settles held credit S gates a r B) : Settles held credit S₀ gates a r B := by
  obtain ⟨hr, S', hB, hlater', hS'⟩ := h
  exact ⟨hr, S', hB, hlater.trans hlater', hS'⟩

/-- Asking for a manifest with a version settles it. -/
theorem fits_refresh (hv : sc.served.version.isEmpty = false) (hg : .manifest ∉ held) :
    sc.Fits table (sc.Within .manifest held (Settles held credit S [.manifest] sc.served))
      refresh.run ⟨insert .manifest held, .manifest :: credit, S⟩ := by
  unfold refresh
  refine .bind (P := fun r B => r = .ok sc.served ∧ B = ⟨insert .manifest held, credit, S⟩)
    ⟨credit, rfl, sc.serves, rfl⟩ ?_ (fun _ _ h => nomatch h.1)
  rintro m B ⟨⟨⟩, rfl⟩
  simp only [hv, Bool.false_eq_true, if_false]
  have hS : Function.update S .manifest true .manifest = true := Function.update_self ..
  refine ⟨.manifest, Finset.mem_insert_self _ _, fun _ _ _ hs => hs.install hv, rfl, credit, ?_,
    rfl, _, rfl, .update hg S, by simp⟩
  rw [supply_of_settled hS]
  rfl

/-- A manifest without a version is none. -/
theorem fits_refresh_of_isEmpty (hv : sc.served.version.isEmpty = true) :
    sc.Fits table (sc.Within .manifest held fun r B => r = .error .missingManifest ∧ B.held = held)
      refresh.run ⟨insert .manifest held, .manifest :: credit, S⟩ := by
  unfold refresh
  refine .bind (P := fun r B => r = .ok sc.served ∧ B = ⟨insert .manifest held, credit, S⟩)
    ⟨credit, rfl, sc.serves, rfl⟩ ?_ (fun _ _ h => nomatch h.1)
  rintro m B ⟨⟨⟩, rfl⟩
  simp only [hv, if_true]
  refine ⟨rfl, credit, ?_, rfl, rfl⟩
  rw [supply_manifest_of_isEmpty hv]
  rfl

/-- The manifest in force is settled, inside its gate if it is not yet. -/
theorem fits_manifest (hv : sc.served.version.isEmpty = false)
    (hrank : ∀ g ∈ held, Gate.manifest.rank < g.rank) :
    sc.Fits table (Settles held credit S [.manifest] sc.served) manifest.run ⟨held, credit, S⟩ := by
  have hg : .manifest ∉ held := fun hmem => Nat.lt_irrefl _ (hrank _ hmem)
  unfold manifest
  refine .looking_bind fun S₁ s₁ hlater₁ hs₁ => ?_
  cases hS₁ : S₁ .manifest with
  | true =>
      rw [hs₁.manifest_of_settled hS₁]
      exact ⟨rfl, S₁, rfl, hlater₁, by simpa using hS₁⟩
  | false =>
      rw [hs₁.manifest_of_not_settled hS₁]
      -- The user looks again inside the gate, where nobody else settles the manifest any more.
      refine .inside hrank fun S₂ hlater₂ => .looking_bind fun S₃ s₃ hlater₃ hs₃ => ?_
      have hgate : S₃ .manifest = S₂ .manifest := hlater₃.held (Finset.mem_insert_self _ _)
      have hlater : Later held S S₃ :=
        (hlater₁.trans hlater₂).trans (hlater₃.mono (Finset.subset_insert _ _))
      cases hS₃ : S₃ .manifest with
      | true =>
          rw [hs₃.manifest_of_settled hS₃]
          refine ⟨rfl, credit, ?_, rfl, S₃, rfl, hlater, by simpa using hS₃⟩
          rw [supply_of_settled hS₃, supply_of_settled (hgate.symm.trans hS₃)]
      | false =>
          rw [hs₃.manifest_of_not_settled hS₃, supply_manifest hv (hgate.symm.trans hS₃)]
          exact (fits_refresh hv hg).mono fun r B hB => hB.mono fun _ => .after hlater

/-- Without a version there is no manifest. -/
theorem fits_manifest_of_isEmpty (hv : sc.served.version.isEmpty = true)
    (hrank : ∀ g ∈ held, Gate.manifest.rank < g.rank) :
    sc.Fits table (fun r B => r = .error .missingManifest ∧ B.held = held) manifest.run
      ⟨held, .manifest :: credit, S⟩ := by
  unfold manifest
  refine .looking_bind fun S₁ s₁ _ hs₁ => ?_
  rw [hs₁.manifest_of_isEmpty hv]
  refine .inside hrank fun S₂ _ => .looking_bind fun S₃ s₃ _ hs₃ => ?_
  rw [hs₃.manifest_of_isEmpty hv, supply_manifest_of_isEmpty hv]
  exact fits_refresh_of_isEmpty hv

/-- Asking for the manifest again takes a credit. -/
theorem fits_checkUpdates (hv : sc.served.version.isEmpty = false)
    (hrank : ∀ g ∈ held, Gate.manifest.rank < g.rank) (hS : S .manifest = true) :
    sc.Fits table (Settles held credit S [.manifest] sc.served) checkUpdates.run
      ⟨held, .manifest :: credit, S⟩ := by
  have hg : .manifest ∉ held := fun hmem => Nat.lt_irrefl _ (hrank _ hmem)
  refine .inside hrank fun S₁ hlater₁ => ?_
  rw [supply_of_settled (hlater₁.settled hS)]
  exact (fits_refresh hv hg).mono fun r B hB => hB.mono fun _ => .after hlater₁

variable {path : String} {records : Records}

/-- Inside its gate the table that is not settled is asked for, and settled. -/
theorem fits_fetch (hpath : sc.served.tablePath? sc.cache.locale table = some path)
    (htable : sc.source.table path = .ok (sc.records table)) (hm : S .manifest = true) :
    sc.Fits table
      (sc.Within (.table table) ∅ (Settles ∅ credit S [.manifest, .table table] ()))
      (askingTable path >>= fun records => changing (·.load table sc.served.version records)).run
      ⟨insert (.table table) ∅, .table table :: credit, S⟩ := by
  refine .bind (P := fun r B => r = .ok (sc.records table) ∧
    B = ⟨insert (.table table) ∅, credit, S⟩) ⟨credit, rfl, hpath, htable, rfl⟩ ?_
    (fun _ _ h => nomatch h.1)
  rintro _ B ⟨⟨⟩, rfl⟩
  have hS : Function.update S (.table table) true (.table table) = true := Function.update_self ..
  have hlater : Later ∅ S (Function.update S (.table table) true) :=
    .update (Finset.notMem_empty _) S
  refine ⟨.table table, Finset.mem_insert_self _ _, fun _ _ _ hs => hs.load table, rfl, credit, ?_,
    rfl, _, rfl, hlater, by simpa using hm⟩
  rw [supply_of_settled hS]
  rfl

/-- The table is settled, inside its gate if it is not yet. -/
theorem fits_ensureTable (hv : sc.served.version.isEmpty = false)
    (hpath : sc.served.tablePath? sc.cache.locale table = some path)
    (htable : sc.source.table path = .ok records) :
    sc.Fits table (Settles ∅ credit S [.manifest, .table table] ())
      (sc.cache.ensureTable table).run ⟨∅, credit, S⟩ := by
  unfold Cache.ensureTable
  refine (fits_manifest hv (by simp)).bind ?_ (fun _ _ h => nomatch h.1)
  rintro m B ⟨⟨⟩, S₁, rfl, hlater₁, hS₁⟩
  simp only [hpath, Option.isNone_some, Bool.false_eq_true, if_false]
  refine .looking_bind fun S₂ s₂ hlater₂ hs₂ => ?_
  have hm₂ : S₂ .manifest = true := hlater₂.settled (hS₁ _ List.mem_cons_self)
  split
  · rename_i hv₂
    have hS₂ := hs₂.version?_eq_iff.mp hv₂
    exact ⟨rfl, S₂, rfl, hlater₁.trans hlater₂, by simp [hm₂, hS₂]⟩
  · refine .inside (by simp) fun S₃ hlater₃ => ?_
    have hg : .table table ∈ insert (.table table) (∅ : Finset Gate) := Finset.mem_insert_self _ _
    refine (fits_manifest hv (by simp [Gate.rank])).bind ?_ (fun _ _ h => nomatch h.1)
    rintro m B ⟨⟨⟩, S₄, rfl, hlater₄, hS₄⟩
    refine .looking_bind fun S₅ s₅ hlater₅ hs₅ => ?_
    have hm₅ : S₅ .manifest = true := hlater₅.settled (hS₄ _ List.mem_cons_self)
    -- Since the gate was entered nobody else has settled the table.
    have hgate : S₅ (.table table) = S₃ (.table table) :=
      (hlater₅.held hg).trans (hlater₄.held hg)
    have hlater : Later ∅ S S₅ := ((hlater₁.trans hlater₂).trans hlater₃).trans
      ((hlater₄.trans hlater₅).mono (Finset.empty_subset _))
    split
    · rename_i hv₅
      have hS₅ := hs₅.version?_eq_iff.mp hv₅
      refine ⟨rfl, credit, ?_, rfl, S₅, rfl, hlater, by simp [hm₅, hS₅]⟩
      rw [supply_of_settled hS₅, supply_of_settled (hgate.symm.trans hS₅)]
    · rename_i hv₅
      have hS₅ : S₅ (.table table) = false := by
        rwa [hs₅.version?_eq_iff, Bool.not_eq_true] at hv₅
      have hrecords : sc.source.table path = .ok (sc.records table) := by
        rw [htable, (hs₅.due hS₅).2 path records hpath htable]
      rw [hpath, supply_table (hgate.symm.trans hS₅)]
      exact (fits_fetch hpath hrecords hm₅).mono fun r B hB => hB.mono fun _ => .after hlater

/-! ## Lookups -/

variable (sc) in
/-- What the lookup of a hash comes to. -/
def answer (table : String) (hash : UInt32) : Except DefinitionError RawText :=
  if sc.served.version.isEmpty then .error .missingManifest
  else match (sc.records table).find? hash with
    | some r => .ok r
    | none => .error (.notFound table hash)

variable (sc) in
/-- What a lookup brings along: it asks for the manifest again where the hash is missing, and for
the first time where the manifest cannot be settled. -/
def allowance (table : String) (hash : UInt32) : List Gate :=
  if sc.served.version.isEmpty || ((sc.records table).find? hash).isNone then [.manifest] else []

theorem fits_resolve (hpath : sc.served.tablePath? sc.cache.locale table = some path)
    (htable : sc.source.table path = .ok records) (hash : UInt32) :
    sc.Fits table (fun r B => r = sc.answer table hash ∧ B.held = ∅)
      (sc.cache.resolve table hash).run ⟨∅, sc.allowance table hash, S⟩ := by
  unfold Cache.resolve
  cases hv : sc.served.version.isEmpty with
  | true =>
      have hallowance : sc.allowance table hash = [.manifest] := by simp [allowance, hv]
      have hanswer : sc.answer table hash = .error .missingManifest := by simp [answer, hv]
      rw [hallowance, hanswer]
      exact (Fits.bind_error (fits_manifest_of_isEmpty hv (by simp))).bind_error
  | false =>
      refine (fits_ensureTable hv hpath htable).bind ?_ (fun _ _ h => nomatch h.1)
      rintro _ B ⟨⟨⟩, S₁, rfl, hlater₁, hS₁⟩
      refine .looking_bind fun S₂ s₂ hlater₂ hs₂ => ?_
      have hS₂ (g) (hg : g ∈ [.manifest, .table table]) : S₂ g = true := hlater₂.settled (hS₁ g hg)
      rw [hs₂.record?_eq (hS₂ (.table table) (by simp))]
      cases hfind : (sc.records table).find? hash with
      | some r => exact ⟨by simp [answer, hv, hfind], rfl⟩
      | none =>
          have hallowance : sc.allowance table hash = [.manifest] := by simp [allowance, hfind]
          rw [hallowance]
          refine (fits_checkUpdates hv (by simp) (hS₂ .manifest (by simp))).bind ?_
            (fun _ _ h => nomatch h.1)
          rintro _ B ⟨⟨⟩, S₃, rfl, -, -⟩
          refine (fits_ensureTable hv hpath htable).bind ?_ (fun _ _ h => nomatch h.1)
          rintro _ B ⟨⟨⟩, S₄, rfl, -, hS₄⟩
          refine .looking_bind fun S₅ s₅ hlater₅ hs₅ => ?_
          rw [hs₅.record?_eq (hlater₅.settled (hS₄ (.table table) (by simp))), hfind]
          exact ⟨by simp [answer, hv, hfind], rfl⟩

end Scene
end Bindery.Definitions
