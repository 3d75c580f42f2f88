import Bindery.Proofs.Definitions.Coherence
import Bindery.Proofs.Definitions.Order

/-! # Simultaneous lookups

Lookups that are made together over a source that does not change, each on its way through its
script, answer as each would alone, however they are scheduled; each table is asked for at most
once, and the manifest once and again for each hash that is missing (`Cache.resolve_together`).  A
manifest without a version is the exception: it is never in force, so every lookup asks for it. -/

namespace Bindery.Definitions

open Json

namespace Scene

/-! ## The scene of a cache -/

section Start

variable (c : Cache) (source : Source Id) (m : Manifest) (hm : source.manifest = .ok m) (s : Shelf)

/-- The records that the source has for a table. -/
def fetched (table : String) : Records :=
  ((m.tablePath? c.locale table).bind fun path => (source.table path).toOption).getD .empty

/-- The records that a table is held with at the version of the source's manifest, or would be. -/
def recordsFrom (table : String) : Records :=
  match s.tables.find? table with
  | some loaded => if loaded.version = m.version then loaded.records else fetched c source m table
  | none => fetched c source m table

/-- Lookups that begin at a shelf. -/
def start : Scene where
  cache := c
  source := source
  served := m
  records := recordsFrom c source m s
  serves := hm

/-- What is settled at the beginning. -/
def settledAt : Gate → Bool
  | .manifest => s.manifest.isSome
  | .table t => s.version? t = some m.version

theorem shows_start (hs : ∀ m' ∈ s.manifest, m' = m ∧ m.version ≠ "") :
    (start c source m hm s).Shows (settledAt m s) s where
  manifest := by
    cases h : s.manifest with
    | none => simp [settledAt, h]
    | some m' => simp [settledAt, h, (hs m' h).1, start]
  versioned h := by
    obtain ⟨m', h⟩ := Option.isSome_iff_exists.mp h
    simpa [start] using (hs m' h).2
  table {t} h := by
    obtain ⟨⟨version, records⟩, hfind, hversion⟩ :=
      Option.map_eq_some_iff.mp (of_decide_eq_true h)
    cases (show version = m.version from hversion)
    simp [start, recordsFrom, hfind]
  due {t} h := by
    have hversion : s.version? t ≠ some m.version := of_decide_eq_false h
    refine ⟨hversion, fun path records hpath htable => ?_⟩
    have hfetched : fetched c source m t = records := by
      rw [fetched, show m.tablePath? c.locale t = some path from hpath, Option.bind_some,
        show source.table path = .ok records from htable]
      rfl
    show records = recordsFrom c source m s t
    rw [recordsFrom, hfetched]
    split
    · rename_i loaded hfind
      rw [if_neg]
      exact fun heq => hversion (by rw [Shelf.version?, hfind, Option.map_some, heq])
    · rfl

end Start

/-! ## Lookups at their beginning -/

variable {sc : Scene} {ι : Type} {s : Shelf} {S : Gate → Bool} {lookups : ι → String × UInt32}

/-- The lookup ends with its answer and inside no gate. -/
def Answers (sc : Scene) (lookup : String × UInt32) (r : Except DefinitionError RawText)
    (A : Account) : Prop :=
  r = sc.answer lookup.1 lookup.2 ∧ A.held = ∅

variable [Fintype ι]

/-- The credit that there is: what the lookups bring along, and what is inside the gates. -/
def budget (sc : Scene) (S : Gate → Bool) (lookups : ι → String × UInt32) (g : Gate) : Nat :=
  ∑ i, (sc.allowance (lookups i).1 (lookups i).2).count g + (sc.supply S g).count g

theorem orderly_start (hs : sc.Shows S s) (hlisted : ∀ i, ∃ path records,
      sc.served.tablePath? sc.cache.locale (lookups i).1 = some path ∧
      sc.source.table path = .ok records) :
    sc.Orderly (fun i => (lookups i).1) (fun i => sc.Answers (lookups i)) (sc.budget S lookups) S
      (fun i => ⟨∅, sc.allowance (lookups i).1 (lookups i).2, S⟩)
      { shelf := s, scripts := fun i => (sc.cache.resolve (lookups i).1 (lookups i).2).run } where
  shows := hs
  fits i := by
    obtain ⟨path, records, hpath, htable⟩ := hlisted i
    exact fits_resolve hpath htable (lookups i).2
  later i := .refl _ _
  holder i g := by simp
  credit g := by simp [budget, pot, Crowd.asked]
  paths h := by simp at h

theorem count_supply_le (sc : Scene) (S : Gate → Bool) (g : Gate) :
    (sc.supply S g).count g ≤ 1 := by
  unfold supply
  split <;> simp

/-- No lookup brings credit for a table along. -/
theorem budget_table_le (sc : Scene) (S : Gate → Bool) (lookups : ι → String × UInt32)
    (table : String) : sc.budget S lookups (.table table) ≤ 1 := by
  have hallowance (i) : (sc.allowance (lookups i).1 (lookups i).2).count (.table table) = 0 := by
    unfold allowance
    split <;> simp
  simp only [budget, hallowance, Finset.sum_const_zero, Nat.zero_add]
  exact sc.count_supply_le S _

theorem budget_manifest_of_isEmpty (hv : sc.served.version.isEmpty = true) :
    sc.budget S lookups .manifest = Fintype.card ι := by
  simp [budget, allowance, hv, supply_manifest_of_isEmpty hv]

/-- The answer of a lookup whose hash is missing. -/
def isMissing : Except DefinitionError RawText → Bool
  | .error (.notFound _ _) => true
  | _ => false

theorem budget_manifest_le (hv : sc.served.version.isEmpty = false) (S : Gate → Bool)
    (lookups : ι → String × UInt32) :
    sc.budget S lookups .manifest ≤
      1 + Finset.card {i | isMissing (sc.answer (lookups i).1 (lookups i).2)} := by
  have hallowance (i) : (sc.allowance (lookups i).1 (lookups i).2).count .manifest =
      if isMissing (sc.answer (lookups i).1 (lookups i).2) then 1 else 0 := by
    cases hfind : (sc.records (lookups i).1).find? (lookups i).2 <;>
      simp [allowance, answer, hv, hfind, isMissing]
  have hsupply := sc.count_supply_le S .manifest
  simp only [budget, hallowance, Finset.card_filter]
  omega

end Scene

/-- Lookups of listed tables together, at any stage of any schedule, over a source whose answers do
not change and a shelf whose manifest is none or the source's: they cannot go on for ever, someone
can go on unless all are done, and who is done has the answer that it would get alone.  What is
asked for by then: the listed path of each table at most once in all, and the manifest once and
again for each missing hash, or, where it has no version, once for each lookup. -/
theorem Cache.resolve_together {ι : Type} [Fintype ι] [DecidableEq ι] (c : Cache)
    (source : Source Id) (m : Manifest) (s : Shelf) (lookups : ι → String × UInt32)
    (hm : source.manifest = .ok m) (hs : ∀ m' ∈ s.manifest, m' = m ∧ m.version ≠ "")
    (hlisted : ∀ i, ∃ path records, m.tablePath? c.locale (lookups i).1 = some path ∧
      source.table path = .ok records) :
    let script i := (c.resolve (lookups i).1 (lookups i).2).run
    let alone i := (((script i).run source).run s).1
    (WellFounded fun y x : Crowd ι (Except DefinitionError RawText) =>
      ∃ i, x.advance source i = some y) ∧
    ∀ schedule x, Crowd.run source schedule { shelf := s, scripts := script } = some x →
      ((∀ i, x.scripts i = .done (alone i)) ∨ ∃ i y, x.advance source i = some y) ∧
      (∀ i r, x.scripts i = .done r → r = alone i) ∧
      (∀ i path answer, (i, .table path answer) ∈ x.past →
        m.tablePath? c.locale (lookups i).1 = some path) ∧
      (∀ table, (x.asked fun i => (lookups i).1).count (.table table) ≤ 1) ∧
      (x.asked fun i => (lookups i).1).count .manifest ≤
        if m.version = "" then Fintype.card ι
        else 1 + Finset.card {i | Scene.isMissing (alone i)} := by
  intro script alone
  let sc := Scene.start c source m hm s
  have hshows : sc.Shows (Scene.settledAt m s) s := Scene.shows_start c source m hm s hs
  have hstart := Scene.orderly_start hshows hlisted
  have halone (i) : alone i = sc.answer (lookups i).1 (lookups i).2 := by
    obtain ⟨B, hB⟩ := (hstart.fits i).run hshows
    exact hB.1
  refine ⟨Crowd.wellFounded_advance source, fun schedule x hrun => ?_⟩
  obtain ⟨S, A, h⟩ := hstart.run hrun
  have hdone (i r) (hi : x.scripts i = .done r) : r = alone i := by
    have hfits := h.fits i
    rw [hi] at hfits
    exact hfits.1.trans (halone i).symm
  refine ⟨?_, hdone, fun i path answer => h.paths, fun table => ?_, ?_⟩
  · by_cases hall : ∀ i, ∃ r, x.scripts i = .done r
    · refine .inl fun i => ?_
      obtain ⟨r, hi⟩ := hall i
      rw [hi, hdone i r hi]
    · obtain ⟨i, hi⟩ := not_forall.mp hall
      exact .inr (h.exists_advance (fun _ _ _ hA => hA.2) fun r hr => hi ⟨r, hr⟩)
  · have hcredit := h.credit (.table table)
    have hbudget := sc.budget_table_le (Scene.settledAt m s) lookups table
    omega
  · have hcredit := h.credit .manifest
    simp only [halone]
    split
    · rename_i hv
      rw [Scene.budget_manifest_of_isEmpty (String.isEmpty_iff.mpr hv)] at hcredit
      omega
    · rename_i hv
      have hv : sc.served.version.isEmpty = false :=
        Bool.eq_false_iff.mpr fun hempty => hv (String.isEmpty_iff.mp hempty)
      have hbudget := Scene.budget_manifest_le hv (Scene.settledAt m s) lookups
      omega

/-! ## Two lookups -/

namespace Cache

/-- Always gives the same manifest. -/
def steady (m : Manifest) : Source Id where
  manifest := Except.ok m
  table := issue
  label := "steady"

/-- Two lookups of one table, of which only the first hash is there. -/
def pair (i : Fin 2) : String × UInt32 := ("Items", if i = 0 then 1 else 2)

/-- The lookups before their first step. -/
def together : Crowd (Fin 2) (Except DefinitionError RawText) where
  shelf := {}
  scripts i := (resolve ⟨"en"⟩ (pair i).1 (pair i).2).run

/-- While the first asks for the manifest and the table, the second waits twice. -/
theorem resolve_together_pair :
    let m := edition "1" "/first"
    let schedule : List (Fin 2) := [0, 1, 0, 0, 0, 0, 0, 1, 0, 1, 0, 1, 0, 1, 0, 0, 0, 0, 1, 0, 1,
      1, 1, 1, 1, 1, 1, 1, 1, 1, 1]
    ∃ x, together.run (steady m) schedule = some x ∧
      x.scripts 0 = .done (.ok ⟨.bool false⟩) ∧
      x.scripts 1 = .done (.error (.notFound "Items" 2)) ∧
      (x.asked fun i => (pair i).1).count (.table "Items") ≤ 1 ∧
      (x.asked fun i => (pair i).1).count .manifest ≤ 2 := by
  obtain ⟨-, hrun⟩ := resolve_together ⟨"en"⟩ (steady (edition "1" "/first"))
    (edition "1" "/first") {} pair rfl nofun fun i => ⟨"/first", _, by rfl, rfl⟩
  let x : Crowd (Fin 2) (Except DefinitionError RawText) :=
    (together.run (steady (edition "1" "/first")) [0, 1, 0, 0, 0, 0, 0, 1, 0, 1, 0, 1, 0, 1, 0, 0,
      0, 0, 1, 0, 1, 1, 1, 1, 1, 1, 1, 1, 1, 1, 1]).get (by rfl)
  obtain ⟨-, -, -, htable, hmanifest⟩ := hrun _ x (Option.some_get _).symm
  exact ⟨x, (Option.some_get _).symm, by rfl, by rfl, htable "Items", hmanifest⟩

/-- Where the manifest has no version, two lookups ask for it twice though every hash is there. -/
theorem not_asked_once :
    ¬∀ (c : Cache) (source : Source Id) (m : Manifest) (s : Shelf)
      (lookups : Fin 2 → String × UInt32), source.manifest = .ok m → (∀ m' ∈ s.manifest, m' = m) →
      (∀ i, ∃ path records, m.tablePath? c.locale (lookups i).1 = some path ∧
        source.table path = .ok records ∧ (records.find? (lookups i).2).isSome) →
      let script i := (c.resolve (lookups i).1 (lookups i).2).run
      ∀ schedule x, Crowd.run source schedule { shelf := s, scripts := script } = some x →
        (x.asked fun i => (lookups i).1).count .manifest ≤
          1 + Finset.card {i | Scene.isMissing (((script i).run source).run s).1} := by
  intro h
  have hle := h ⟨"en"⟩ (steady (edition "" "/first")) (edition "" "/first") {}
    (fun _ => ("Items", 1)) rfl nofun (fun i => ⟨"/first", _, by rfl, rfl, by rfl⟩)
    [0, 0, 0, 0, 0, 1, 1, 1, 1, 1] _ rfl
  exact absurd hle (by decide)

end Cache
end Bindery.Definitions
