import Bindery.Proofs.Definitions.Interleaving
import Bindery.Proofs.Definitions.Settling

/-! # Crowds of scripts that fit

A crowd of scripts that fit stays in order (`Scene.Orderly`): each user knows part of what is
settled, and what has been asked for, with the credit in hands and inside free gates, does not
exceed what there was.  One step keeps this, with one lemma for each kind of step
(`Orderly.advance`), and so does a schedule (`Orderly.run`).  A crowd in order is never stuck
(`Orderly.exists_advance`): who waits for a gate waits for someone who holds it, and who can at most
wait for a lower one. -/

namespace Bindery.Definitions.Scene

variable (sc : Scene) {ι α : Type}

/-- The credit inside a gate that is free. -/
def pot (S : Gate → Bool) (x : Crowd ι α) (g : Gate) : Nat :=
  if (x.holder g).isSome then 0 else (sc.supply S g).count g

section Pot

variable {sc} {S S' : Gate → Bool} {g g' : Gate}

theorem supply_congr (h : S' g = S g) : sc.supply S' g = sc.supply S g := by
  rw [supply, supply, h]

theorem count_supply_of_ne (h : g' ≠ g) : (sc.supply S g).count g' = 0 := by
  unfold supply
  split
  · rfl
  · exact List.count_eq_zero.mpr (by simpa using h)

/-- What has been settled needs no credit. -/
theorem pot_le {held : Finset Gate} (h : Later held S S') (x : Crowd ι α) (g : Gate) :
    sc.pot S' x g ≤ sc.pot S x g := by
  unfold pot
  split
  · exact le_rfl
  · cases hS : S g with
    | true => rw [supply_of_settled (h.settled hS)]; simp
    | false =>
        cases hS' : S' g with
        | true => rw [supply_of_settled hS']; simp
        | false => rw [supply_congr (hS'.trans hS.symm)]

end Pot

variable [Fintype ι]

/-- Every user of the crowd goes on fitting, with its own account of what is settled. -/
structure Orderly (tables : ι → String) (Q : ι → α → Account → Prop) (limit : Gate → Nat)
    (S : Gate → Bool) (A : ι → Account) (x : Crowd ι α) : Prop where
  shows : sc.Shows S x.shelf
  fits (i) : sc.Fits (tables i) (Q i) (x.scripts i) (A i)
  later (i) : Later (A i).held (A i).settled S
  holder (i g) : g ∈ (A i).held ↔ x.holder g = some i
  credit (g) : (x.asked tables).count g + (∑ i, (A i).credit.count g + sc.pot S x g) ≤ limit g
  paths {i path answer} : (i, .table path answer) ∈ x.past →
    sc.served.tablePath? sc.cache.locale (tables i) = some path

namespace Orderly

variable {sc} [DecidableEq ι] {tables : ι → String} {Q : ι → α → Account → Prop}
  {limit : Gate → Nat} {S S' : Gate → Bool} {A : ι → Account} {x y : Crowd ι α} {i : ι}

/-- One user takes a step, which costs nothing that was not there. -/
theorem leaving (h : sc.Orderly tables Q limit S A x) {rest : Script α} {B : Account}
    (hscripts : y.scripts = Function.update x.scripts i rest)
    (hfits : sc.Fits (tables i) (Q i) rest B) (hshows : sc.Shows S' y.shelf)
    (hlater : Later B.held B.settled S') (hothers : ∀ j ≠ i, Later (A j).held S S')
    (hself : ∀ g, g ∈ B.held ↔ y.holder g = some i)
    (hholder : ∀ j ≠ i, ∀ g, y.holder g = some j ↔ x.holder g = some j)
    (hcredit : ∀ g, (y.asked tables).count g + (B.credit.count g + sc.pot S' y g) ≤
      (x.asked tables).count g + ((A i).credit.count g + sc.pot S x g))
    (hpaths : ∀ {j path answer}, (j, .table path answer) ∈ y.past →
      sc.served.tablePath? sc.cache.locale (tables j) = some path) :
    sc.Orderly tables Q limit S' (Function.update A i B) y where
  shows := hshows
  fits j := by
    rw [hscripts]
    by_cases hj : j = i
    · subst hj
      rwa [Function.update_self, Function.update_self]
    · rw [Function.update_of_ne hj, Function.update_of_ne hj]
      exact h.fits j
  later := (Function.forall_update_iff A fun _ A => Later A.held A.settled S').mpr
    ⟨hlater, fun j hj => (h.later j).trans (hothers j hj)⟩
  holder := (Function.forall_update_iff A fun j A => ∀ g, g ∈ A.held ↔ y.holder g = some j).mpr
    ⟨hself, fun j hj g => (h.holder j g).trans (hholder j hj g).symm⟩
  credit g := by
    have hupdate : (fun j => (Function.update A i B j).credit.count g) =
        Function.update (fun j => (A j).credit.count g) i (B.credit.count g) :=
      funext fun j => Function.apply_update (fun _ A => A.credit.count g) A i B j
    have hsum := Finset.sum_update_of_mem (Finset.mem_univ i) (fun j => (A j).credit.count g)
      (B.credit.count g)
    have hsum' := Finset.sum_eq_sum_sdiff_singleton_add (Finset.mem_univ i)
      fun j => (A j).credit.count g
    have hlimit := h.credit g
    have hstep := hcredit g
    rw [hupdate, hsum]
    omega
  paths := hpaths

/-- A step that leaves the gates as they are. -/
theorem leaving_gates (h : sc.Orderly tables Q limit S A x) {rest : Script α} {B : Account}
    (hscripts : y.scripts = Function.update x.scripts i rest) (hgates : y.holder = x.holder)
    (hfits : sc.Fits (tables i) (Q i) rest B) (hheld : B.held = (A i).held)
    (hshows : sc.Shows S' y.shelf) (hlater : Later B.held B.settled S')
    (hothers : ∀ j ≠ i, Later (A j).held S S')
    (hcredit : ∀ g, (y.asked tables).count g + (B.credit.count g + sc.pot S' y g) ≤
      (x.asked tables).count g + ((A i).credit.count g + sc.pot S x g))
    (hpaths : ∀ {j path answer}, (j, .table path answer) ∈ y.past →
      sc.served.tablePath? sc.cache.locale (tables j) = some path) :
    sc.Orderly tables Q limit S' (Function.update A i B) y :=
  h.leaving hscripts hfits hshows hlater hothers (fun g => by rw [hheld, hgates, h.holder i g])
    (fun j _ g => by rw [hgates]) hcredit hpaths

variable {g : Gate}

theorem look (h : sc.Orderly tables Q limit S A x) {rest : Script α}
    (hfits : sc.Fits (tables i) (Q i) rest ⟨(A i).held, (A i).credit, S⟩) :
    ∃ A', sc.Orderly tables Q limit S A' (x.leaving i rest) :=
  ⟨_, h.leaving_gates rfl rfl hfits rfl h.shows (.refl _ _) (fun _ _ => .refl _ _)
    (fun _ => le_rfl) h.paths⟩

theorem change (h : sc.Orderly tables Q limit S A x) (hg : g ∈ (A i).held) {rest : Script α}
    {s : Shelf} (hshows : sc.Shows (Function.update S g true) s)
    (hfits : sc.Fits (tables i) (Q i) rest
      ⟨(A i).held, (A i).credit, Function.update (A i).settled g true⟩) :
    ∃ A', sc.Orderly tables Q limit (Function.update S g true) A'
      { x.leaving i rest with shelf := s } := by
  have hothers (j) (hj : j ≠ i) : Later (A j).held S (Function.update S g true) := by
    refine .update (fun hgj => hj ?_) S
    exact Option.some.inj (((h.holder j g).mp hgj).symm.trans ((h.holder i g).mp hg))
  have hpot (g') : sc.pot (Function.update S g true) x g' ≤ sc.pot S x g' :=
    pot_le (.update (Finset.notMem_empty g) S) x g'
  exact ⟨_, h.leaving_gates rfl rfl hfits rfl hshows ((h.later i).update_both g) hothers
    (fun g' => Nat.add_le_add_left (Nat.add_le_add_left (hpot g') _) _) h.paths⟩

theorem enter (h : sc.Orderly tables Q limit S A x) (hfree : x.holder g = none) {rest : Script α}
    (hfits : sc.Fits (tables i) (Q i) rest
      ⟨insert g (A i).held, sc.supply S g ++ (A i).credit, S⟩) :
    ∃ A', sc.Orderly tables Q limit S A'
      { x.leaving i rest with holder := Function.update x.holder g (some i) } := by
  refine ⟨_, h.leaving rfl hfits h.shows (.refl _ _) (fun _ _ => .refl _ _) (fun g' => ?_)
    (fun j hj g' => ?_) (fun g' => ?_) h.paths⟩
  · by_cases hg' : g' = g
    · simp [hg']
    · simp [hg', h.holder i g']
  · by_cases hg' : g' = g
    · simp [hg', hfree, Ne.symm hj]
    · simp [hg']
  · refine Nat.add_le_add_left ?_ _
    by_cases hg' : g' = g
    · simp [pot, hg', hfree, Nat.add_comm]
    · simp [pot, hg', count_supply_of_ne hg']

theorem leave (h : sc.Orderly tables Q limit S A x) (hg : g ∈ (A i).held) {rest : Script α}
    {credit : List Gate} (hcredit : (A i).credit = sc.supply (A i).settled g ++ credit)
    (hfits : sc.Fits (tables i) (Q i) rest ⟨(A i).held.erase g, credit, (A i).settled⟩) :
    ∃ A', sc.Orderly tables Q limit S A'
      { x.leaving i rest with holder := Function.update x.holder g none } := by
  have hheld : x.holder g = some i := (h.holder i g).mp hg
  refine ⟨_, h.leaving rfl hfits h.shows ((h.later i).mono (Finset.erase_subset _ _))
    (fun _ _ => .refl _ _) (fun g' => ?_) (fun j hj g' => ?_) (fun g' => ?_) h.paths⟩
  · by_cases hg' : g' = g
    · simp [hg']
    · simp [hg', h.holder i g']
  · by_cases hg' : g' = g
    · simp [hg', hheld, Ne.symm hj]
    · simp [hg']
  · refine Nat.add_le_add_left ?_ _
    rw [hcredit, ← supply_congr ((h.later i).held hg)]
    by_cases hg' : g' = g
    · simp [pot, hg', hheld, Nat.add_comm]
    · simp [pot, hg', count_supply_of_ne hg']

theorem ask (h : sc.Orderly tables Q limit S A x) {rest : Script α} {e : Exchange}
    {credit : List Gate} (hcredit : (A i).credit = e.gate (tables i) :: credit)
    (hfits : sc.Fits (tables i) (Q i) rest ⟨(A i).held, credit, (A i).settled⟩)
    (hpath : ∀ {path answer}, e = .table path answer →
      sc.served.tablePath? sc.cache.locale (tables i) = some path) :
    ∃ A', sc.Orderly tables Q limit S A' { x.leaving i rest with past := x.past ++ [(i, e)] } := by
  refine ⟨_, h.leaving_gates rfl rfl hfits rfl h.shows (h.later i) (fun _ _ => .refl _ _)
    (fun g => ?_) fun {j path answer} hmem => ?_⟩
  · have hasked : Crowd.asked tables { x.leaving i rest with past := x.past ++ [(i, e)] } =
        x.asked tables ++ [e.gate (tables i)] := by
      simp [Crowd.asked]
    have hpot : sc.pot S { x.leaving i rest with past := x.past ++ [(i, e)] } g = sc.pot S x g :=
      rfl
    rw [hasked, hcredit, hpot, List.count_append, List.count_cons, List.count_cons, List.count_nil]
    dsimp only
    omega
  · rcases List.mem_append.mp hmem with hmem | hmem
    · exact h.paths hmem
    · obtain ⟨rfl, heq⟩ := Prod.mk.inj (List.mem_singleton.mp hmem)
      exact hpath heq.symm

/-- One step of one user, by the next piece of its script. -/
theorem advance (h : sc.Orderly tables Q limit S A x) (hstep : x.advance sc.source i = some y) :
    ∃ S' A', sc.Orderly tables Q limit S' A' y := by
  have hfits := h.fits i
  unfold Crowd.advance at hstep
  split at hstep
  · cases hstep
  · rename_i next heq
    rw [heq] at hfits
    cases hstep
    exact ⟨S, h.look (hfits S _ (h.later i) h.shows)⟩
  · rename_i f next heq
    rw [heq] at hfits
    obtain ⟨g, hg, hchange, hfits⟩ := hfits
    cases hstep
    exact ⟨_, h.change hg (hchange S _ (h.later i) h.shows) hfits⟩
  · rename_i g next heq
    rw [heq] at hfits
    obtain ⟨-, hfits⟩ := hfits
    split at hstep
    · cases hstep
    · rename_i hfree
      cases hstep
      exact ⟨S, h.enter (Option.not_isSome_iff_eq_none.mp hfree) (hfits S (h.later i))⟩
  · rename_i g next heq
    rw [heq] at hfits
    obtain ⟨hg, credit, hcredit, hfits⟩ := hfits
    cases hstep
    exact ⟨S, h.leave hg hcredit hfits⟩
  · rename_i next heq
    rw [heq] at hfits
    obtain ⟨credit, hcredit, hfits⟩ := hfits
    cases hstep
    exact ⟨S, h.ask hcredit hfits nofun⟩
  · rename_i path next heq
    rw [heq] at hfits
    obtain ⟨credit, hcredit, hpath, hfits⟩ := hfits
    cases hstep
    refine ⟨S, h.ask hcredit hfits fun heq => ?_⟩
    cases heq
    exact hpath

/-- By induction over the schedule. -/
theorem run (h : sc.Orderly tables Q limit S A x) {schedule : List ι}
    (hrun : x.run sc.source schedule = some y) : ∃ S' A', sc.Orderly tables Q limit S' A' y :=
  Crowd.run_induction (P := fun x => ∃ S A, sc.Orderly tables Q limit S A x)
    (fun ⟨_, _, h⟩ hstep => h.advance hstep) ⟨S, A, h⟩ hrun

/-- If a gate is held then someone can go on: whoever holds it, or whoever holds the lower gate
that this one waits for. -/
theorem exists_advance_of_holder (h : sc.Orderly tables Q limit S A x)
    (hQ : ∀ i a A, Q i a A → A.held = ∅) {g : Gate} {j : ι} (hheld : x.holder g = some j) :
    ∃ i y, x.advance sc.source i = some y := by
  induction hn : g.rank using Nat.strong_induction_on generalizing g j with
  | _ n ih =>
      have hg : g ∈ (A j).held := (h.holder j g).mpr hheld
      have hfits := h.fits j
      rcases x.done_or_advance_or_waits sc.source j with
        ⟨a, hscript⟩ | ⟨y, hy⟩ | ⟨g', next, k, hscript, hheld'⟩
      · rw [hscript] at hfits
        rw [hQ j a _ hfits] at hg
        cases Finset.notMem_empty g hg
      · exact ⟨j, y, hy⟩
      · rw [hscript] at hfits
        exact ih _ (hn ▸ hfits.1 g hg) hheld' rfl

/-- Unless all are done, someone can go on. -/
theorem exists_advance (h : sc.Orderly tables Q limit S A x)
    (hQ : ∀ i a A, Q i a A → A.held = ∅) {i : ι} (hi : ∀ a, x.scripts i ≠ .done a) :
    ∃ i y, x.advance sc.source i = some y := by
  rcases x.done_or_advance_or_waits sc.source i with
    ⟨a, hscript⟩ | ⟨y, hy⟩ | ⟨g, next, k, -, hheld⟩
  · cases hi a hscript
  · exact ⟨i, y, hy⟩
  · exact h.exists_advance_of_holder hQ hheld

end Orderly

end Bindery.Definitions.Scene
