import Bindery.Wire.FlagSet
import Mathlib.Data.List.Induction
import Mathlib.Data.Nat.Bitwise

/-! # Flags after any run of changes

Additions, removals and clearings act on each bit by itself.  Whether a bit is set after a run of them is
decided by the last one that touches the bit, and by the start where none does (`FlagSet.mem_run_iff`).
Queries ask for values instead, of which one shared bit is enough (`FlagSet.has_iff`). -/

namespace Bindery

/-- The bit is one of the value's. -/
def Flag.HasBit {φ : Type} [Flag φ] (v : φ) (i : Nat) : Prop := (Flag.bits v).toNat.testBit i = true

instance {φ : Type} [Flag φ] (v : φ) (i : Nat) : Decidable (Flag.HasBit v i) :=
  inferInstanceAs (Decidable (_ = true))

namespace FlagSet

variable {φ : Type}

/-- The bits of a set, by their places. -/
instance : Membership Nat (FlagSet φ) := ⟨fun s i => s.bits.toNat.testBit i = true⟩

instance (i : Nat) (s : FlagSet φ) : Decidable (i ∈ s) :=
  inferInstanceAs (Decidable (s.bits.toNat.testBit i = true))

variable [Flag φ] {s s' : FlagSet φ} {v : φ} {i : Nat}

/-! ## One change -/

/-- Only the 64 places of a word hold bits. -/
theorem lt_of_testBit {w : UInt64} (h : w.toNat.testBit i = true) : i < 64 :=
  Decidable.byContradiction fun hi =>
    absurd h (by rw [Nat.testBit_lt_two_pow (Nat.lt_of_lt_of_le w.toNat_lt
      (Nat.pow_le_pow_right (by decide) (Nat.not_lt.mp hi)))]; decide)

theorem mem_add_iff : i ∈ s.add v ↔ i ∈ s ∨ Flag.HasBit v i := by
  show (s.bits ||| Flag.bits v).toNat.testBit i = true ↔ _
  rw [UInt64.toNat_or, Nat.testBit_or, Bool.or_eq_true]
  rfl

theorem mem_remove_iff : i ∈ s.remove v ↔ i ∈ s ∧ ¬ Flag.HasBit v i := by
  have hnot (hi : i < 64) : (~~~Flag.bits v).toNat.testBit i = !(Flag.bits v).toNat.testBit i := by
    rw [← UInt64.toNat_toBitVec, UInt64.toBitVec_not, BitVec.testBit_toNat, BitVec.getLsbD_not,
      ← UInt64.toNat_toBitVec, BitVec.testBit_toNat]
    simp [hi]
  show (s.bits &&& ~~~Flag.bits v).toNat.testBit i = true ↔ s.bits.toNat.testBit i = true ∧ _
  rw [UInt64.toNat_and, Nat.testBit_and, Bool.and_eq_true]
  refine and_congr_right fun hs => ?_
  rw [hnot (lt_of_testBit hs), Bool.not_eq_true', Flag.HasBit, Bool.not_eq_true]

omit [Flag φ] in
theorem not_mem_clear : i ∉ s.clear v := by
  show ¬ (0 : UInt64).toNat.testBit i = true
  simp

/-- A change of a set. -/
inductive Change (φ : Type) where
  | add (v : φ)
  | remove (v : φ)
  | clear (v : φ)
deriving DecidableEq, Repr

namespace Change

def apply : Change φ → FlagSet φ → FlagSet φ
  | add v, s => s.add v
  | remove v, s => s.remove v
  | clear v, s => s.clear v

/-- The change settles whether the bit is set, whatever it was before. -/
def Touches : Change φ → Nat → Prop
  | add v, i | remove v, i => Flag.HasBit v i
  | clear _, _ => True

/-- The change sets the bit. -/
def Sets (c : Change φ) (i : Nat) : Prop := ∃ v, c = add v ∧ Flag.HasBit v i

theorem mem_apply_iff (c : Change φ) : i ∈ c.apply s ↔ c.Sets i ∨ ¬ c.Touches i ∧ i ∈ s := by
  cases c with
  | add v =>
      have hsets : (add v).Sets i ↔ Flag.HasBit v i := by simp [Sets]
      rw [apply, mem_add_iff, hsets, Touches]
      tauto
  | remove v =>
      have hsets : ¬ (remove v).Sets i := nofun
      rw [apply, mem_remove_iff, Touches]
      tauto
  | clear v =>
      have hsets : ¬ (clear v).Sets i := nofun
      have hclear : i ∉ s.clear v := not_mem_clear
      rw [apply, Touches]
      tauto

end Change

/-! ## Runs -/

/-- The set after changes, the first of them first. -/
def run (s : FlagSet φ) (cs : List (Change φ)) : FlagSet φ := cs.foldl (fun s c => c.apply s) s

/-- The last of the changes that touch the bit sets it, or none touches it and it is there from the start. -/
def Survives (s : FlagSet φ) (cs : List (Change φ)) (i : Nat) : Prop :=
  (∃ before c after, cs = before ++ c :: after ∧ c.Sets i ∧ ∀ d ∈ after, ¬ d.Touches i) ∨
    (∀ c ∈ cs, ¬ c.Touches i) ∧ i ∈ s

theorem survives_concat (s : FlagSet φ) (cs : List (Change φ)) (c : Change φ) (i : Nat) :
    s.Survives (cs ++ [c]) i ↔ c.Sets i ∨ ¬ c.Touches i ∧ s.Survives cs i := by
  constructor
  · rintro (⟨before, d, after, heq, hd, hafter⟩ | ⟨hnone, hs⟩)
    · rcases List.eq_nil_or_concat after with rfl | ⟨after, e, rfl⟩
      · obtain ⟨-, rfl⟩ := List.append_singleton_inj.mp heq
        exact .inl hd
      · rw [List.concat_eq_append] at heq hafter
        rw [← List.cons_append, ← List.append_assoc] at heq
        obtain ⟨rfl, rfl⟩ := List.append_singleton_inj.mp heq
        rw [List.forall_mem_append] at hafter
        exact .inr ⟨hafter.2 c (List.mem_singleton.mpr rfl), .inl ⟨before, d, after, rfl, hd, hafter.1⟩⟩
    · rw [List.forall_mem_append] at hnone
      exact .inr ⟨hnone.2 c (List.mem_singleton.mpr rfl), .inr ⟨hnone.1, hs⟩⟩
  · rintro (hc | ⟨hc, ⟨before, d, after, rfl, hd, hafter⟩ | ⟨hnone, hs⟩⟩)
    · exact .inl ⟨cs, c, [], rfl, hc, nofun⟩
    · refine .inl ⟨before, d, after ++ [c], by simp, hd, ?_⟩
      exact List.forall_mem_append.mpr ⟨hafter, List.forall_mem_singleton.mpr hc⟩
    · exact .inr ⟨List.forall_mem_append.mpr ⟨hnone, List.forall_mem_singleton.mpr hc⟩, hs⟩

theorem run_concat (s : FlagSet φ) (cs : List (Change φ)) (c : Change φ) :
    s.run (cs ++ [c]) = c.apply (s.run cs) := by
  rw [run, List.foldl_append]
  rfl

theorem mem_run_iff (s : FlagSet φ) (cs : List (Change φ)) (i : Nat) : i ∈ s.run cs ↔ s.Survives cs i := by
  -- The last change decides first, so the run is taken apart from its end.
  induction cs using List.reverseRecOn with
  | nil => simp [run, Survives]
  | append_singleton cs c ih => rw [run_concat, Change.mem_apply_iff, survives_concat, ih]

/-! ## Queries -/

theorem has_iff : s.has v = true ↔ ∃ i, Flag.HasBit v i ∧ i ∈ s := by
  have hzero : s.has v = true ↔ (s.bits &&& Flag.bits v).toNat ≠ 0 := by
    rw [has, bne_iff_ne, ne_eq, ne_eq, ← UInt64.toNat_inj]
    rfl
  have hbit (i : Nat) : (s.bits &&& Flag.bits v).toNat.testBit i = true ↔ Flag.HasBit v i ∧ i ∈ s := by
    rw [UInt64.toNat_and, Nat.testBit_and, Bool.and_eq_true, and_comm]
    rfl
  simp only [hzero, ← hbit]
  constructor
  · exact Nat.exists_testBit_of_ne_zero
  · rintro ⟨i, hi⟩ h
    rw [h, Nat.zero_testBit] at hi
    cases hi

theorem hasAll_iff {vs : List φ} : s.hasAll vs = true ↔ ∀ v ∈ vs, ∃ i, Flag.HasBit v i ∧ i ∈ s := by
  simp only [hasAll, List.all_eq_true, has_iff]

/-- A query is answered with yes by every set that has more bits. -/
theorem hasAll_mono (h : ∀ i, i ∈ s → i ∈ s') {vs : List φ} (hall : s.hasAll vs = true) :
    s'.hasAll vs = true :=
  hasAll_iff.mpr fun v hv => (hasAll_iff.mp hall v hv).imp fun i hi => ⟨hi.1, h i hi.2⟩

theorem mem_foldl_add {us : List φ} (h : i ∈ s) : i ∈ us.foldl add s := by
  induction us generalizing s with
  | nil => exact h
  | cons u us ih => exact ih (mem_add_iff.mpr (.inl h))

/-- After any changes exactly those bits are set that the last change touching them has set, or that have
been there from the start untouched.  All values of a list are had exactly when each shares such a bit, and
they stay had under whatever is added. -/
theorem run_exact (s : FlagSet φ) (cs : List (Change φ)) :
    (∀ i, i ∈ s.run cs ↔ s.Survives cs i) ∧
    ∀ vs, ((s.run cs).hasAll vs = true ↔ ∀ v ∈ vs, ∃ i, Flag.HasBit v i ∧ s.Survives cs i) ∧
      ((s.run cs).hasAll vs = true → ∀ us : List φ, (us.foldl add (s.run cs)).hasAll vs = true) := by
  refine ⟨mem_run_iff s cs, fun vs => ⟨?_, fun hall us => ?_⟩⟩
  · simp only [hasAll_iff, mem_run_iff]
  · exact hasAll_mono (fun _ => mem_foldl_add) hall

/-! ## Values that overlap

A value of two bits is had by the one of them that is left. -/

def overlapping : List (Change UInt64) := [.add 6, .clear 1, .add 13, .remove 9]

theorem run_exact_overlapping : ¬ (⟨9⟩ : FlagSet UInt64).Survives overlapping 0 ∧
    ((⟨9⟩ : FlagSet UInt64).run overlapping).hasAll [12, 4] = true ∧
    ∀ us : List UInt64, (us.foldl add ((⟨9⟩ : FlagSet UInt64).run overlapping)).hasAll [12, 4] = true := by
  obtain ⟨hmem, hqueries⟩ := run_exact (⟨9⟩ : FlagSet UInt64) overlapping
  have hzero : 0 ∉ (⟨9⟩ : FlagSet UInt64).run overlapping := by decide
  have hall : ((⟨9⟩ : FlagSet UInt64).run overlapping).hasAll [12, 4] = true := by decide
  exact ⟨fun h => hzero ((hmem 0).mpr h), hall, (hqueries [12, 4]).2 hall⟩

end FlagSet
end Bindery
