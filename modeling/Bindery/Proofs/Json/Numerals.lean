import Bindery.Json.Decode
import Mathlib.Algebra.Group.Int.Defs
import Mathlib.Data.List.Induction
import Mathlib.Data.List.TakeWhile

/-! # Whole numbers in decimal

What is written for a whole number is read back as that number: by the grammar of JSON wherever nothing
follows that would carry a number on (`readNumber_decimalChars`), by value as far as 64 bits reach
(`numberValue_decimalChars`), and out of a text within a range (`readInteger_decimalChars`).

Within a range nothing but a numeral is read (`readInteger_eq_ok_iff`), and of the numerals JSON has one token
only for each number (`IsIntegerToken.eq_decimalChars`), but for zero. -/

namespace Bindery

/-! ## Digits -/

namespace Text

theorem isDigit_of_mem_decimalDigits {n : Nat} {c : Char} (h : c ∈ decimalDigits n) :
    c.isDigit = true := Nat.isDigit_of_mem_toDigits (by decide) (by decide) h

theorem decimalDigits_ne_nil (n : Nat) : decimalDigits n ≠ [] := Nat.toDigits_ne_nil

/-- The number that digits spell behind those of another. -/
def spelled (n : Nat) (ds : List Char) : Nat := ds.foldl (fun n d => n * 10 + digitValue d) n

theorem spelled_decimalDigits (n : Nat) : spelled 0 (decimalDigits n) = n := by
  have h := Nat.ofDigitChars_toDigits (b := 10) (n := n) (by decide) (by decide)
  simp only [Nat.ofDigitChars_eq_foldl, Nat.mul_comm 10] at h
  exact h

theorem le_spelled (n : Nat) (ds : List Char) : n ≤ spelled n ds := by
  induction ds generalizing n with
  | nil => exact Nat.le_refl n
  | cons d ds ih => exact Nat.le_trans (by omega) (ih (n * 10 + digitValue d))

/-- No zero stands before other digits. -/
theorem eq_nil_of_decimalDigits {n : Nat} {ds : List Char} (h : decimalDigits n = '0' :: ds) :
    ds = [] := by
  induction n using Nat.strongRecOn generalizing ds with
  | ind n ih =>
      by_cases hn : n < 10
      · rw [decimalDigits, Nat.toDigits_of_lt_base hn] at h
        exact (List.cons.inj h).2.symm
      · rw [decimalDigits, Nat.toDigits_of_base_le (by decide) (by omega)] at h
        rcases hfront : decimalDigits (n / 10) with _ | ⟨d, front⟩
        · exact absurd hfront (decimalDigits_ne_nil _)
        · -- The digits but the last would spell nothing, while there is at least a ten.
          rw [← decimalDigits, hfront, List.cons_append] at h
          obtain ⟨rfl, -⟩ := List.cons.inj h
          have hzero := spelled_decimalDigits (n / 10)
          rw [hfront, ih (n / 10) (by omega) hfront] at hzero
          have : spelled 0 ['0'] = 0 := rfl
          omega

theorem spelled_concat (n : Nat) (ds : List Char) (d : Char) :
    spelled n (ds ++ [d]) = spelled n ds * 10 + digitValue d := by
  rw [spelled, List.foldl_append]
  rfl

theorem digitValue_lt {d : Char} (h : d.isDigit = true) : digitValue d < 10 := by
  rw [Char.isDigit, Bool.and_eq_true, decide_eq_true_eq, decide_eq_true_eq] at h
  have : d.toNat ≤ 57 := h.2
  rw [digitValue, show '0'.toNat = 48 by rfl]
  omega

theorem digitChar_digitValue {d : Char} (h : d.isDigit = true) : (digitValue d).digitChar = d := by
  have hlt := digitValue_lt h
  rw [Char.isDigit, Bool.and_eq_true, decide_eq_true_eq, decide_eq_true_eq] at h
  have : 48 ≤ d.toNat := h.1
  refine Char.toNat_inj.mp ?_
  rw [Nat.toNat_digitChar_of_lt_ten hlt, digitValue, show '0'.toNat = 48 by rfl]
  omega

/-- Digits of a number, of which none but a lone one is a zero in front. -/
structure IsDigits (ds : List Char) : Prop where
  ne_nil : ds ≠ []
  isDigit {d : Char} : d ∈ ds → d.isDigit = true
  eq_nil {ds' : List Char} : ds = '0' :: ds' → ds' = []

theorem isDigits_decimalDigits (n : Nat) : IsDigits (decimalDigits n) :=
  ⟨decimalDigits_ne_nil n, isDigit_of_mem_decimalDigits, eq_nil_of_decimalDigits⟩

/-- No number has two texts without a zero in front. -/
theorem IsDigits.eq_decimalDigits {ds : List Char} (h : IsDigits ds) :
    ds = decimalDigits (spelled 0 ds) := by
  induction ds using List.reverseRecOn with
  | nil => exact absurd rfl h.ne_nil
  | append_singleton ds d ih =>
      have hd : d.isDigit = true := h.isDigit (List.mem_append_right ds List.mem_cons_self)
      have hdigit : decimalDigits (digitValue d) = [d] := by
        rw [decimalDigits, Nat.toDigits_of_lt_base (digitValue_lt hd), digitChar_digitValue hd]
      rw [spelled_concat]
      by_cases hds : ds = []
      · rw [hds, List.nil_append, ← hdigit]
        simp [spelled]
      · have hfront : IsDigits ds := by
          refine ⟨hds, fun hd' => h.isDigit (List.mem_append_left _ hd'), fun heq => ?_⟩
          exact absurd (h.eq_nil (by rw [heq, List.cons_append])) (by simp)
        have heq := ih hfront
        have hpos : 0 < spelled 0 ds := by
          refine Nat.pos_of_ne_zero fun hzero => ?_
          rw [hzero, show decimalDigits 0 = ['0'] by rfl] at heq
          exact absurd (h.eq_nil (by rw [heq]; rfl)) (List.cons_ne_nil _ _)
        have happend := Nat.toDigits_append_toDigits (b := 10) (by decide) hpos (digitValue_lt hd)
        rw [← decimalDigits, ← decimalDigits, ← decimalDigits, ← heq, hdigit, Nat.mul_comm 10] at happend
        exact happend

theorem isDigit_or_minus_of_mem_decimalChars {i : Int} {c : Char} (h : c ∈ decimalChars i) :
    c.isDigit = true ∨ c = '-' := by
  rw [decimalChars] at h
  split at h
  · rcases List.mem_cons.mp h with rfl | h
    · exact .inr rfl
    · exact .inl (isDigit_of_mem_decimalDigits h)
  · exact .inl (isDigit_of_mem_decimalDigits h)

theorem ne_of_isDigit_or_minus {c d : Char} (hc : c.isDigit = true ∨ c = '-')
    (hd : (d.isDigit || d == '-') = false) : c ≠ d := by
  rintro rfl
  rcases hc with hc | rfl
  · rw [hc] at hd
    cases hd
  · cases hd

theorem exists_decimalDigits_eq_cons (n : Nat) :
    ∃ d ds, decimalDigits n = d :: ds ∧ d.isDigit = true := by
  rcases h : decimalDigits n with _ | ⟨d, ds⟩
  · exact absurd h (decimalDigits_ne_nil n)
  · exact ⟨d, ds, rfl, isDigit_of_mem_decimalDigits (h ▸ List.mem_cons_self)⟩

theorem decimalChars_of_neg {i : Int} (h : i < 0) :
    decimalChars i = '-' :: decimalDigits i.natAbs := if_pos h

theorem decimalChars_of_nonneg {i : Int} (h : 0 ≤ i) :
    decimalChars i = decimalDigits i.natAbs := if_neg (by omega)

theorem exists_decimalChars_eq_cons (i : Int) :
    ∃ c cs, decimalChars i = c :: cs ∧ (c.isDigit = true ∨ c = '-') := by
  rcases h : decimalChars i with _ | ⟨c, cs⟩
  · rw [decimalChars] at h
    split at h
    · cases h
    · exact absurd h (decimalDigits_ne_nil _)
  · exact ⟨c, cs, rfl, isDigit_or_minus_of_mem_decimalChars (h ▸ List.mem_cons_self)⟩

/-! ## Literals -/

/-- A literal of a whole number: digits, and at most a minus sign before them. -/
inductive IsLiteral : List Char → Int → Prop
  | digits {ds} : ds ≠ [] → (∀ d ∈ ds, d.isDigit = true) → IsLiteral ds (spelled 0 ds)
  | minus {ds} : ds ≠ [] → (∀ d ∈ ds, d.isDigit = true) → IsLiteral ('-' :: ds) (-spelled 0 ds)

/-- What is read as a whole number: a literal, or one behind a plus sign. -/
inductive IsNumeral : List Char → Int → Prop
  | literal {cs i} : IsLiteral cs i → IsNumeral cs i
  | plus {ds} : ds ≠ [] → (∀ d ∈ ds, d.isDigit = true) → IsNumeral ('+' :: ds) (spelled 0 ds)

theorem IsLiteral.head?_ne_plus {cs : List Char} {i : Int} (h : IsLiteral cs i) :
    cs.head? ≠ some '+' := by
  cases h with
  | digits _ hdigits =>
      intro hplus
      exact absurd (hdigits _ (List.mem_of_head? hplus)) (by decide)
  | minus _ _ => simp

theorem IsNumeral.isLiteral_iff {cs : List Char} {i : Int} (h : IsNumeral cs i) :
    IsLiteral cs i ↔ cs.head? ≠ some '+' := by
  refine ⟨IsLiteral.head?_ne_plus, fun hplus => ?_⟩
  cases h with
  | literal h => exact h
  | plus _ _ => exact absurd rfl hplus

/-- Nothing but digits and signs stands in a numeral. -/
theorem IsNumeral.not_mem {cs : List Char} {i : Int} {c : Char} (h : IsNumeral cs i)
    (hc : (c.isDigit || c == '+' || c == '-') = false) : c ∉ cs := by
  simp only [Bool.or_eq_false_iff, beq_eq_false_iff_ne] at hc
  obtain ⟨⟨hdigit, hplus⟩, hminus⟩ := hc
  have hdigits {ds : List Char} (hds : ∀ d ∈ ds, d.isDigit = true) : c ∉ ds := fun hmem =>
    Bool.eq_false_iff.mp hdigit (hds c hmem)
  cases h with
  | plus _ hds => exact List.not_mem_cons_of_ne_of_not_mem hplus (hdigits hds)
  | literal h =>
      cases h with
      | digits _ hds => exact hdigits hds
      | minus _ hds => exact List.not_mem_cons_of_ne_of_not_mem hminus (hdigits hds)

/-! ## Tokens of whole numbers -/

/-- A number of a JSON text without fraction and exponent. -/
inductive IsIntegerToken : List Char → Int → Prop
  | digits {ds} (h : IsDigits ds) : IsIntegerToken ds (spelled 0 ds)
  | minus {ds} (h : IsDigits ds) : IsIntegerToken ('-' :: ds) (-spelled 0 ds)

theorem isIntegerToken_decimalChars (i : Int) : IsIntegerToken (decimalChars i) i := by
  have hdigits := isDigits_decimalDigits i.natAbs
  by_cases hneg : i < 0
  · have h := IsIntegerToken.minus hdigits
    rwa [spelled_decimalDigits, show -(i.natAbs : Int) = i by omega, ← decimalChars_of_neg hneg] at h
  · have h := IsIntegerToken.digits hdigits
    rwa [spelled_decimalDigits, show (i.natAbs : Int) = i by omega,
      ← decimalChars_of_nonneg (Int.not_lt.mp hneg)] at h

theorem IsIntegerToken.isLiteral {cs : List Char} {i : Int} (h : IsIntegerToken cs i) : IsLiteral cs i := by
  cases h with
  | digits h => exact .digits h.ne_nil fun _ => h.isDigit
  | minus h => exact .minus h.ne_nil fun _ => h.isDigit

theorem decimalChars_ne_minus_zero (i : Int) : decimalChars i ≠ ['-', '0'] := by
  intro h
  by_cases hneg : i < 0
  · rw [decimalChars_of_neg hneg] at h
    have hspelled := spelled_decimalDigits i.natAbs
    rw [(List.cons.inj h).2, show spelled 0 ['0'] = 0 by rfl] at hspelled
    omega
  · rw [decimalChars_of_nonneg (Int.not_lt.mp hneg)] at h
    exact absurd ((isDigits_decimalDigits _).isDigit (h ▸ List.mem_cons_self)) (by decide)

/-- A whole number has one token only, but for zero, which may have a sign. -/
theorem IsIntegerToken.eq_decimalChars {cs : List Char} {i : Int} (h : IsIntegerToken cs i)
    (hne : cs ≠ ['-', '0']) : cs = decimalChars i := by
  cases h with
  | digits h =>
      rw [decimalChars_of_nonneg (Int.natCast_nonneg _), Int.natAbs_natCast]
      exact h.eq_decimalDigits
  | @minus ds h =>
      have hneg : -((spelled 0 ds : Nat) : Int) < 0 := by
        refine Int.neg_neg_of_pos (Int.natCast_pos.mpr (Nat.pos_of_ne_zero fun hzero => ?_))
        exact hne (by rw [h.eq_decimalDigits, hzero]; rfl)
      rw [decimalChars_of_neg hneg, Int.natAbs_neg, Int.natAbs_natCast, ← h.eq_decimalDigits]

/-! ## Reading within a range -/

theorem contains_iff {range : IntegerRange} {i : Int} :
    range.contains i = true ↔ range.least ≤ i ∧ i ≤ range.greatest := by
  rw [IntegerRange.contains, Bool.and_eq_true, decide_eq_true_eq, decide_eq_true_eq]

theorem accumulate_cons_digit {range : IntegerRange} {sign : Int} {d : Char} (hd : d.isDigit = true)
    (n : Nat) (ds : List Char) : accumulate range sign (sign * n) (d :: ds) =
      if range.greatest < sign * ↑(n * 10 + digitValue d) then .error .tooLarge
      else if sign * ↑(n * 10 + digitValue d) < range.least then .error .tooSmall
      else accumulate range sign (sign * ↑(n * 10 + digitValue d)) ds := by
  have hnext : sign * (n : Int) * 10 + sign * digitValue d = sign * ↑(n * 10 + digitValue d) := by
    push_cast
    rw [Int.mul_add, Int.mul_assoc]
  rw [accumulate, if_pos hd, hnext]

/-- Digits are read on with a sign as long as nothing up to the result leaves the range. -/
theorem accumulate_of_contains {range : IntegerRange} {sign : Int} {ds : List Char} {n : Nat}
    (hdigits : ∀ d ∈ ds, d.isDigit = true)
    (hrange : ∀ k ≤ spelled n ds, range.contains (sign * k) = true) :
    accumulate range sign (sign * n) ds = .ok (sign * spelled n ds) := by
  induction ds generalizing n with
  | nil => rfl
  | cons d ds ih =>
      have hcontains := contains_iff.mp (hrange (n * 10 + digitValue d) (le_spelled _ ds))
      rw [accumulate_cons_digit (hdigits d List.mem_cons_self), if_neg (by omega),
        if_neg (by omega)]
      exact ih (fun d' hd' => hdigits d' (List.mem_cons_of_mem _ hd')) hrange

theorem readInteger_cons_digit {range : IntegerRange} {d : Char} (hd : d.isDigit = true)
    (ds : List Char) : readInteger range (d :: ds) = accumulate range 1 0 (d :: ds) := by
  have hplus : d ≠ '+' := by rintro rfl; exact absurd hd (by decide)
  have hminus : d ≠ '-' := by rintro rfl; exact absurd hd (by decide)
  rw [readInteger] <;> simp [hplus, hminus]

theorem readInteger_plus {range : IntegerRange} {ds : List Char} (hds : ds ≠ []) :
    readInteger range ('+' :: ds) = accumulate range 1 0 ds := by
  rw [readInteger]
  exact hds

theorem readInteger_minus {range : IntegerRange} (h : range.least < 0) {ds : List Char}
    (hds : ds ≠ []) : readInteger range ('-' :: ds) = accumulate range (-1) 0 ds := by
  rw [readInteger, if_pos h]
  exact hds

/-- From nothing up to a number of the range, either way, all is in the range. -/
theorem accumulate_digits {range : IntegerRange} (hzero : range.contains 0 = true) {sign : Int}
    {ds : List Char} (hdigits : ∀ d ∈ ds, d.isDigit = true)
    (h : range.contains (sign * spelled 0 ds) = true) (hsign : sign = 1 ∨ sign = -1) :
    accumulate range sign 0 ds = .ok (sign * spelled 0 ds) := by
  have hrange : ∀ k ≤ spelled 0 ds, range.contains (sign * k) = true := by
    intro k hk
    rw [contains_iff] at h hzero ⊢
    rcases hsign with rfl | rfl <;> omega
  have haccumulate := accumulate_of_contains hdigits hrange
  rwa [Int.natCast_zero, Int.mul_zero] at haccumulate

/-- A numeral of a number in the range is read as that number. -/
theorem readInteger_of_isNumeral {range : IntegerRange} (hzero : range.contains 0 = true)
    {cs : List Char} {i : Int} (h : IsNumeral cs i) (hminus : cs.head? = some '-' → range.least < 0)
    (hrange : range.contains i = true) : readInteger range cs = .ok i := by
  cases h with
  | @plus ds hne hdigits =>
      have haccumulate : accumulate range 1 0 ds = .ok (1 * spelled 0 ds) :=
        accumulate_digits hzero hdigits (by rwa [Int.one_mul]) (.inl rfl)
      rw [readInteger_plus hne, haccumulate, Int.one_mul]
  | literal h =>
      cases h with
      | digits hne hdigits =>
          have haccumulate : accumulate range 1 0 cs = .ok (1 * spelled 0 cs) :=
            accumulate_digits hzero hdigits (by rwa [Int.one_mul]) (.inl rfl)
          obtain ⟨d, ds, rfl⟩ := List.exists_cons_of_ne_nil hne
          rw [readInteger_cons_digit (hdigits d List.mem_cons_self), haccumulate, Int.one_mul]
      | @minus ds hne hdigits =>
          have haccumulate : accumulate range (-1) 0 ds = .ok (-1 * spelled 0 ds) :=
            accumulate_digits hzero hdigits (by rwa [Int.neg_one_mul]) (.inr rfl)
          rw [readInteger_minus (hminus rfl) hne, haccumulate, Int.neg_one_mul]

/-- What is read on from a number is digits, and leads to a number of the range. -/
theorem of_accumulate_eq_ok {range : IntegerRange} {sign : Int} {ds : List Char} {n : Nat} {i : Int}
    (hn : range.contains (sign * n) = true)
    (h : accumulate range sign (sign * n) ds = .ok i) :
    (∀ d ∈ ds, d.isDigit = true) ∧ i = sign * spelled n ds ∧ range.contains i = true := by
  induction ds generalizing n with
  | nil =>
      obtain rfl := Except.ok.inj h
      exact ⟨by simp, rfl, hn⟩
  | cons d ds ih =>
      by_cases hdigit : d.isDigit = true
      · rw [accumulate_cons_digit hdigit] at h
        split at h
        · cases h
        · split at h
          · cases h
          · rename_i hgreatest hleast
            have hcontains := contains_iff.mpr ⟨Int.not_lt.mp hleast, Int.not_lt.mp hgreatest⟩
            obtain ⟨hdigits, hi, hrange⟩ := ih hcontains h
            exact ⟨List.forall_mem_cons.mpr ⟨hdigit, hdigits⟩, hi, hrange⟩
      · rw [accumulate, if_neg hdigit] at h
        cases h

/-- A text that is read is a numeral of the number that it is read as, which is in the range. -/
theorem isNumeral_of_readInteger {range : IntegerRange} (hzero : range.contains 0 = true)
    {cs : List Char} {i : Int} (h : readInteger range cs = .ok i) :
    IsNumeral cs i ∧ range.contains i = true := by
  have hread {sign : Int} {ds : List Char} (h : accumulate range sign 0 ds = .ok i) :
      (∀ d ∈ ds, d.isDigit = true) ∧ i = sign * spelled 0 ds ∧ range.contains i = true := by
    refine of_accumulate_eq_ok ?_ ?_
    · simpa using hzero
    · simpa using h
  unfold readInteger at h
  split at h
  · cases h
  · cases h
  · cases h
  · rename_i ds hne
    obtain ⟨hdigits, hi, hrange⟩ := hread h
    rw [Int.one_mul] at hi
    exact ⟨hi ▸ .plus (fun hnil => hne (hnil ▸ rfl)) hdigits, hrange⟩
  · rename_i ds hne
    split at h
    · obtain ⟨hdigits, hi, hrange⟩ := hread h
      rw [Int.neg_one_mul] at hi
      exact ⟨hi ▸ .literal (.minus (fun hnil => hne (hnil ▸ rfl)) hdigits), hrange⟩
    · cases h
  · rename_i hnil _ _ _ _
    obtain ⟨hdigits, hi, hrange⟩ := hread h
    rw [Int.one_mul] at hi
    exact ⟨hi ▸ .literal (.digits hnil hdigits), hrange⟩

/-- What is read within a range that has negative numbers is exactly the numerals of its numbers. -/
theorem readInteger_eq_ok_iff {range : IntegerRange} (hzero : range.contains 0 = true)
    (hneg : range.least < 0) {cs : List Char} {i : Int} :
    readInteger range cs = .ok i ↔ IsNumeral cs i ∧ range.contains i = true :=
  ⟨isNumeral_of_readInteger hzero, fun h => readInteger_of_isNumeral hzero h.1 (fun _ => hneg) h.2⟩

/-- The numbers that are no further from zero than a given one, and one more. -/
def IntegerRange.about (i : Int) : IntegerRange := ⟨-(i.natAbs + 1), i.natAbs⟩

theorem contains_about (i : Int) :
    (IntegerRange.about i).contains 0 = true ∧ (IntegerRange.about i).contains i = true := by
  rw [contains_iff, contains_iff, IntegerRange.about]
  dsimp only
  omega

/-- A numeral of a number is what a range that goes as far as the number has for it. -/
theorem isNumeral_iff {cs : List Char} {i : Int} :
    IsNumeral cs i ↔ (readInteger (.about i) cs).toOption = some i := by
  have hneg : (IntegerRange.about i).least < 0 := by
    rw [IntegerRange.about]
    dsimp only
    omega
  have hread : readInteger (.about i) cs = .ok i ↔ IsNumeral cs i ∧ (IntegerRange.about i).contains i = true :=
    readInteger_eq_ok_iff (contains_about i).1 hneg
  rw [and_iff_left (contains_about i).2] at hread
  rw [← hread]
  cases readInteger (.about i) cs <;> simp [Except.toOption]

instance (cs : List Char) (i : Int) : Decidable (IsNumeral cs i) :=
  decidable_of_iff _ isNumeral_iff.symm

theorem readInteger_decimalChars {range : IntegerRange} (hzero : range.contains 0 = true) {i : Int}
    (h : range.contains i = true) : readInteger range (decimalChars i) = .ok i := by
  refine readInteger_of_isNumeral hzero (.literal (isIntegerToken_decimalChars i).isLiteral) (fun hminus => ?_) h
  by_cases hneg : i < 0
  · have := (contains_iff.mp h).1
    omega
  · obtain ⟨d, ds, hds, hd⟩ := exists_decimalDigits_eq_cons i.natAbs
    rw [decimalChars_of_nonneg (Int.not_lt.mp hneg), hds, List.head?_cons] at hminus
    rw [Option.some.inj hminus] at hd
    exact absurd hd (by decide)

end Text

/-! ## Numbers of a JSON text -/

namespace Json

open Text Utf8

namespace Number

/-- No digit is left exactly if the number that all of them spell is not too great. -/
theorem takeIn_eq_iff {n k : Nat} (hn : n ≤ maxSignificand) {ds : List Char} :
    takeIn n ds = (k, []) ↔ k = spelled n ds ∧ k ≤ maxSignificand := by
  induction ds generalizing n with
  | nil =>
      rw [takeIn, Prod.mk.injEq, and_iff_left rfl, eq_comm]
      exact ⟨fun h => ⟨h, h ▸ hn⟩, And.left⟩
  | cons d ds ih =>
      dsimp only [takeIn]
      split
      · exact ih ‹_›
      · rename_i hgreat
        refine iff_of_false (fun h => List.cons_ne_nil _ _ (Prod.mk.inj h).2) ?_
        rintro ⟨rfl, hle⟩
        exact hgreat (Nat.le_trans (le_spelled _ ds) hle)

/-- Every whole number that 64 bits hold, signed or not, has its own value. -/
theorem ofText?_decimalChars {i : Int} (hleast : -(2 ^ 63) ≤ i) (hgreatest : i < 2 ^ 64) :
    ofText? (decimalChars i) = some (.whole i) := by
  have htake : (decimalDigits i.natAbs).takeWhile Char.isDigit = decimalDigits i.natAbs :=
    List.takeWhile_eq_self_iff.mpr fun _ h => isDigit_of_mem_decimalDigits h
  have hdrop : (decimalDigits i.natAbs).dropWhile Char.isDigit = [] :=
    List.dropWhile_eq_nil_iff.mpr fun _ h => isDigit_of_mem_decimalDigits h
  have hmax : spelled 0 (decimalDigits i.natAbs) ≤ maxSignificand := by
    rw [spelled_decimalDigits, show maxSignificand = 2 ^ 64 - 1 by rfl]
    omega
  have htakeIn := (takeIn_eq_iff (Nat.zero_le _)).mpr ⟨rfl, hmax⟩
  rw [spelled_decimalDigits] at htakeIn
  by_cases hneg : i < 0
  · have hfits : (!(i.natAbs == 0 || decide (Nat.pow 2 63 < i.natAbs))) = true := by
      rw [show Nat.pow 2 63 = 2 ^ 63 by rfl]
      simp only [Bool.not_eq_true', Bool.or_eq_false_iff, beq_eq_false_iff_ne, decide_eq_false_iff_not]
      omega
    rw [decimalChars_of_neg hneg]
    simp only [ofText?, List.head?_cons, beq_self_eq_true, if_true, List.drop_succ_cons, List.drop_zero,
      htake, hdrop, htakeIn, List.isEmpty_nil, Bool.true_and, hfits]
    congr
    omega
  · obtain ⟨d, ds, hds, hd⟩ := exists_decimalDigits_eq_cons i.natAbs
    have hminus : ((decimalDigits i.natAbs).head? == some '-') = false := by
      rw [hds, List.head?_cons, beq_eq_false_iff_ne]
      rintro h
      rw [Option.some.inj h] at hd
      exact absurd hd (by decide)
    rw [decimalChars_of_nonneg (by omega)]
    simp only [ofText?, hminus, Bool.false_eq_true, if_false, htake, hdrop, htakeIn, List.isEmpty_nil,
      Bool.true_and, Bool.false_and, Bool.not_false, if_true]
    congr
    omega

end Number

theorem numberValue_decimalChars {i : Int} (hleast : -(2 ^ 63) ≤ i) (hgreatest : i < 2 ^ 64) :
    numberValue (decimalChars i) = .ok (.whole i) := by
  rw [numberValue, Number.ofText?_decimalChars hleast hgreatest]

/-! ## The grammar of numbers -/

/-- The text does not begin with a character of a kind. -/
def Halts (p : Char → Bool) : Received → Prop
  | some c :: _ => p c = false
  | _ => True

theorem Halts.mono {p q : Char → Bool} (h : ∀ c, q c = true → p c = true) :
    {s : Received} → Halts p s → Halts q s
  | [], _ | none :: _, _ => trivial
  | some c :: _, hs => Bool.eq_false_iff.mpr fun hq => Bool.eq_false_iff.mp hs (h c hq)

theorem span_of_halts {p : Char → Bool} (acc : List Char) :
    {s : Received} → Halts p s → span p acc s = (acc.reverse, s)
  | [], _ | none :: _, _ => rfl
  | some c :: s, hs => by rw [span, hs, if_neg Bool.false_ne_true]

theorem span_append {p : Char → Bool} {cs : List Char} (hcs : ∀ c ∈ cs, p c = true) {s : Received}
    (hs : Halts p s) (acc : List Char) : span p acc (cs.map some ++ s) = (acc.reverse ++ cs, s) := by
  induction cs generalizing acc with
  | nil =>
      rw [List.map_nil, List.nil_append, List.append_nil, span_of_halts acc hs]
  | cons c cs ih =>
      rw [List.map_cons, List.cons_append, span, if_pos (hcs c List.mem_cons_self),
        ih fun c' hc' => hcs c' (List.mem_cons_of_mem _ hc')]
      simp

theorem wholePart_decimalDigits (n : Nat) {s : Received} (hs : Halts Char.isDigit s) :
    wholePart ((decimalDigits n).map some ++ s) = some (decimalDigits n, s) := by
  have hdigits : digits ((decimalDigits n).map some ++ s) = (decimalDigits n, s) :=
    span_append (fun _ h => isDigit_of_mem_decimalDigits h) hs []
  rw [wholePart, hdigits]
  split
  · rename_i heq
    exact absurd (Prod.mk.inj heq).1 (decimalDigits_ne_nil n)
  · rename_i heq
    exact absurd (eq_nil_of_decimalDigits (Prod.mk.inj heq).1) (List.cons_ne_nil _ _)
  · rename_i heq
    rw [heq]

/-- A character that carries a whole number on. -/
def continuesNumber (c : Char) : Bool := c.isDigit || c == '.' || c == 'e' || c == 'E'

theorem fractionPart_of_halts {s : Received} (hs : Halts continuesNumber s) :
    fractionPart s = some ([], s) := by
  match s, hs with
  | [], _ | none :: _, _ => rfl
  | some c :: s, hs =>
    rw [fractionPart]
    rintro s' heq
    rw [Option.some.inj (List.cons.inj heq).1] at hs
    exact absurd (show continuesNumber '.' = false from hs) (by decide)

theorem exponentPart_of_halts {s : Received} (hs : Halts continuesNumber s) :
    exponentPart s = some ([], s) := by
  match s, hs with
  | [], _ | none :: _, _ => rfl
  | some c :: s, hs =>
    simp only [Halts, continuesNumber, Bool.or_eq_false_iff] at hs
    rw [exponentPart, hs.1.2, hs.2]
    rfl

theorem readNumber_of_parts {s s' rest : Received} {sign whole : List Char}
    (hsign : minusSign s = (sign, s')) (hwhole : wholePart s' = some (whole, rest))
    (hrest : Halts continuesNumber rest) : readNumber s = some (sign ++ whole, rest) := by
  rw [readNumber, hsign]
  simp only [Option.bind_eq_bind, hwhole, Option.bind_some, fractionPart_of_halts hrest,
    exponentPart_of_halts hrest, List.append_nil]
  rfl

theorem readNumber_decimalChars (i : Int) {s : Received} (hs : Halts continuesNumber s) :
    readNumber ((decimalChars i).map some ++ s) = some (decimalChars i, s) := by
  have hwhole := wholePart_decimalDigits i.natAbs
    (hs.mono fun c hc => by rw [continuesNumber, hc]; rfl)
  by_cases hneg : i < 0
  · rw [decimalChars_of_neg hneg]
    exact readNumber_of_parts rfl hwhole hs
  · rw [decimalChars_of_nonneg (by omega)]
    have hsign : minusSign ((decimalDigits i.natAbs).map some ++ s) =
        ([], (decimalDigits i.natAbs).map some ++ s) := by
      obtain ⟨d, ds, hds, hd⟩ := exists_decimalDigits_eq_cons i.natAbs
      rw [hds, List.map_cons, List.cons_append, minusSign]
      rintro s' heq
      rw [Option.some.inj (List.cons.inj heq).1] at hd
      exact absurd hd (by decide)
    exact readNumber_of_parts hsign hwhole hs

end Json
end Bindery
