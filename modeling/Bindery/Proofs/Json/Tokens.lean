import Bindery.Proofs.Json.Printing

/-! # Texts of one token

A text that holds a number or a string, and nothing else but blanks, is characterised by the grammar: it is
read as a whole number exactly if it is the token of one (`read_number_iff`), and as a string exactly if what
stands between its quotes spells a text (`read_string_iff`). -/

namespace Bindery.Json

open Text Utf8

/-! ## What is read as a number -/

theorem of_span {p : Char → Bool} {acc cs : List Char} {s rest : Received} (h : span p acc s = (cs, rest)) :
    ∃ ds, cs = acc.reverse ++ ds ∧ (∀ d ∈ ds, p d = true) ∧ s = ds.map some ++ rest ∧ Halts p rest := by
  fun_induction span p acc s with
  | case1 acc c s hc ih =>
      obtain ⟨ds, rfl, hds, rfl, hrest⟩ := ih h
      exact ⟨c :: ds, by simp, List.forall_mem_cons.mpr ⟨hc, hds⟩, rfl, hrest⟩
  | case2 acc c s hc =>
      obtain ⟨rfl, rfl⟩ := Prod.mk.inj h
      exact ⟨[], by simp, by simp, rfl, Bool.eq_false_iff.mpr hc⟩
  | case3 acc s hs =>
      obtain ⟨rfl, rfl⟩ := Prod.mk.inj h
      refine ⟨[], by simp, by simp, rfl, ?_⟩
      match s, hs with
      | [], _ | none :: _, _ => trivial
      | some c :: s, hs => exact absurd rfl (hs c s)

theorem of_digits {s rest : Received} {ds : List Char} (h : digits s = (ds, rest)) :
    (∀ d ∈ ds, d.isDigit = true) ∧ s = ds.map some ++ rest := by
  obtain ⟨_, rfl, hds, hs, -⟩ := of_span h
  exact ⟨hds, hs⟩

theorem of_minusSign {s rest : Received} {sign : List Char} (h : minusSign s = (sign, rest)) :
    (sign = [] ∨ sign = ['-']) ∧ s = sign.map some ++ rest := by
  unfold minusSign at h
  split at h <;> obtain ⟨rfl, rfl⟩ := Prod.mk.inj h
  · exact ⟨.inr rfl, rfl⟩
  · exact ⟨.inl rfl, rfl⟩

theorem of_wholePart {s rest : Received} {ds : List Char} (h : wholePart s = some (ds, rest)) :
    IsDigits ds ∧ s = ds.map some ++ rest := by
  unfold wholePart at h
  split at h
  · cases h
  · cases h
  · rename_i hne hzero hdigits
    obtain ⟨rfl, rfl⟩ := Prod.mk.inj (Option.some.inj h)
    obtain ⟨hds, hs⟩ := of_digits hdigits
    refine ⟨⟨fun hnil => ?_, fun {d} => hds d, fun {ds'} heq => ?_⟩, hs⟩
    · exact hne hnil
    · cases ds' with
      | nil => rfl
      | cons d ds' => exact absurd heq (hzero d ds')

/-- A fraction begins with a point. -/
theorem of_fractionPart {s rest : Received} {cs : List Char} (h : fractionPart s = some (cs, rest)) :
    (cs = [] ∨ cs.head? = some '.') ∧ s = cs.map some ++ rest := by
  unfold fractionPart at h
  split at h
  · split at h
    · cases h
    · rename_i hdigits
      obtain ⟨rfl, rfl⟩ := Prod.mk.inj (Option.some.inj h)
      exact ⟨.inr rfl, congrArg (some '.' :: ·) (of_digits hdigits).2⟩
  · obtain ⟨rfl, rfl⟩ := Prod.mk.inj (Option.some.inj h)
    exact ⟨.inl rfl, rfl⟩

theorem of_exponentSign {s rest : Received} {sign : List Char} (h : exponentSign s = (sign, rest)) :
    s = sign.map some ++ rest := by
  unfold exponentSign at h
  split at h <;> obtain ⟨rfl, rfl⟩ := Prod.mk.inj h <;> rfl

/-- An exponent begins with its letter. -/
theorem of_exponentPart {s rest : Received} {cs : List Char} (h : exponentPart s = some (cs, rest)) :
    (cs = [] ∨ ∃ e, cs.head? = some e ∧ (e = 'e' ∨ e = 'E')) ∧ s = cs.map some ++ rest := by
  unfold exponentPart at h
  split at h
  · rename_i e s
    split at h
    · rename_i he
      simp only [Bool.or_eq_true, beq_iff_eq] at he
      dsimp only at h
      split at h
      · cases h
      · rename_i hdigits
        obtain ⟨rfl, rfl⟩ := Prod.mk.inj (Option.some.inj h)
        refine ⟨.inr ⟨e, rfl, he⟩, ?_⟩
        have hsign := of_exponentSign (Prod.eta (exponentSign s)).symm
        rw [(of_digits hdigits).2] at hsign
        simpa using hsign
    · obtain ⟨rfl, rfl⟩ := Prod.mk.inj (Option.some.inj h)
      exact ⟨.inl rfl, rfl⟩
  · obtain ⟨rfl, rfl⟩ := Prod.mk.inj (Option.some.inj h)
    exact ⟨.inl rfl, rfl⟩

/-- A number has digits, at most a minus sign before them, and behind them what begins with no digit. -/
theorem exists_of_readNumber {s rest : Received} {text : List Char} (h : readNumber s = some (text, rest)) :
    ∃ sign ds tail, (sign = [] ∨ sign = ['-']) ∧ IsDigits ds ∧ Halts Char.isDigit (tail.map some) ∧
      text = sign ++ (ds ++ tail) ∧ s = text.map some ++ rest := by
  simp only [readNumber, Option.bind_eq_bind, Option.bind_eq_some_iff, Prod.exists, Option.pure_def,
    Option.some.injEq, Prod.mk.injEq] at h
  obtain ⟨ds, _, hwhole, fraction, _, hfraction, exponent, _, hexponent, rfl, rfl⟩ := h
  obtain ⟨hsign, hs⟩ := of_minusSign (Prod.eta (minusSign s)).symm
  obtain ⟨hds, hwhole⟩ := of_wholePart hwhole
  obtain ⟨hpoint, rfl⟩ := of_fractionPart hfraction
  obtain ⟨hletter, rfl⟩ := of_exponentPart hexponent
  refine ⟨_, ds, fraction ++ exponent, hsign, hds, ?_, rfl, ?_⟩
  · rcases hpoint with rfl | hpoint
    · rcases hletter with rfl | ⟨e, he, rfl | rfl⟩
      · trivial
      all_goals obtain ⟨cs, rfl⟩ := List.head?_eq_some_iff.mp he; rfl
    · obtain ⟨cs, rfl⟩ := List.head?_eq_some_iff.mp hpoint
      rfl
  · rw [hwhole] at hs
    simpa using hs

namespace Number

theorem takeWhile_digits {ds tail : List Char} (hds : ∀ d ∈ ds, d.isDigit = true)
    (htail : Halts Char.isDigit (tail.map some)) :
    (ds ++ tail).takeWhile Char.isDigit = ds ∧ (ds ++ tail).dropWhile Char.isDigit = tail := by
  rw [List.takeWhile_append_of_pos hds, List.dropWhile_append_of_pos hds]
  match tail, htail with
  | [], _ => simp
  | c :: tail, hc =>
    rw [List.takeWhile_cons_of_neg (Bool.eq_false_iff.mp hc), List.dropWhile_cons_of_neg (Bool.eq_false_iff.mp hc),
      List.append_nil]
    exact ⟨rfl, rfl⟩

/-- A whole number is read from its digits alone, and never from a zero with a sign. -/
theorem of_ofText?_eq_whole {sign ds tail : List Char} {i : Int} (hsign : sign = [] ∨ sign = ['-'])
    (hds : IsDigits ds) (htail : Halts Char.isDigit (tail.map some))
    (h : ofText? (sign ++ (ds ++ tail)) = some (.whole i)) :
    tail = [] ∧ IsIntegerToken (sign ++ ds) i ∧ sign ++ ds ≠ ['-', '0'] ∧ -(2 ^ 63) ≤ i ∧ i < 2 ^ 64 := by
  obtain ⟨htake, hdrop⟩ := takeWhile_digits (fun _ => hds.isDigit) htail
  rcases htakeIn : takeIn 0 ds with ⟨k, left⟩
  have hmax : maxSignificand = 2 ^ 64 - 1 := rfl
  rcases hsign with rfl | rfl
  · have hhead {d : Char} (h : ds.head? = some d) : d ≠ '-' := by
      rintro rfl
      exact absurd (hds.isDigit (List.mem_of_head? h)) (by decide)
    have hminus : ((ds ++ tail).head? == some '-') = false := by
      obtain ⟨d, ds', rfl⟩ := List.exists_cons_of_ne_nil hds.ne_nil
      rw [List.cons_append, List.head?_cons, beq_eq_false_iff_ne]
      exact fun heq => hhead rfl (Option.some.inj heq)
    rw [List.nil_append] at h ⊢
    simp only [ofText?, hminus, Bool.false_eq_true, if_false, htake, hdrop, htakeIn, Bool.false_and,
      Bool.not_false, Bool.and_true] at h
    split at h
    · rename_i hempty
      rw [Bool.and_eq_true, List.isEmpty_iff, List.isEmpty_iff] at hempty
      obtain ⟨rfl, rfl⟩ := hempty
      obtain ⟨rfl, hle⟩ := (takeIn_eq_iff (Nat.zero_le _)).mp htakeIn
      obtain rfl := Number.whole.inj (Option.some.inj h)
      exact ⟨rfl, .digits hds, fun heq => hhead (heq ▸ rfl) rfl, by omega, by omega⟩
    · obtain ⟨_, -, heq⟩ := Option.map_eq_some_iff.mp h
      cases heq
  · simp only [ofText?, List.cons_append, List.nil_append, List.head?_cons, beq_self_eq_true, if_true,
      List.drop_succ_cons, List.drop_zero, htake, hdrop, htakeIn, Bool.true_and] at h
    split at h
    · rename_i hwhole
      simp only [Bool.and_eq_true, List.isEmpty_iff, Bool.not_eq_true', Bool.or_eq_false_iff,
        beq_eq_false_iff_ne, decide_eq_false_iff_not, show Nat.pow 2 63 = 2 ^ 63 by rfl] at hwhole
      obtain ⟨⟨rfl, rfl⟩, hzero, hle⟩ := hwhole
      obtain ⟨rfl, -⟩ := (takeIn_eq_iff (Nat.zero_le _)).mp htakeIn
      obtain rfl := Number.whole.inj (Option.some.inj h)
      refine ⟨rfl, .minus hds, fun heq => hzero ?_, by omega, by omega⟩
      obtain rfl : ds = ['0'] := List.append_cancel_left heq
      rfl
    · obtain ⟨_, -, heq⟩ := Option.map_eq_some_iff.mp h
      cases heq

end Number

/-- A number is read as a whole one that 64 bits hold exactly from the token that stands for it, without a
sign before a zero. -/
theorem readNumber_whole_iff {s rest : Received} (hrest : Halts continuesNumber rest) {text : List Char}
    {i : Int} : readNumber s = some (text, rest) ∧ Number.ofText? text = some (.whole i) ↔
      s = text.map some ++ rest ∧ IsIntegerToken text i ∧ text ≠ ['-', '0'] ∧ -(2 ^ 63) ≤ i ∧ i < 2 ^ 64 := by
  constructor
  · rintro ⟨hread, hwhole⟩
    obtain ⟨sign, ds, tail, hsign, hds, htail, rfl, hs⟩ := exists_of_readNumber hread
    obtain ⟨rfl, htoken⟩ := Number.of_ofText?_eq_whole hsign hds htail hwhole
    rw [List.append_nil] at hs ⊢
    exact ⟨hs, htoken⟩
  · rintro ⟨rfl, htoken, hne, hleast, hgreatest⟩
    rw [htoken.eq_decimalChars hne]
    exact ⟨readNumber_decimalChars i hrest, Number.ofText?_decimalChars hleast hgreatest⟩

/-! ## Blanks around a token -/

/-- The text is a token between blanks. -/
def HoldsOnly (token : List Char) (s : Received) : Prop :=
  ∃ before after : Blank, (∀ c ∈ before, isBlank c = true) ∧ (∀ c ∈ after, isBlank c = true) ∧
    s = before.map some ++ (token.map some ++ after.map some)

theorem blanks_append {before : List Char} (h : ∀ c ∈ before, isBlank c = true) {s : Received}
    (hs : Halts isBlank s) : blanks (before.map some ++ s) = (before, s) := span_append h hs []

/-- No blank carries a number on. -/
theorem halts_of_blank {after : List Char} (h : ∀ c ∈ after, isBlank c = true) :
    Halts continuesNumber (after.map some) := by
  cases after with
  | nil => trivial
  | cons c cs =>
      have hc := h c List.mem_cons_self
      simp only [isBlank, Bool.or_eq_true, beq_iff_eq] at hc
      rcases hc with ((rfl | rfl) | rfl) | rfl <;> rfl

/-- Nothing but blanks is left of a text exactly if its value stands between blanks. -/
theorem read_eq_iff {s : Received} {t : Tree} : read s = (t, true) ↔
    ∃ (before after : Blank) (s' : Received), (∀ c ∈ before, isBlank c = true) ∧
      (∀ c ∈ after, isBlank c = true) ∧ s = before.map some ++ s' ∧ Halts isBlank s' ∧
        readValue (2 * s'.length + 1) s' = (t, some (after.map some)) := by
  constructor
  · intro h
    obtain ⟨before, -, hbefore, hs, hhalts⟩ := of_span (Prod.eta (blanks s)).symm
    dsimp only [read] at h
    split at h
    · cases (Prod.mk.inj h).2
    · rename_i rest hread
      obtain ⟨rfl, hempty⟩ := Prod.mk.inj h
      obtain ⟨after, -, hafter, hrest, -⟩ := of_span (Prod.eta (blanks rest)).symm
      rw [List.isEmpty_iff.mp hempty, List.append_nil] at hrest
      exact ⟨before, after, _, hbefore, hafter, hs, hhalts, hrest ▸ hread⟩
  · rintro ⟨before, after, s', hbefore, hafter, rfl, hhalts, hread⟩
    have hafter := blanks_append hafter (s := []) trivial
    rw [List.append_nil] at hafter
    rw [read, blanks_append hbefore hhalts]
    simp only [hread, hafter, List.isEmpty_nil]

/-! ## Numbers and strings -/

theorem of_readValue_number {n : Nat} {s rest : Received} {text : List Char}
    (h : readValue n s = (.number text, some rest)) : readNumber s = some (text, rest) := by
  unfold readValue at h
  split at h
  · cases (Prod.mk.inj h).2
  · split at h
    · cases (Prod.mk.inj h).1
    · cases (Prod.mk.inj h).1
    · cases (Prod.mk.inj h).1
    · split at h <;> cases (Prod.mk.inj h).1
    · split at h <;> cases (Prod.mk.inj h).1
    · split at h <;> cases (Prod.mk.inj h).1
    · split at h
      · rename_i hread
        obtain ⟨htext, hrest⟩ := Prod.mk.inj h
        rw [hread, Tree.number.inj htext, Option.some.inj hrest]
      · cases (Prod.mk.inj h).2

theorem of_readValue_string {n : Nat} {s rest content : Received}
    (h : readValue n s = (.string content, some rest)) :
    ∃ s', s = some '"' :: s' ∧ stringEnd [] s' = (content, some rest) := by
  unfold readValue at h
  split at h
  · cases (Prod.mk.inj h).2
  · split at h
    · cases (Prod.mk.inj h).1
    · cases (Prod.mk.inj h).1
    · cases (Prod.mk.inj h).1
    · split at h
      · rename_i hend
        obtain ⟨hcontent, hrest⟩ := Prod.mk.inj h
        exact ⟨_, rfl, by rw [hend, Tree.string.inj hcontent, Option.some.inj hrest]⟩
      · cases (Prod.mk.inj h).1
    · split at h <;> cases (Prod.mk.inj h).1
    · split at h <;> cases (Prod.mk.inj h).1
    · split at h <;> cases (Prod.mk.inj h).1

theorem numberValue_eq_ok_iff {text : List Char} {x : Number} :
    numberValue text = .ok x ↔ Number.ofText? text = some x := by
  rw [numberValue]
  cases Number.ofText? text <;> simp

/-- A text holds a whole number that 64 bits hold, and nothing else, exactly if it is the token of one between
blanks, without a sign before a zero. -/
theorem read_number_iff {s : Received} {i : Int} :
    (∃ text, read s = (.number text, true) ∧ numberValue text = .ok (.whole i)) ↔
      ∃ token, IsIntegerToken token i ∧ token ≠ ['-', '0'] ∧ -(2 ^ 63) ≤ i ∧ i < 2 ^ 64 ∧ HoldsOnly token s := by
  simp only [numberValue_eq_ok_iff, read_eq_iff, HoldsOnly]
  constructor
  · rintro ⟨text, ⟨before, after, s', hbefore, hafter, rfl, -, hread⟩, hwhole⟩
    obtain ⟨rfl, htoken, hne, hleast, hgreatest⟩ :=
      (readNumber_whole_iff (halts_of_blank hafter)).mp ⟨of_readValue_number hread, hwhole⟩
    exact ⟨text, htoken, hne, hleast, hgreatest, before, after, hbefore, hafter, rfl⟩
  · rintro ⟨token, htoken, hne, hleast, hgreatest, before, after, hbefore, hafter, rfl⟩
    obtain ⟨hread, hwhole⟩ :=
      (readNumber_whole_iff (halts_of_blank hafter)).mpr ⟨rfl, htoken, hne, hleast, hgreatest⟩
    obtain ⟨c, cs, hcons, hc⟩ := exists_decimalChars_eq_cons i
    rw [← htoken.eq_decimalChars hne] at hcons
    subst hcons
    exact ⟨c :: cs, ⟨before, after, _, hbefore, hafter, rfl,
      not_isBlank_of_startsValue (startsValue_of_isDigit_or_minus hc), readValue_of_number hc hread⟩, hwhole⟩

/-- A text holds a string that stands for a text, and nothing else, exactly if it is a spelling of that
between quotes and blanks. -/
theorem read_string_iff {s : Received} {cs : List Char} :
    (∃ content, read s = (.string content, true) ∧ unescape content = some cs) ↔
      ∃ raw, Spells raw cs ∧ HoldsOnly ('"' :: (raw ++ ['"'])) s := by
  simp only [read_eq_iff, HoldsOnly]
  constructor
  · rintro ⟨content, ⟨before, after, s', hbefore, hafter, rfl, -, hread⟩, hunescape⟩
    obtain ⟨s'', rfl, hend⟩ := of_readValue_string hread
    obtain ⟨raw, hspells, rfl, rfl⟩ := stringEnd_unescape_iff.mp ⟨hend, hunescape⟩
    exact ⟨raw, hspells, before, after, hbefore, hafter, by simp⟩
  · rintro ⟨raw, hspells, before, after, hbefore, hafter, rfl⟩
    obtain ⟨hend, hunescape⟩ := stringEnd_unescape_iff.mpr ⟨raw, hspells, rfl, rfl⟩
    refine ⟨raw.map some, ⟨before, after, some '"' :: (raw.map some ++ some '"' :: after.map some), hbefore,
      hafter, by simp, rfl, ?_⟩, hunescape⟩
    rw [readValue, hend]

end Bindery.Json
