import Bindery.Json.Encode
import Mathlib.Tactic.IntervalCases

/-! # The strings of a JSON text

What may stand between the quotes of a string, together with the text that it stands for, is said by a
grammar (`Spells`).  The scanner for the closing quote and the reader of escapes accept exactly what the
grammar has, and give the text that it says (`stringEnd_unescape_iff`).  What is written for a text is one of
its spellings (`spells_escape`). -/

namespace Bindery.Json

open Text Utf8

/-- The characters are hexadecimal digits of a number, most significant first. -/
structure IsHex (a b c d : Char) (n : Nat) : Prop where
  digits : (isHexDigit a && isHexDigit b && isHexDigit c && isHexDigit d) = true
  value : hex4 a b c d = n

/-- What stands in a string, and the text that it stands for.  Characters beyond four hexadecimal digits are
escaped as two surrogates, and surrogates stand for nothing alone. -/
inductive Spells : List Char → List Char → Prop
  | nil : Spells [] []
  | plain {c raw cs} (hquote : c ≠ '"') (hbackslash : c ≠ '\\') (hcontrol : ¬ c < ' ') (h : Spells raw cs) :
      Spells (c :: raw) (c :: cs)
  | short {e raw cs} (hescape : isEscape e = true) (h : Spells raw cs) :
      Spells ('\\' :: e :: raw) (simpleEscape e :: cs)
  | unit {a b c d raw cs} {x : Char} (hx : IsHex a b c d x.toNat) (h : Spells raw cs) :
      Spells ('\\' :: 'u' :: a :: b :: c :: d :: raw) (x :: cs)
  | pair {a b c d a' b' c' d' raw cs high low} {x : Char} (hhigh : IsHex a b c d high)
      (hlow : IsHex a' b' c' d' low) (hhighRange : 0xd800 ≤ high ∧ high ≤ 0xdbff)
      (hlowRange : 0xdc00 ≤ low ∧ low ≤ 0xdfff)
      (hx : x.toNat = 0x10000 + (high - 0xd800) * 0x400 + (low - 0xdc00)) (h : Spells raw cs) :
      Spells ('\\' :: 'u' :: a :: b :: c :: d :: '\\' :: 'u' :: a' :: b' :: c' :: d' :: raw) (x :: cs)

/-! ## Surrogates -/

theorem isHighSurrogate_iff {n : Nat} : isHighSurrogate n = true ↔ 0xd800 ≤ n ∧ n ≤ 0xdbff := by
  rw [isHighSurrogate, Bool.and_eq_true, decide_eq_true_eq, decide_eq_true_eq]

theorem isLowSurrogate_iff {n : Nat} : isLowSurrogate n = true ↔ 0xdc00 ≤ n ∧ n ≤ 0xdfff := by
  rw [isLowSurrogate, Bool.and_eq_true, decide_eq_true_eq, decide_eq_true_eq]

theorem scalar?_eq_some_iff {n : Nat} {x : Char} : scalar? n = some x ↔ x.toNat = n := by
  constructor
  · intro h
    rw [scalar?, Option.dite_none_right_eq_some] at h
    obtain ⟨hvalid, hx⟩ := h
    exact Option.some.inj hx ▸ rfl
  · rintro rfl
    exact dif_pos x.valid

/-- No character has the number of a surrogate. -/
theorem isHighSurrogate_toNat (x : Char) : isHighSurrogate x.toNat = false := by
  refine Bool.eq_false_iff.mpr fun h => ?_
  have hrange := isHighSurrogate_iff.mp h
  have hvalid : x.toNat.isValidChar := x.valid
  rw [Nat.isValidChar] at hvalid
  omega

/-! ## What the grammar has is read -/

theorem isEscape_ne {e : Char} (h : isEscape e = true) : e ≠ 'u' := by
  rintro rfl
  exact absurd h (by decide)

theorem stringEnd_of_spells {raw cs : List Char} (h : Spells raw cs) (acc rest : Received) :
    stringEnd acc (raw.map some ++ some '"' :: rest) = (acc.reverse ++ raw.map some, some rest) := by
  induction h generalizing acc with
  | nil => rw [List.map_nil, List.nil_append, List.append_nil, stringEnd]
  | plain hquote hbackslash hcontrol h ih =>
      rw [List.map_cons, List.cons_append, stringEnd, if_neg hcontrol, ih]
      · simp
      · exact hquote
      · exact fun _ _ _ _ _ _ => hbackslash
      · exact fun _ _ _ => hbackslash
      · exact hbackslash
  | short hescape h ih =>
      rw [List.map_cons, List.map_cons, List.cons_append, List.cons_append, stringEnd, if_pos hescape, ih]
      · simp
      · exact fun _ _ _ _ _ _ => isEscape_ne hescape
  | unit hx h ih => simp [stringEnd, hx.digits, ih]
  | pair hhigh hlow _ _ _ h ih => simp [stringEnd, hhigh.digits, hlow.digits, ih]

theorem unescapeAfter_of_spells {raw cs : List Char} (h : Spells raw cs) (acc : List Char) :
    unescapeAfter acc 0 (raw.map some) = some (acc.reverse ++ cs) := by
  induction h generalizing acc with
  | nil => rw [List.map_nil, unescapeAfter, List.append_nil]
  | plain hquote hbackslash hcontrol h ih =>
      rw [List.map_cons, unescapeAfter, if_neg hbackslash, ih]
      simp
  | @short e raw cs hescape h ih =>
      have hescaped : escaped? (some e :: raw.map some) = some (simpleEscape e, 1) := by
        rw [escaped?]
        exact fun _ _ _ _ _ _ => isEscape_ne hescape
      rw [List.map_cons, List.map_cons, unescapeAfter, if_pos rfl, hescaped]
      simp [unescapeAfter, ih]
  | @unit a b c d raw cs x hx h ih =>
      have hscalar : scalar? x.toNat = some x := scalar?_eq_some_iff.mpr rfl
      simp [unescapeAfter, escaped?, hx.value, isHighSurrogate_toNat, hscalar, ih]
  | pair hhigh hlow hhighRange hlowRange hx h ih =>
      have hscalar := scalar?_eq_some_iff.mpr hx
      simp [unescapeAfter, escaped?, hhigh.value, hlow.value, isHighSurrogate_iff.mpr hhighRange,
        isLowSurrogate_iff.mpr hlowRange, hscalar, ih]

/-! ## What is read the grammar has -/

/-- What the scanner for the closing quote passes: surrogates need not match, nor bytes be characters. -/
inductive Passed : Received → Prop
  | nil : Passed []
  | stray {s} (h : Passed s) : Passed (none :: s)
  | plain {c s} (hquote : c ≠ '"') (hbackslash : c ≠ '\\') (hcontrol : ¬ c < ' ') (h : Passed s) :
      Passed (some c :: s)
  | short {e s} (hescape : isEscape e = true) (h : Passed s) : Passed (some '\\' :: some e :: s)
  | unit {a b c d s} (hx : IsHex a b c d (hex4 a b c d)) (h : Passed s) :
      Passed (some '\\' :: some 'u' :: some a :: some b :: some c :: some d :: s)

theorem Passed.of_unit {a b c d : Char} {s : Received}
    (h : Passed (some '\\' :: some 'u' :: some a :: some b :: some c :: some d :: s)) :
    IsHex a b c d (hex4 a b c d) ∧ Passed s := by
  cases h with
  | plain _ hbackslash _ _ => exact absurd rfl hbackslash
  | short hescape _ => exact absurd rfl (isEscape_ne hescape)
  | unit hx h => exact ⟨hx, h⟩

theorem exists_passed_of_stringEnd {acc s content rest : Received}
    (h : stringEnd acc s = (content, some rest)) :
    ∃ raw, Passed raw ∧ content = acc.reverse ++ raw ∧ s = raw ++ some '"' :: rest := by
  fun_induction stringEnd acc s with
  | case1 => cases h
  | case2 acc s =>
      obtain ⟨rfl, heq⟩ := Prod.mk.inj h
      obtain rfl := Option.some.inj heq
      exact ⟨[], .nil, (List.append_nil _).symm, rfl⟩
  | case3 acc a b c d s hdigits ih =>
      obtain ⟨raw, hraw, rfl, rfl⟩ := ih h
      exact ⟨_, .unit ⟨hdigits, rfl⟩ hraw, by simp, rfl⟩
  | case4 => cases h
  | case5 acc e s _ hescape ih =>
      obtain ⟨raw, hraw, rfl, rfl⟩ := ih h
      exact ⟨_, .short hescape hraw, by simp, rfl⟩
  | case6 => cases h
  | case7 => cases h
  | case8 => cases h
  | case9 acc c s hquote _ _ hbackslash hcontrol ih =>
      obtain ⟨raw, hraw, rfl, rfl⟩ := ih h
      exact ⟨_, .plain (by simpa using hquote) (by simpa using hbackslash) hcontrol hraw, by simp, rfl⟩
  | case10 acc s ih =>
      obtain ⟨raw, hraw, rfl, rfl⟩ := ih h
      exact ⟨_, .stray hraw, by simp, rfl⟩

/-- Four hexadecimal digits stand for a character, or for one together with the four that follow. -/
theorem of_escaped?_unit {a b c d x : Char} {s : Received} {n : Nat}
    (h : escaped? (some 'u' :: some a :: some b :: some c :: some d :: s) = some (x, n)) :
    n = 5 ∧ hex4 a b c d = x.toNat ∨
      n = 11 ∧ ∃ a' b' c' d' rest, s = some '\\' :: some 'u' :: some a' :: some b' :: some c' :: some d' :: rest ∧
        isHighSurrogate (hex4 a b c d) = true ∧ isLowSurrogate (hex4 a' b' c' d') = true ∧
        x.toNat = 0x10000 + (hex4 a b c d - 0xd800) * 0x400 + (hex4 a' b' c' d' - 0xdc00) := by
  have hscalar {m k : Nat} (h : (scalar? m).map (·, k) = some (x, n)) : n = k ∧ x.toNat = m := by
    obtain ⟨y, hy, heq⟩ := Option.map_eq_some_iff.mp h
    obtain ⟨rfl, rfl⟩ := Prod.mk.inj heq
    exact ⟨rfl, scalar?_eq_some_iff.mp hy⟩
  by_cases hpair : ∃ a' b' c' d' rest,
      s = some '\\' :: some 'u' :: some a' :: some b' :: some c' :: some d' :: rest
  · obtain ⟨a', b', c', d', rest, rfl⟩ := hpair
    rw [escaped?] at h
    split at h
    · rename_i hhigh
      dsimp only at h
      split at h
      · rename_i hlow
        obtain ⟨rfl, hx⟩ := hscalar h
        exact .inr ⟨rfl, a', b', c', d', rest, rfl, hhigh, hlow, hx⟩
      · cases h
    · obtain ⟨rfl, hx⟩ := hscalar h
      exact .inl ⟨rfl, hx.symm⟩
  · rw [escaped?] at h
    · split at h
      · cases h
      · obtain ⟨rfl, hx⟩ := hscalar h
        exact .inl ⟨rfl, hx.symm⟩
    · exact fun a' b' c' d' rest heq => hpair ⟨a', b', c', d', rest, heq⟩

/-- A text is read from the content of a string only if the content is spelled in characters that stand for
the text. -/
theorem spells_of_unescapeAfter {s : Received} (hs : Passed s) {acc cs : List Char}
    (h : unescapeAfter acc 0 s = some cs) :
    ∃ raw ds, s = raw.map some ∧ Spells raw ds ∧ cs = acc.reverse ++ ds := by
  -- A pair of escapes is taken in one step, so the induction is on the length of what is left.
  induction hlength : s.length using Nat.strongRecOn generalizing s acc cs with
  | ind m ih =>
      subst hlength
      cases hs with
      | nil => exact ⟨[], [], rfl, .nil, by rw [List.append_nil]; exact (Option.some.inj h).symm⟩
      | stray _ => cases h
      | @plain c s hquote hbackslash hcontrol hs =>
          rw [unescapeAfter, if_neg hbackslash] at h
          obtain ⟨raw, ds, rfl, hspells, rfl⟩ := ih s.length (by simp +arith) hs h rfl
          exact ⟨c :: raw, c :: ds, rfl, .plain hquote hbackslash hcontrol hspells, by simp⟩
      | @short e s hescape hs =>
          rw [unescapeAfter, if_pos rfl, escaped?] at h
          · obtain ⟨raw, ds, rfl, hspells, rfl⟩ := ih s.length (by simp +arith) hs h rfl
            exact ⟨'\\' :: e :: raw, simpleEscape e :: ds, rfl, .short hescape hspells, by simp⟩
          · exact fun _ _ _ _ _ _ => isEscape_ne hescape
      | @unit a b c d s hx hs =>
          rw [unescapeAfter, if_pos rfl] at h
          split at h
          · rename_i x n hescaped
            rcases of_escaped?_unit hescaped with
              ⟨rfl, hvalue⟩ | ⟨rfl, a', b', c', d', rest, rfl, hhigh, hlow, hvalue⟩
            · obtain ⟨raw, ds, rfl, hspells, rfl⟩ := ih s.length (by simp +arith) hs h rfl
              exact ⟨'\\' :: 'u' :: a :: b :: c :: d :: raw, x :: ds, rfl, .unit ⟨hx.digits, hvalue⟩ hspells,
                by simp⟩
            · obtain ⟨hx', hs'⟩ := hs.of_unit
              obtain ⟨raw, ds, rfl, hspells, rfl⟩ := ih rest.length (by simp +arith) hs' h rfl
              exact ⟨'\\' :: 'u' :: a :: b :: c :: d :: '\\' :: 'u' :: a' :: b' :: c' :: d' :: raw, x :: ds, rfl,
                .pair hx hx' (isHighSurrogate_iff.mp hhigh) (isLowSurrogate_iff.mp hlow) hvalue hspells, by simp⟩
          · cases h

/-- A string is read up to its closing quote, and as a text, exactly if its content is spelled so. -/
theorem stringEnd_unescape_iff {s content rest : Received} {cs : List Char} :
    stringEnd [] s = (content, some rest) ∧ unescape content = some cs ↔
      ∃ raw, Spells raw cs ∧ content = raw.map some ∧ s = raw.map some ++ some '"' :: rest := by
  constructor
  · rintro ⟨hend, hunescape⟩
    obtain ⟨_, hpassed, rfl, rfl⟩ := exists_passed_of_stringEnd hend
    obtain ⟨raw, ds, rfl, hspells, rfl⟩ := spells_of_unescapeAfter hpassed hunescape
    exact ⟨raw, hspells, rfl, rfl⟩
  · rintro ⟨raw, hspells, rfl, rfl⟩
    exact ⟨stringEnd_of_spells hspells [] rest, unescapeAfter_of_spells hspells []⟩

/-! ## What is written for a text -/

theorem isHexDigit_hexDigit {n : Nat} (h : n < 16) : isHexDigit (hexDigit n) = true := by
  interval_cases n <;> decide

theorem hexValue_hexDigit {n : Nat} (h : n < 16) : hexValue (hexDigit n) = n := by
  interval_cases n <;> decide

theorem toNat_lt_of_lt_space {c : Char} (h : c < ' ') : c.toNat < 32 := h

theorem isHex_control {c : Char} (h : c < ' ') :
    IsHex '0' '0' (hexDigit (c.toNat / 16)) (hexDigit (c.toNat % 16)) c.toNat := by
  have hlt := toNat_lt_of_lt_space h
  constructor
  · rw [isHexDigit_hexDigit (n := c.toNat / 16) (by omega), isHexDigit_hexDigit (n := c.toNat % 16) (by omega)]
    rfl
  · rw [hex4, hexValue_hexDigit (by omega), hexValue_hexDigit (by omega), show hexValue '0' = 0 by rfl]
    omega

/-- A character is written as something that stands for it. -/
theorem Spells.escapeChar_append (c : Char) {raw cs : List Char} (h : Spells raw cs) :
    Spells (escapeChar c ++ raw) (c :: cs) := by
  have hshort {e : Char} (hc : c = simpleEscape e) (hescape : isEscape e = true)
      (heq : escapeChar (simpleEscape e) = ['\\', e]) : Spells (escapeChar c ++ raw) (c :: cs) := by
    rw [hc, heq]
    exact .short hescape h
  by_cases hquote : c = '"'
  · exact hshort (e := '"') hquote (by decide) (by decide)
  by_cases hbackslash : c = '\\'
  · exact hshort (e := '\\') hbackslash (by decide) (by decide)
  by_cases hb : c = '\x08'
  · exact hshort (e := 'b') hb (by decide) (by decide)
  by_cases hf : c = '\x0c'
  · exact hshort (e := 'f') hf (by decide) (by decide)
  by_cases hn : c = '\n'
  · exact hshort (e := 'n') hn (by decide) (by decide)
  by_cases hr : c = '\r'
  · exact hshort (e := 'r') hr (by decide) (by decide)
  by_cases ht : c = '\t'
  · exact hshort (e := 't') ht (by decide) (by decide)
  rw [escapeChar, if_neg hquote, if_neg hbackslash, if_neg hb, if_neg hf, if_neg hn, if_neg hr, if_neg ht]
  by_cases hcontrol : c < ' '
  · rw [if_pos hcontrol]
    exact .unit (isHex_control hcontrol) h
  · rw [if_neg hcontrol]
    exact .plain hquote hbackslash hcontrol h

theorem spells_escape (cs : List Char) : Spells (cs.flatMap escapeChar) cs := by
  induction cs with
  | nil => exact .nil
  | cons c cs ih => exact ih.escapeChar_append c

theorem stringText_eq_ok_iff {content : Received} {s : String} :
    stringText content = .ok s ↔ unescape content = some s.toList := by
  rw [stringText]
  cases unescape content with
  | none => exact iff_of_false (by rintro ⟨⟩) (by rintro ⟨⟩)
  | some cs =>
      simp only [Except.ok.injEq, Option.some.injEq]
      exact ⟨fun h => h ▸ String.toList_ofList.symm, fun h => h ▸ String.ofList_toList⟩

theorem stringEnd_escape (s : String) (acc rest : Received) :
    stringEnd acc (escape s ++ some '"' :: rest) = (acc.reverse ++ escape s, some rest) :=
  stringEnd_of_spells (spells_escape s.toList) acc rest

theorem stringText_escape (s : String) : stringText (escape s) = .ok s := by
  rw [stringText, unescape, escape, unescapeAfter_of_spells (spells_escape s.toList), List.reverse_nil,
    List.nil_append]
  exact congrArg _ String.ofList_toList

end Bindery.Json
