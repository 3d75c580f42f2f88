import Bindery.Proofs.Json.Strings
import Bindery.Proofs.Lines
import Bindery.Text.Quoted

/-! # Quoted text is read back

What may stand between quotes, together with the text that it stands for, is said by a grammar (`Escapes`).
What is written for a text is one of its spellings (`escapes_flatMap_quotedChar`).  A spelling ends at the
first quote that is no part of it, and stands for one text only, whatever follows (`Escapes.eq_and_eq`). -/

namespace Bindery.Text

open Json

/-! ## Hexadecimal digits -/

/-- The characters are hexadecimal digits of a number, most significant first. -/
structure SpellsHex (ds : List Char) (n : Nat) : Prop where
  ne_nil : ds ≠ []
  digits : ∀ d ∈ ds, isHexDigit d = true
  value : ds.foldl (fun n d => n * 16 + hexValue d) 0 = n

theorem digitChar_eq_hexDigit {k : Nat} (h : k < 16) : k.digitChar = hexDigit k := by
  interval_cases k <;> rfl

namespace SpellsHex

variable {ds : List Char} {n k : Nat}

theorem digit (h : k < 16) : SpellsHex [k.digitChar] k where
  ne_nil := List.cons_ne_nil _ _
  digits d hd := by rw [List.mem_singleton.mp hd, digitChar_eq_hexDigit h, isHexDigit_hexDigit h]
  value := by
    rw [List.foldl_cons, List.foldl_nil, digitChar_eq_hexDigit h, hexValue_hexDigit h, Nat.zero_mul,
      Nat.zero_add]

theorem concat (h : SpellsHex ds n) (hk : k < 16) : SpellsHex (ds ++ [k.digitChar]) (n * 16 + k) where
  ne_nil := List.concat_ne_nil _ _
  digits d hd := (List.mem_append.mp hd).elim (h.digits d) ((digit hk).digits d)
  value := by
    rw [List.foldl_append, h.value, List.foldl_cons, List.foldl_nil, digitChar_eq_hexDigit hk,
      hexValue_hexDigit hk]

theorem bracket_not_mem (h : SpellsHex ds n) : '\x7d' ∉ ds :=
  fun hmem => absurd (h.digits _ hmem) (by decide)

end SpellsHex

theorem spellsHex_hexDigits (n : Nat) : SpellsHex (hexDigits n) n := by
  induction n using Nat.strongRecOn with
  | ind n ih =>
      by_cases hn : n < 16
      · rw [hexDigits, Nat.toDigits_of_lt_base hn]
        exact .digit hn
      · have h := (ih (n / 16) (by omega)).concat (Nat.mod_lt n (by decide))
        rw [hexDigits, Nat.toDigits_of_base_le (by decide) (by omega)]
        rwa [Nat.div_add_mod'] at h

/-! ## One character -/

/-- The letters that stand for a character behind a backslash. -/
def letterEscapes : List (Char × Char) :=
  [('"', '"'), ('\\', '\\'), ('n', '\n'), ('r', '\r'), ('t', '\t'), ('0', '\x00')]

/-- What stands for a character between quotes: itself, or a letter or its number behind a
backslash. -/
inductive Escape : List Char → Char → Prop
  | plain {c} (hquote : c ≠ '"') (hbackslash : c ≠ '\\') : Escape [c] c
  | letter {e c} (h : (e, c) ∈ letterEscapes) : Escape ['\\', e] c
  | number {ds} {c : Char} (h : SpellsHex ds c.toNat) :
      Escape ('\\' :: 'u' :: '\x7b' :: (ds ++ ['\x7d'])) c

theorem escape_quotedChar (c : Char) : Escape (quotedChar c) c := by
  have hletters : ∀ p ∈ letterEscapes, quotedChar p.2 = ['\\', p.1] := by decide
  by_cases hmem : c ∈ letterEscapes.map Prod.snd
  · obtain ⟨p, hp, rfl⟩ := List.mem_map.mp hmem
    rw [hletters p hp]
    exact .letter hp
  · simp only [letterEscapes, List.map_cons, List.map_nil, List.mem_cons, List.not_mem_nil, or_false,
      not_or] at hmem
    obtain ⟨hquote, hbackslash, hfeed, hreturn, htab, hnull⟩ := hmem
    rw [quotedChar, if_neg hquote, if_neg hbackslash, if_neg hfeed, if_neg hreturn, if_neg htab, if_neg hnull]
    split
    · exact .plain hquote hbackslash
    · exact .number (spellsHex_hexDigits c.toNat)

namespace Escape

variable {e e' x y : List Char} {c c' d : Char}

theorem append_ne_quote (h : Escape e c) : e ++ x ≠ '"' :: y := by
  intro heq
  cases h with
  | plain hquote _ => exact hquote (List.cons.inj heq).1
  | letter _ => exact absurd (List.cons.inj heq).1 (by decide)
  | number _ => exact absurd (List.cons.inj heq).1 (by decide)

theorem letter_ne (h : (d, c) ∈ letterEscapes) : d ≠ 'u' := by
  have hne : ∀ p ∈ letterEscapes, p.1 ≠ 'u' := by decide
  exact hne _ h

theorem letter_inj (h : (d, c) ∈ letterEscapes) (h' : (d, c') ∈ letterEscapes) : c = c' := by
  have hinj : ∀ p ∈ letterEscapes, ∀ q ∈ letterEscapes, p.1 = q.1 → p.2 = q.2 := by decide
  exact hinj _ h _ h' rfl

/-- Whatever follows, a character is told by what stands for it. -/
theorem eq_and_eq (h : Escape e c) (h' : Escape e' c') (heq : e ++ x = e' ++ y) : c = c' ∧ x = y := by
  cases h with
  | plain _ hbackslash =>
      cases h' with
      | plain _ _ => exact List.cons.inj heq
      | letter _ | number _ => exact absurd (List.cons.inj heq).1 hbackslash
  | letter hd =>
      cases h' with
      | plain _ hbackslash => exact absurd (List.cons.inj heq).1.symm hbackslash
      | letter hd' =>
          obtain ⟨rfl, rfl⟩ := List.cons.inj (List.cons.inj heq).2
          exact ⟨letter_inj hd hd', rfl⟩
      | number _ => exact absurd (List.cons.inj (List.cons.inj heq).2).1 (letter_ne hd)
  | number hds =>
      cases h' with
      | plain _ hbackslash => exact absurd (List.cons.inj heq).1.symm hbackslash
      | letter hd' => exact absurd (List.cons.inj (List.cons.inj heq).2).1.symm (letter_ne hd')
      | number hds' =>
          simp only [List.cons_append, List.append_assoc, List.cons.injEq, true_and, List.nil_append] at heq
          obtain ⟨rfl, hxy⟩ := eq_and_eq_of_not_mem hds.bracket_not_mem hds'.bracket_not_mem heq
          exact ⟨Char.toNat_inj.mp (hds.value.symm.trans hds'.value), hxy⟩

end Escape

/-! ## A text -/

/-- What stands between quotes for a text. -/
inductive Escapes : List Char → List Char → Prop
  | nil : Escapes [] []
  | cons {e raw c cs} (he : Escape e c) (h : Escapes raw cs) : Escapes (e ++ raw) (c :: cs)

theorem escapes_flatMap_quotedChar (cs : List Char) : Escapes (cs.flatMap quotedChar) cs := by
  induction cs with
  | nil => exact .nil
  | cons c cs ih => exact .cons (escape_quotedChar c) ih

/-- Whatever follows the quote behind it, a text is told by what stands for it. -/
theorem Escapes.eq_and_eq {raw raw' cs cs' x y : List Char} (h : Escapes raw cs) (h' : Escapes raw' cs')
    (heq : raw ++ '"' :: x = raw' ++ '"' :: y) : cs = cs' ∧ x = y := by
  induction h generalizing raw' cs' with
  | nil =>
      cases h' with
      | nil => exact ⟨rfl, (List.cons.inj heq).2⟩
      | cons he' _ =>
          rw [List.append_assoc] at heq
          exact absurd heq.symm he'.append_ne_quote
  | cons he _ ih =>
      cases h' with
      | nil =>
          rw [List.append_assoc] at heq
          exact absurd heq he.append_ne_quote
      | cons he' h' =>
          rw [List.append_assoc, List.append_assoc] at heq
          obtain ⟨rfl, hrest⟩ := he.eq_and_eq he' heq
          obtain ⟨rfl, hxy⟩ := ih h' hrest
          exact ⟨rfl, hxy⟩

end Bindery.Text
