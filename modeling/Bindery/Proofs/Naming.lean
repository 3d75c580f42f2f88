import Bindery.Naming.Identifier
import Mathlib

/-! # What names are made of

A text in snake case is empty, or it is words of lower-case letters and digits with single
underscores between them (`words_snakeChars`).  An identifier is such a text after escaping, and the
text can be read back from it (`unescape_identifier`): two names have the same identifier exactly
when they are the same in snake case (`identifier_eq_iff`). -/

namespace Bindery.Naming

/-- What words are made of. -/
def isWordChar (c : Char) : Bool := c.isLower || c.isDigit

/-- Words with single underscores between them, at least one. -/
inductive Words : List Char → Prop
  | single {c} : isWordChar c → Words [c]
  | letter {c cs} : isWordChar c → Words cs → Words (c :: cs)
  | underscore {c cs} : isWordChar c → Words cs → Words (c :: '_' :: cs)

theorem ne_of_isWordChar {c d : Char} (h : isWordChar c) (hd : isWordChar d = false) : c ≠ d := by
  rintro rfl
  cases hd.symm.trans h

theorem not_isUpper_of_isWordChar {c : Char} (h : isWordChar c) : ¬ c.isUpper := by
  rcases Bool.or_eq_true_iff.mp h with hlower | hdigit
  · exact Char.not_isUpper_of_isLower hlower
  · intro hupper
    simp only [Char.isDigit, Char.isUpper, Bool.and_eq_true, decide_eq_true_eq, ge_iff_le,
      UInt32.le_iff_toNat_le, Char.reduceVal, UInt32.reduceToNat] at hdigit hupper
    omega

theorem isAlphanum_of_isWordChar {c : Char} (h : isWordChar c) : c.isAlphanum := by
  simp only [isWordChar, Char.isAlphanum, Char.isAlpha, Bool.or_eq_true] at h ⊢
  exact h.imp .inr id

theorem isWordChar_toLower {c : Char} (h : c.isAlphanum) : isWordChar c.toLower := by
  rw [isWordChar, Char.isLower_toLower_eq_isAlpha]
  cases halpha : c.isAlpha with
  | true => rfl
  | false =>
      have hupper : ¬ c.isUpper := fun hupper => by simp [Char.isAlpha, hupper] at halpha
      rw [Char.toLower_eq_of_not_isUpper hupper, Bool.false_or]
      simpa [Char.isAlphanum, halpha] using h

namespace Words

variable {cs ds : List Char}

theorem append (h : Words cs) (h' : Words ds) : Words (cs ++ ds) := by
  induction h with
  | single hc => exact .letter hc h'
  | letter hc _ ih => exact .letter hc ih
  | underscore hc _ ih => exact .underscore hc ih

theorem append_underscore (h : Words cs) (h' : Words ds) : Words (cs ++ '_' :: ds) := by
  induction h with
  | single hc => exact .underscore hc h'
  | letter hc _ ih => exact .letter hc ih
  | underscore hc _ ih => exact .underscore hc ih

theorem reverse (h : Words cs) : Words cs.reverse := by
  induction h with
  | single hc => exact .single hc
  | letter hc _ ih =>
      rw [List.reverse_cons]
      exact ih.append (.single hc)
  | @underscore c cs hc _ ih =>
      have heq : (c :: '_' :: cs).reverse = cs.reverse ++ ['_', c] := by simp
      rw [heq]
      exact ih.append_underscore (.single hc)

theorem exists_eq_cons (h : Words cs) : ∃ c rest, isWordChar c ∧ cs = c :: rest := by
  cases h with
  | single hc => exact ⟨_, _, hc, rfl⟩
  | letter hc => exact ⟨_, _, hc, rfl⟩
  | underscore hc => exact ⟨_, _, hc, rfl⟩

theorem exists_eq_concat (h : Words cs) : ∃ c rest, isWordChar c ∧ cs = rest ++ [c] := by
  obtain ⟨c, rest, hc, heq⟩ := h.reverse.exists_eq_cons
  exact ⟨c, rest.reverse, hc, List.reverse_eq_cons_iff.mp heq⟩

theorem mem (h : Words cs) {c : Char} (hc : c ∈ cs) : isWordChar c ∨ c = '_' := by
  induction h with
  | single hd =>
      rw [List.mem_singleton] at hc
      exact .inl (hc ▸ hd)
  | letter hd _ ih =>
      rcases List.mem_cons.mp hc with rfl | hc
      · exact .inl hd
      · exact ih hc
  | underscore hd _ ih =>
      rcases List.mem_cons.mp hc with rfl | hc
      · exact .inl hd
      · rcases List.mem_cons.mp hc with rfl | hc
        · exact .inr rfl
        · exact ih hc

end Words

/-! ## Snake case -/

theorem separate_of_isWordChar {c : Char} (hc : isWordChar c) (acc : List Char) :
    separate (c :: acc) = '_' :: c :: acc := by
  rw [separate]
  rintro rfl
  cases hc

/-- What has been written of a text in snake case, backwards: words, and perhaps the underscore
behind them. -/
inductive Written : List Char → Prop
  | nil : Written []
  | words {acc} : Words acc → Written acc
  | underscore {acc} : Words acc → Written ('_' :: acc)

namespace Written

variable {acc : List Char}

theorem separate (h : Written acc) : Written (separate acc) := by
  cases h with
  | nil => exact .nil
  | words h =>
      obtain ⟨c, rest, hc, rfl⟩ := h.exists_eq_cons
      rw [separate_of_isWordChar hc]
      exact .underscore h
  | underscore h => exact .underscore h

theorem cons (h : Written acc) {c : Char} (hc : isWordChar c) : Written (c :: acc) := by
  cases h with
  | nil => exact .words (.single hc)
  | words h => exact .words (.letter hc h)
  | underscore h => exact .words (.underscore hc h)

/-- One character after the other keeps it. -/
theorem snakeOnto (prev : Option Char) (h : Written acc) (cs : List Char) :
    Written (snakeOnto prev acc cs) := by
  induction cs generalizing prev acc with
  | nil => exact h
  | cons c cs ih =>
      rw [Naming.snakeOnto]
      refine ih (some c) ?_
      split
      · exact h.separate
      · rename_i halnum
        have hc : isWordChar c.toLower := isWordChar_toLower (by simpa using halnum)
        split
        · exact h.separate.cons hc
        · exact h.cons hc

end Written

theorem Words.dropWhile_eq {acc : List Char} (h : Words acc) :
    acc.dropWhile (· == '_') = acc := by
  obtain ⟨c, rest, hc, rfl⟩ := h.exists_eq_cons
  have hne : c ≠ '_' := ne_of_isWordChar hc (by decide)
  rw [List.dropWhile_cons_of_neg (by simpa using hne)]

theorem words_snakeChars (cs : List Char) : snakeChars cs = [] ∨ Words (snakeChars cs) := by
  have h := Written.nil.snakeOnto none cs
  unfold snakeChars
  generalize snakeOnto none [] cs = acc at h ⊢
  cases h with
  | nil => exact .inl rfl
  | words h =>
      rw [h.dropWhile_eq]
      exact .inr h.reverse
  | underscore h =>
      rw [List.dropWhile_cons_of_pos rfl, h.dropWhile_eq]
      exact .inr h.reverse

/-- Words are written as they are. -/
theorem Words.snakeOnto_eq {cs : List Char} (h : Words cs) (prev : Option Char)
    (acc : List Char) : snakeOnto prev acc cs = cs.reverse ++ acc := by
  have hword {c : Char} (hc : isWordChar c) (prev : Option Char) (acc cs : List Char) :
      snakeOnto prev acc (c :: cs) = snakeOnto (some c) (c :: acc) cs := by
    rw [snakeOnto, isAlphanum_of_isWordChar hc,
      Bool.eq_false_iff.mpr (not_isUpper_of_isWordChar hc),
      Char.toLower_eq_of_not_isUpper (not_isUpper_of_isWordChar hc)]
    rfl
  induction h generalizing prev acc with
  | single hc =>
      rw [hword hc]
      rfl
  | letter hc _ ih =>
      rw [hword hc, ih, List.reverse_cons, List.append_assoc]
      rfl
  | @underscore c cs hc _ ih =>
      have hunderscore : snakeOnto (some c) (c :: acc) ('_' :: cs) =
          snakeOnto (some '_') (separate (c :: acc)) cs := rfl
      rw [hword hc, hunderscore, separate_of_isWordChar hc, ih]
      simp

theorem snakeChars_eq_self {cs : List Char} (h : Words cs) : snakeChars cs = cs := by
  rw [snakeChars, h.snakeOnto_eq, List.append_nil, h.reverse.dropWhile_eq, List.reverse_reverse]

theorem words_snakeCase (s : String) : snakeCase s = "" ∨ Words (snakeCase s).toList := by
  rw [snakeCase, String.toList_ofList]
  rcases words_snakeChars s.toList with hnil | h
  · rw [hnil]
    exact .inl rfl
  · exact .inr h

theorem snakeCase_snakeCase (s : String) : snakeCase (snakeCase s) = snakeCase s := by
  rcases words_snakeCase s with hnil | h
  · rw [hnil]
    rfl
  · rw [snakeCase, snakeChars_eq_self h, String.ofList_toList]

/-! ## Identifiers -/

/-- Takes the marks off again that make an identifier of a text in snake case. -/
def unescape : List Char → List Char
  | '_' :: cs => if cs = "empty".toList then [] else cs
  | 'r' :: '#' :: cs => cs
  | cs => if cs.getLast? = some '_' then cs.dropLast else cs

theorem unescape_of_ne {c : Char} {cs : List Char} (hc : c ≠ '_') (hcs : '#' ∉ cs) :
    unescape (c :: cs) =
      if (c :: cs).getLast? = some '_' then (c :: cs).dropLast else c :: cs := by
  unfold unescape
  split
  · rename_i heq
    cases heq
    exact absurd rfl hc
  · rename_i heq
    cases heq
    exact absurd List.mem_cons_self hcs
  · rfl

theorem head?_ne_of_mem_reserved {word : String} (h : word ∈ pathWords ++ reservedWords) :
    word.toList.head? ≠ some '_' := by
  revert word
  decide

/-- No keyword begins with an underscore. -/
theorem escapeName_of_startsWithDigit {word : String} (h : startsWithDigit word.toList = true) :
    escapeName word = "_" ++ word := by
  have hfree {words : List String} (hsub : words ⊆ pathWords ++ reservedWords) :
      words.contains ("_" ++ word) = false := by
    refine Bool.eq_false_iff.mpr fun hmem => ?_
    refine head?_ne_of_mem_reserved (hsub (List.contains_iff_mem.mp hmem)) ?_
    rw [String.toList_append]
    rfl
  simp only [escapeName, h, if_true, hfree (List.subset_append_left _ _),
    hfree (List.subset_append_right _ _), Bool.false_eq_true, if_false]

theorem escapeName_of_not_startsWithDigit {word : String}
    (h : startsWithDigit word.toList = false) :
    escapeName word = if word ∈ pathWords then word ++ "_"
      else if word ∈ reservedWords then "r#" ++ word else word := by
  simp only [escapeName, h, Bool.false_eq_true, if_false, List.contains_iff_mem]

theorem unescape_escapeName {word : String} (h : Words word.toList) :
    unescape (escapeName word).toList = word.toList := by
  obtain ⟨c, rest, hc, hcons⟩ := h.exists_eq_cons
  have hunderscore : c ≠ '_' := ne_of_isWordChar hc (by decide)
  have hhash : '#' ∉ word.toList := fun hmem => (h.mem hmem).elim (by decide) (by decide)
  rw [hcons] at hhash
  have hrest : '#' ∉ rest := fun hmem => hhash (List.mem_cons_of_mem _ hmem)
  cases hdigit : startsWithDigit word.toList with
  | true =>
      have hname : ("_" ++ word).toList = '_' :: word.toList := by simp
      rw [escapeName_of_startsWithDigit hdigit, hname, unescape, if_neg]
      intro heq
      rw [heq] at hdigit
      exact absurd hdigit (by decide)
  | false =>
      rw [escapeName_of_not_startsWithDigit hdigit]
      split
      · have hmark : (word ++ "_").toList = c :: (rest ++ ['_']) := by simp [hcons]
        rw [hmark, unescape_of_ne hunderscore (by simpa using hrest), ← List.cons_append,
          List.getLast?_concat, if_pos rfl, List.dropLast_concat, hcons]
      · split
        · rw [String.toList_append, hcons]
          rfl
        · obtain ⟨last, front, hlast, hconcat⟩ := h.exists_eq_concat
          rw [hcons, unescape_of_ne hunderscore hrest, if_neg]
          rw [← hcons, hconcat, List.getLast?_concat, Option.some.injEq]
          exact ne_of_isWordChar hlast (by decide)

theorem identifier_of_words {name : String} (h : Words (snakeCase name).toList) :
    identifier name = escapeName (snakeCase name) := by
  obtain ⟨c, rest, -, hcons⟩ := h.exists_eq_cons
  have hne : (snakeCase name).isEmpty = false := by
    refine Bool.eq_false_iff.mpr fun hempty => ?_
    rw [String.isEmpty_iff.mp hempty] at hcons
    cases hcons
  simp only [identifier, hne, Bool.false_eq_true, if_false]

theorem unescape_identifier (name : String) :
    unescape (identifier name).toList = (snakeCase name).toList := by
  rcases words_snakeCase name with hnil | h
  · rw [identifier, hnil]
    rfl
  · rw [identifier_of_words h, unescape_escapeName h]

/-- Names have the same identifier exactly when they are the same in snake case. -/
theorem identifier_eq_iff {name other : String} :
    identifier name = identifier other ↔ snakeCase name = snakeCase other := by
  constructor
  · intro h
    rw [← String.toList_inj, ← unescape_identifier, h, unescape_identifier]
  · intro h
    rw [identifier, identifier, h]

/-- A word that needs no marks is the identifier of exactly those names that are this word in snake
case. -/
theorem identifier_eq_word_iff {name word : String}
    (hword : identifier word = word ∧ snakeCase word = word) :
    identifier name = word ↔ snakeCase name = word := by
  have hiff := @identifier_eq_iff name word
  rwa [hword.1, hword.2] at hiff

theorem identifier_snakeCase (name : String) : identifier (snakeCase name) = identifier name :=
  identifier_eq_iff.mpr (snakeCase_snakeCase name)

end Bindery.Naming
