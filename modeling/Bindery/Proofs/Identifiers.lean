import Bindery.Naming.TypeName
import Bindery.Proofs.Naming

/-! # What generated source admits as names

A name is made of letters, digits and underscores; a word of the language is none, but most of them
have a raw form, with a mark before the word (`IsIdentifier`).  The names that are made for names on
the wire are such identifiers (`isFieldName_identifier`), and so are those of constants
(`isIdentifier_constantName`).

Underscores may be put behind an identifier without harm.  What tells marked names from others stays
the same: a name is marked exactly if it is a reserved word but for the underscores behind it
(`isFieldName_identifier`, `IsFieldName.append_underscore`). -/

namespace Bindery.Naming

open Text

/-- The words of the language, first those in use and then those that are kept for later. -/
def keywords : List String :=
  ["as", "async", "await", "break", "const", "continue", "crate", "dyn", "else", "enum", "extern",
   "false", "fn", "for", "if", "impl", "in", "let", "loop", "match", "mod", "move", "mut", "pub",
   "ref", "return", "self", "Self", "static", "struct", "super", "trait", "true", "type", "unsafe",
   "use", "where", "while",
   "abstract", "become", "box", "do", "final", "gen", "macro", "override", "priv", "try", "typeof",
   "unsized", "virtual", "yield"]

/-- The words of the language that a mark does not make names. -/
def unmarkable : List String := ["crate", "self", "Self", "super"]

/-- Letters, digits and underscores, led by no digit.  An underscore alone is no name. -/
structure IsName (cs : List Char) : Prop where
  mem {c : Char} : c ∈ cs → c.isAlphanum ∨ c = '_'
  not_startsWithDigit : ¬ startsWithDigit cs
  ne_nil : cs ≠ []
  ne_underscore : cs ≠ ['_']

inductive IsIdentifier : String → Prop
  | plain {name} : IsName name.toList → name ∉ keywords → IsIdentifier name
  | raw {name} : IsName name.toList → name ∉ unmarkable → IsIdentifier ("r#" ++ name)

theorem escaped_of_mem_keywords {word : String} (h : word ∈ keywords) :
    word ∈ pathWords ∨ word ∈ reservedWords := by
  revert word
  decide

theorem not_reserved_of_mem_pathWords {word : String} (h : word ∈ pathWords) :
    word ∉ reservedWords := by
  revert word
  decide

theorem pathWord_of_mem_unmarkable {word : String} (h : word ∈ unmarkable) : word ∈ pathWords := by
  revert word
  decide

/-- No word of the language begins or ends with an underscore. -/
theorem ne_underscore_of_mem_keywords {word : String} (h : word ∈ keywords) :
    word.toList.head? ≠ some '_' ∧ word.toList.getLast? ≠ some '_' := by
  revert word
  decide

theorem mem_keywords_of_mem_unmarkable {word : String} (h : word ∈ unmarkable) :
    word ∈ keywords := by
  revert word
  decide

namespace IsName

variable {cs : List Char}

theorem append_underscore (h : IsName cs) : IsName (cs ++ ['_']) where
  mem hc := by
    rcases List.mem_append.mp hc with hc | hc
    · exact h.mem hc
    · exact .inr (List.mem_singleton.mp hc)
  not_startsWithDigit := by
    rcases cs with _ | ⟨c, cs⟩
    · exact absurd rfl h.ne_nil
    · exact h.not_startsWithDigit
  ne_nil := List.append_ne_nil_of_right_ne_nil _ (List.cons_ne_nil _ _)
  ne_underscore := by
    rcases cs with _ | ⟨c, cs⟩
    · exact absurd rfl h.ne_nil
    · simp

end IsName

theorem Words.isName {cs : List Char} (h : Words cs) (hdigit : ¬ startsWithDigit cs) :
    IsName cs where
  mem hc := (h.mem hc).imp_left isAlphanum_of_isWordChar
  not_startsWithDigit := hdigit
  ne_nil := by
    obtain ⟨c, rest, -, rfl⟩ := h.exists_eq_cons
    exact List.cons_ne_nil c rest
  ne_underscore := by
    obtain ⟨c, rest, hc, rfl⟩ := h.exists_eq_cons
    exact fun heq => ne_of_isWordChar hc (by decide) (List.cons.inj heq).1

theorem Words.isName_underscore {cs : List Char} (h : Words cs) : IsName ('_' :: cs) where
  mem hc := by
    rcases List.mem_cons.mp hc with rfl | hc
    · exact .inr rfl
    · exact (h.mem hc).imp_left isAlphanum_of_isWordChar
  not_startsWithDigit := by
    show ¬ ('_'.isDigit : Prop)
    decide
  ne_nil := List.cons_ne_nil _ _
  ne_underscore := by
    obtain ⟨c, rest, -, rfl⟩ := h.exists_eq_cons
    simp

theorem IsIdentifier.append_underscore {s : String} (h : IsIdentifier s) :
    IsIdentifier (s ++ "_") := by
  have hkeyword (name : String) : name ++ "_" ∉ keywords := fun hmem =>
    (ne_underscore_of_mem_keywords hmem).2 (by rw [String.toList_append]; exact List.getLast?_concat)
  have hname {name : String} (h : IsName name.toList) : IsName (name ++ "_").toList := by
    rw [String.toList_append]
    exact h.append_underscore
  cases h with
  | plain h _ => exact .plain (hname h) (hkeyword _)
  | @raw name h _ =>
      rw [String.append_assoc]
      exact .raw (hname h) fun hmem => hkeyword name (mem_keywords_of_mem_unmarkable hmem)

/-! ## Marks and underscores -/

/-- What stands before the word in a raw name. -/
def mark : List Char := ['r', '#']

def isRaw (s : String) : Bool := (dropPrefix? mark s.toList).isSome

/-- The name without the mark of raw names. -/
def withoutMark (s : String) : String := String.ofList (withoutPrefix mark s.toList)

/-- The name without the underscores behind it. -/
def stem (s : String) : String := String.ofList (s.toList.rdropWhile (· == '_'))

theorem dropPrefix?_concat {ps : List Char} {c : Char} (h : c ∉ ps) (cs : List Char) :
    dropPrefix? ps (cs ++ [c]) = (dropPrefix? ps cs).map (· ++ [c]) := by
  induction ps generalizing cs with
  | nil => rfl
  | cons p ps ih =>
      have hne : p ≠ c := fun heq => h (heq ▸ List.mem_cons_self)
      cases cs with
      | nil => exact if_neg hne
      | cons d cs =>
          rw [List.cons_append, dropPrefix?, dropPrefix?]
          split
          · exact ih (fun hmem => h (List.mem_cons_of_mem _ hmem)) cs
          · rfl

theorem dropPrefix?_mark_append (s : String) : dropPrefix? mark (s ++ "_").toList =
    (dropPrefix? mark s.toList).map (· ++ ['_']) := by
  rw [String.toList_append]
  exact dropPrefix?_concat (by decide) s.toList

theorem isRaw_append (s : String) : isRaw (s ++ "_") = isRaw s := by
  rw [isRaw, dropPrefix?_mark_append, Option.isSome_map, isRaw]

theorem withoutMark_append (s : String) : withoutMark (s ++ "_") = withoutMark s ++ "_" := by
  rw [withoutMark, withoutMark, withoutPrefix, withoutPrefix, dropPrefix?_mark_append,
    String.toList_append]
  cases dropPrefix? mark s.toList with
  | none => exact String.ofList_append
  | some rest => exact String.ofList_append

/-- A name is what it is without its mark, and the mark. -/
theorem eq_of_withoutMark_eq {s s' : String} (h : withoutMark s = withoutMark s')
    (hraw : isRaw s = isRaw s') : s = s' := by
  have hchars := congrArg String.toList h
  rw [withoutMark, withoutMark, String.toList_ofList, String.toList_ofList, withoutPrefix,
    withoutPrefix] at hchars
  rw [isRaw, isRaw] at hraw
  rw [← String.toList_inj]
  cases hs : dropPrefix? mark s.toList with
  | none =>
      cases hs' : dropPrefix? mark s'.toList with
      | none => rwa [hs, hs'] at hchars
      | some rest => rw [hs, hs'] at hraw; cases hraw
  | some rest =>
      cases hs' : dropPrefix? mark s'.toList with
      | none => rw [hs, hs'] at hraw; cases hraw
      | some rest' =>
          rw [hs, hs', Option.getD_some, Option.getD_some] at hchars
          rw [dropPrefix?_eq_some_iff.mp hs, dropPrefix?_eq_some_iff.mp hs', hchars]

theorem withoutMark_of_not_isRaw {s : String} (h : isRaw s = false) : withoutMark s = s := by
  rw [isRaw, Option.isSome_eq_false_iff, Option.isNone_iff_eq_none] at h
  rw [withoutMark, withoutPrefix, h, Option.getD_none, String.ofList_toList]

theorem dropPrefix?_mark_mark (s : String) :
    dropPrefix? mark ("r#" ++ s).toList = some s.toList := by
  rw [String.toList_append]
  exact dropPrefix?_append mark s.toList

theorem isRaw_mark (s : String) : isRaw ("r#" ++ s) = true := by
  rw [isRaw, dropPrefix?_mark_mark, Option.isSome_some]

theorem withoutMark_mark (s : String) : withoutMark ("r#" ++ s) = s := by
  rw [withoutMark, withoutPrefix, dropPrefix?_mark_mark, Option.getD_some, String.ofList_toList]

/-- A name that is a word of the language but for its mark has one. -/
theorem IsIdentifier.isRaw_of_mem_keywords {s : String} (h : IsIdentifier s)
    (hkeyword : withoutMark s ∈ keywords) : isRaw s := by
  cases h with
  | plain _ hnot =>
      by_contra hraw
      rw [withoutMark_of_not_isRaw (by simpa using hraw)] at hkeyword
      exact hnot hkeyword
  | raw _ _ => exact isRaw_mark _

theorem stem_append (s : String) : stem (s ++ "_") = stem s := by
  rw [stem, stem, String.toList_append]
  exact congrArg _ (List.rdropWhile_concat_pos _ _ _ rfl)

theorem stem_eq_self {s : String} {c : Char} {cs : List Char} (hc : c ≠ '_')
    (h : s.toList = cs ++ [c]) : stem s = s := by
  rw [stem, h, List.rdropWhile_concat_neg _ _ _ (by simpa using hc), ← h, String.ofList_toList]

/-- An identifier whose mark is there exactly if the name is a reserved word but for the
underscores behind it. -/
structure IsFieldName (s : String) : Prop where
  isIdentifier : IsIdentifier s
  isRaw_iff : isRaw s ↔ stem (withoutMark s) ∈ reservedWords

theorem IsFieldName.append_underscore {s : String} (h : IsFieldName s) : IsFieldName (s ++ "_") where
  isIdentifier := h.isIdentifier.append_underscore
  isRaw_iff := by rw [isRaw_append, withoutMark_append, stem_append, h.isRaw_iff]

/-- Of field names the mark may be dropped without making two of them one. -/
theorem IsFieldName.eq_of_withoutMark_eq {s s' : String} (h : IsFieldName s) (h' : IsFieldName s')
    (heq : withoutMark s = withoutMark s') : s = s' :=
  Naming.eq_of_withoutMark_eq heq (Bool.eq_iff_iff.mpr (by rw [h.isRaw_iff, h'.isRaw_iff, heq]))

/-! ## Identifiers of names on the wire -/

theorem Words.stem_eq {word : String} (h : Words word.toList) : stem word = word := by
  obtain ⟨c, rest, hc, heq⟩ := h.exists_eq_concat
  exact stem_eq_self (ne_of_isWordChar hc (by decide)) heq

theorem Words.stem_underscore {word : String} (h : Words word.toList) :
    stem ("_" ++ word) = "_" ++ word := by
  obtain ⟨c, rest, hc, heq⟩ := h.exists_eq_concat
  have hchars : ("_" ++ word).toList = '_' :: rest ++ [c] := by
    rw [String.toList_append, heq]
    rfl
  exact stem_eq_self (ne_of_isWordChar hc (by decide)) hchars

theorem Words.not_isRaw {word : String} (h : Words word.toList) : isRaw word = false := by
  rw [isRaw, Option.isSome_eq_false_iff, Option.isNone_iff_eq_none, Option.eq_none_iff_forall_ne_some]
  intro rest hrest
  have hhash : '#' ∈ word.toList := by
    rw [dropPrefix?_eq_some_iff.mp hrest]
    exact List.mem_cons_of_mem _ List.mem_cons_self
  exact (h.mem hhash).elim (by decide) (by decide)

theorem Words.isFieldName_of_not_reserved {word : String} (h : Words word.toList)
    (hidentifier : IsIdentifier word) (hreserved : word ∉ reservedWords) : IsFieldName word where
  isIdentifier := hidentifier
  isRaw_iff := by
    rw [withoutMark_of_not_isRaw h.not_isRaw, h.stem_eq, h.not_isRaw]
    simpa using hreserved

/-- A word that a mark does not make a name is made one by an underscore. -/
theorem Words.isFieldName_pathWord {word : String} (h : Words word.toList)
    (hname : IsName word.toList) (hpath : word ∈ pathWords) : IsFieldName (word ++ "_") where
  isIdentifier := by
    refine .plain ?_ fun hmem => ?_
    · rw [String.toList_append]
      exact hname.append_underscore
    · exact (ne_underscore_of_mem_keywords hmem).2
        (by rw [String.toList_append]; exact List.getLast?_concat)
  isRaw_iff := by
    have hreserved : word ∉ reservedWords := not_reserved_of_mem_pathWords hpath
    rw [isRaw_append, withoutMark_append, stem_append, withoutMark_of_not_isRaw h.not_isRaw,
      h.stem_eq, h.not_isRaw]
    simpa using hreserved

theorem isFieldName_of_underscore {cs : List Char} {s : String} (hs : s.toList = '_' :: cs)
    (hname : IsName s.toList) (hstem : stem s = s) : IsFieldName s := by
  have hhead : s.toList.head? = some '_' := by rw [hs]; rfl
  have hraw : isRaw s = false := by rw [isRaw, hs]; rfl
  refine ⟨.plain hname fun hmem => (ne_underscore_of_mem_keywords hmem).1 hhead, ?_⟩
  rw [withoutMark_of_not_isRaw hraw, hstem, hraw]
  have hnot : s ∉ reservedWords := fun hmem =>
    head?_ne_of_mem_reserved (List.mem_append_right _ hmem) hhead
  simpa using hnot

theorem isFieldName_escapeName {word : String} (h : Words word.toList) :
    IsFieldName (escapeName word) := by
  cases hdigit : startsWithDigit word.toList with
  | true =>
      have hchars : ("_" ++ word).toList = '_' :: word.toList := String.toList_append
      rw [escapeName_of_startsWithDigit hdigit]
      exact isFieldName_of_underscore hchars (hchars ▸ h.isName_underscore) h.stem_underscore
  | false =>
      have hname : IsName word.toList := h.isName (by simp [hdigit])
      rw [escapeName_of_not_startsWithDigit hdigit]
      split
      · rename_i hpath
        exact h.isFieldName_pathWord hname hpath
      · rename_i hpath
        split
        · rename_i hreserved
          refine ⟨.raw hname fun hmem => hpath (pathWord_of_mem_unmarkable hmem), ?_⟩
          rw [isRaw_mark, withoutMark_mark, h.stem_eq]
          exact iff_of_true rfl hreserved
        · rename_i hreserved
          refine h.isFieldName_of_not_reserved (.plain hname fun hmem => ?_) hreserved
          exact (escaped_of_mem_keywords hmem).elim hpath hreserved

theorem isFieldName_identifier (name : String) : IsFieldName (identifier name) := by
  rcases words_snakeCase name with hnil | h
  · have hempty : identifier name = "_empty" := by
      rw [identifier, hnil]
      rfl
    rw [hempty]
    have hwords : Words "empty".toList :=
      .letter rfl (.letter rfl (.letter rfl (.letter rfl (.single rfl))))
    exact isFieldName_of_underscore rfl hwords.isName_underscore hwords.stem_underscore
  · rw [identifier_of_words h]
    exact isFieldName_escapeName h

/-! ## Constants -/

theorem isAlphanum_toUpper {c : Char} (h : c.isAlphanum) : c.toUpper.isAlphanum := by
  cases halpha : c.isAlpha with
  | true => rw [Char.isAlphanum, Char.isAlpha_toUpper_eq_isAlpha, halpha, Bool.true_or]
  | false =>
      have hlower : ¬ c.isLower := fun hlower => by simp [Char.isAlpha, hlower] at halpha
      rwa [Char.toUpper_eq_of_not_isLower hlower]

/-- Every word of the language has a small letter. -/
theorem isIdentifier_of_not_isLower {s : String} (hname : IsName s.toList)
    (h : ∀ c ∈ s.toList, ¬ c.isLower) : IsIdentifier s := by
  have hlower : ∀ word ∈ keywords, word.toList.any Char.isLower := by decide +kernel
  refine .plain hname fun hmem => ?_
  obtain ⟨c, hc, hc'⟩ := List.any_eq_true.mp (hlower s hmem)
  exact h c hc hc'

/-- What a constant is named for, in capital letters. -/
def capitals (name : String) : List Char := (snakeChars name.toList).map Char.toUpper

theorem constantName_eq (name : String) : (constantName name).toList =
    if (capitals name).isEmpty || startsWithDigit (capitals name) then 'V' :: '_' :: capitals name
    else capitals name := String.toList_ofList

theorem mem_capitals {name : String} {c : Char} (h : c ∈ capitals name) :
    (c.isAlphanum ∨ c = '_') ∧ ¬ c.isLower := by
  obtain ⟨d, hd, rfl⟩ := List.mem_map.mp h
  refine ⟨?_, by simp⟩
  rcases words_snakeChars name.toList with hnil | hwords
  · rw [hnil] at hd
    cases hd
  · rcases hwords.mem hd with hd | rfl
    · exact .inl (isAlphanum_toUpper (isAlphanum_of_isWordChar hd))
    · exact .inr rfl

theorem capitals_ne_underscore (name : String) : capitals name ≠ ['_'] := by
  rcases words_snakeChars name.toList with hnil | hwords
  · simp [capitals, hnil]
  · obtain ⟨c, rest, hc, hcons⟩ := hwords.exists_eq_cons
    rw [capitals, hcons, List.map_cons]
    intro heq
    have halnum := isAlphanum_toUpper (isAlphanum_of_isWordChar hc)
    rw [(List.cons.inj heq).1] at halnum
    cases halnum

theorem isName_constantName (name : String) : IsName (constantName name).toList := by
  rw [constantName_eq]
  split
  · exact {
      mem := by
        intro c hc
        rcases List.mem_cons.mp hc with rfl | hc
        · exact .inl rfl
        · rcases List.mem_cons.mp hc with rfl | hc
          · exact .inr rfl
          · exact (mem_capitals hc).1
      not_startsWithDigit := by
        show ¬ ('V'.isDigit : Prop)
        decide
      ne_nil := List.cons_ne_nil _ _
      ne_underscore := by simp }
  · rename_i h
    rw [Bool.or_eq_true, not_or] at h
    exact {
      mem := fun hc => (mem_capitals hc).1
      not_startsWithDigit := h.2
      ne_nil := by simpa using h.1
      ne_underscore := capitals_ne_underscore name }

theorem isIdentifier_constantName (name : String) : IsIdentifier (constantName name) := by
  refine isIdentifier_of_not_isLower (isName_constantName name) fun c hc => ?_
  rw [constantName_eq] at hc
  split at hc
  · rcases List.mem_cons.mp hc with rfl | hc
    · decide
    · rcases List.mem_cons.mp hc with rfl | hc
      · decide
      · exact (mem_capitals hc).2
  · exact (mem_capitals hc).2

end Bindery.Naming
