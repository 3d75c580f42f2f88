import Bindery.Operation
import Bindery.Proofs.Identifiers

/-! # How names are spelled

A text in snake case is spelled in runs of small letters and digits with single underscores between
them (`Words.exists_runs`).  All letters and digits of the name are there, in their order and in
lower case, and nothing else (`letters_snakeChars`).  The identifier made of a name is valid in
generated source, and it is the same for the name in snake case (`identifier_wellSpelled`). -/

namespace Bindery.Naming

/-- What stands between two underscores. -/
def IsRun (cs : List Char) : Prop := cs ≠ [] ∧ ∀ c ∈ cs, isWordChar c

variable {c : Char} {cs acc : List Char} {runs : List (List Char)}

theorem IsRun.single (hc : isWordChar c) : IsRun [c] :=
  ⟨List.cons_ne_nil _ _, List.forall_mem_singleton.mpr hc⟩

theorem IsRun.cons (hc : isWordChar c) (h : IsRun cs) : IsRun (c :: cs) :=
  ⟨List.cons_ne_nil _ _, List.forall_mem_cons.mpr ⟨hc, h.2⟩⟩

theorem intercalate_cons_first (run : List Char) (runs : List (List Char)) :
    ['_'].intercalate ((c :: run) :: runs) = c :: ['_'].intercalate (run :: runs) := by
  cases runs <;> simp

/-- Words are runs with underscores between them. -/
theorem Words.exists_runs (h : Words cs) : ∃ run runs, (∀ r ∈ run :: runs, IsRun r) ∧
    cs = ['_'].intercalate (run :: runs) := by
  induction h with
  | @single c hc => exact ⟨[c], [], List.forall_mem_singleton.mpr (.single hc), by simp⟩
  | @letter c cs hc _ ih =>
      obtain ⟨run, runs, hruns, rfl⟩ := ih
      rw [List.forall_mem_cons] at hruns
      refine ⟨c :: run, runs, List.forall_mem_cons.mpr ⟨hruns.1.cons hc, hruns.2⟩, ?_⟩
      rw [intercalate_cons_first]
  | @underscore c cs hc _ ih =>
      obtain ⟨run, runs, hruns, rfl⟩ := ih
      exact ⟨[c], run :: runs, List.forall_mem_cons.mpr ⟨.single hc, hruns⟩, by simp⟩

/-! ## The letters of a name -/

/-- The text without its underscores. -/
def letters (cs : List Char) : List Char := cs.filter (· != '_')

theorem letters_append (cs ds : List Char) : letters (cs ++ ds) = letters cs ++ letters ds :=
  List.filter_append cs ds

theorem letters_reverse : letters cs.reverse = (letters cs).reverse := List.filter_reverse

theorem letters_separate : letters (separate acc) = letters acc := by
  unfold separate
  split <;> rfl

theorem letters_dropWhile : letters (acc.dropWhile (· == '_')) = letters acc := by
  induction acc with
  | nil => rfl
  | cons c acc ih =>
      by_cases hc : c = '_'
      · rw [hc, List.dropWhile_cons_of_pos rfl, ih]
        rfl
      · rw [List.dropWhile_cons_of_neg (by simpa using hc)]

theorem letters_cons_toLower (hc : c.isAlphanum) :
    letters (c.toLower :: acc) = c.toLower :: letters acc := by
  have hne : c.toLower ≠ '_' := ne_of_isWordChar (isWordChar_toLower hc) (by decide)
  exact List.filter_cons_of_pos (by simpa using hne)

/-- Each letter or digit that is read is written, in lower case, and nothing else but underscores. -/
theorem letters_snakeOnto (prev : Option Char) (acc cs : List Char) :
    letters (snakeOnto prev acc cs) =
      ((cs.filter Char.isAlphanum).map Char.toLower).reverse ++ letters acc := by
  induction cs generalizing prev acc with
  | nil => rfl
  | cons c cs ih =>
      rw [snakeOnto, ih]
      cases hc : c.isAlphanum with
      | false =>
          rw [List.filter_cons_of_neg (by simp [hc])]
          exact congrArg _ letters_separate
      | true =>
          rw [List.filter_cons_of_pos hc, List.map_cons, List.reverse_cons, List.append_assoc]
          refine congrArg _ ?_
          rw [if_neg (by simp)]
          split
          · rw [letters_cons_toLower hc, letters_separate]
            rfl
          · exact letters_cons_toLower hc

theorem letters_snakeChars (cs : List Char) :
    letters (snakeChars cs) = (cs.filter Char.isAlphanum).map Char.toLower := by
  rw [snakeChars, letters_reverse, letters_dropWhile, letters_snakeOnto]
  simp [letters]

theorem letters_intercalate (h : ∀ run ∈ runs, IsRun run) :
    letters (['_'].intercalate runs) = runs.flatten := by
  induction runs with
  | nil => rfl
  | cons run runs ih =>
      obtain ⟨hrun, hruns⟩ := List.forall_mem_cons.mp h
      have hletters : letters run = run := List.filter_eq_self.mpr fun c hc => by
        simpa using ne_of_isWordChar (hrun.2 c hc) (by decide)
      cases runs with
      | nil => simpa using hletters
      | cons next runs =>
          rw [List.intercalate_cons_cons, List.flatten_cons, letters_append, letters_append,
            ih hruns, hletters]
          exact congrArg (· ++ _) (List.append_nil run)

/-! ## Identifiers -/

/-- The identifier is no word of the language. -/
theorem IsIdentifier.not_mem_keywords {name : String} (h : IsIdentifier name) : name ∉ keywords := by
  cases h with
  | plain _ hnot => exact hnot
  | @raw name hname _ =>
      have hmark : ∀ word ∈ keywords, '#' ∉ word.toList := by decide
      intro hmem
      refine hmark _ hmem ?_
      rw [String.toList_append]
      exact List.mem_append_left _ (List.mem_cons_of_mem _ List.mem_cons_self)

/-- A name in snake case is runs of small letters and digits with single underscores between them,
which together are the letters and digits of the name, and it is its own snake case.  The identifier
made of it is valid and no word of the language, and the same for the name and its snake case, from
which functions are named. -/
theorem identifier_wellSpelled (s : String) :
    (∃ runs, (∀ run ∈ runs, IsRun run) ∧ (snakeCase s).toList = ['_'].intercalate runs ∧
        runs.flatten = (s.toList.filter Char.isAlphanum).map Char.toLower) ∧
      snakeCase (snakeCase s) = snakeCase s ∧
      IsIdentifier (identifier s) ∧ identifier s ∉ keywords ∧
      identifier (snakeCase s) = identifier s ∧
      ∀ op : Operation, { op with name := s }.functionName = identifier s := by
  have hvalid : IsIdentifier (identifier s) := (isFieldName_identifier s).isIdentifier
  refine ⟨?_, snakeCase_snakeCase s, hvalid, hvalid.not_mem_keywords, identifier_snakeCase s,
    fun _ => identifier_snakeCase s⟩
  have hruns : ∃ runs, (∀ run ∈ runs, IsRun run) ∧ snakeChars s.toList = ['_'].intercalate runs := by
    rcases words_snakeChars s.toList with hnil | hwords
    · exact ⟨[], nofun, hnil⟩
    · obtain ⟨run, runs, hruns, heq⟩ := hwords.exists_runs
      exact ⟨run :: runs, hruns, heq⟩
  obtain ⟨runs, hruns, heq⟩ := hruns
  refine ⟨runs, hruns, ?_, ?_⟩
  · rw [snakeCase, String.toList_ofList, heq]
  · rw [← letters_intercalate hruns, ← heq, letters_snakeChars]

end Bindery.Naming
