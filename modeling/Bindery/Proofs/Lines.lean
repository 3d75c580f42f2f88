import Bindery.Text.Blank
import Mathlib.Data.List.DropRight

/-! # The lines of a text

A text that ends in a line feed has the lines of its own wherever it stands before another one
(`lines_append_newline`), none of its lines holds a line feed (`newline_not_mem`), and without line
feeds before its end it is a single line (`lines_concat_of_not_mem`).  Lines that are written one
after the other are read again (`lines_flatMap`), and but for the blanks at their ends the lines of a
text are what stands between its line feeds (`map_trimEnd_lines`). -/

namespace Bindery.Text

variable {c : Char} {cs ds p l : List Char} {ls ms : List (List Char)}

/-- An element that two lists lack ends both at once. -/
theorem eq_and_eq_of_not_mem {α : Type} {a b x y : List α} {e : α} (ha : e ∉ a) (hb : e ∉ b)
    (h : a ++ e :: x = b ++ e :: y) : a = b ∧ x = y := by
  rcases List.append_eq_append_iff.mp h with ⟨_ | ⟨d, t⟩, rfl, ht⟩ | ⟨_ | ⟨d, t⟩, rfl, ht⟩
  · exact ⟨(List.append_nil a).symm, (List.cons.inj ht).2⟩
  · exact absurd (List.mem_append_right a ((List.cons.inj ht).1 ▸ List.mem_cons_self)) hb
  · exact ⟨List.append_nil b, (List.cons.inj ht).2.symm⟩
  · exact absurd (List.mem_append_right b ((List.cons.inj ht).1 ▸ List.mem_cons_self)) ha

/-- Puts a character before the first line. -/
def onFirst (c : Char) : List (List Char) → List (List Char)
  | [] => [[c]]
  | l :: ls => (c :: l) :: ls

theorem onFirst_append (h : ls ≠ []) : onFirst c (ls ++ ms) = onFirst c ls ++ ms := by
  cases ls with
  | nil => exact absurd rfl h
  | cons l ls => rfl

/-- A carriage return before a line feed belongs to the end of its line, and any other character to
the first line of what follows. -/
theorem lines_cons (hc : c ≠ '\n') (cs : List Char) : lines (c :: cs) =
    if c = '\r' ∧ cs.head? = some '\n' then lines cs else onFirst c (lines cs) := by
  by_cases hbreak : c = '\r' ∧ cs.head? = some '\n'
  · obtain ⟨rfl, hhead⟩ := hbreak
    obtain ⟨ds, rfl⟩ := List.head?_eq_some_iff.mp hhead
    rw [if_pos ⟨rfl, hhead⟩, lines, lines]
  · rw [if_neg hbreak, lines]
    · rfl
    · exact hc
    · rintro ds rfl rfl
      exact hbreak ⟨rfl, rfl⟩

theorem lines_newline (cs : List Char) : lines ('\n' :: cs) = [] :: lines cs := by
  rw [lines]

theorem lines_ne_nil (h : cs ≠ []) : lines cs ≠ [] := by
  induction cs with
  | nil => exact absurd rfl h
  | cons c cs ih =>
      by_cases hc : c = '\n'
      · rw [hc, lines_newline]
        exact List.cons_ne_nil _ _
      · rw [lines_cons hc]
        split
        · rename_i hbreak
          exact ih fun hnil => by simp [hnil] at hbreak
        · cases lines cs <;> exact List.cons_ne_nil _ _

theorem lines_concat_ne_nil (cs : List Char) : lines (cs ++ ['\n']) ≠ [] :=
  lines_ne_nil (List.concat_ne_nil _ _)

/-- No line holds a line feed. -/
theorem newline_not_mem (h : l ∈ lines cs) : '\n' ∉ l := by
  induction cs generalizing l with
  | nil => cases h
  | cons c cs ih =>
      by_cases hc : c = '\n'
      · rw [hc, lines_newline] at h
        rcases List.mem_cons.mp h with rfl | h
        · exact List.not_mem_nil
        · exact ih h
      · rw [lines_cons hc] at h
        split at h
        · exact ih h
        · cases hls : lines cs with
          | nil =>
              rw [hls, onFirst, List.mem_singleton] at h
              rw [h, List.mem_singleton]
              exact Ne.symm hc
          | cons m ms =>
              rw [hls] at h
              rcases List.mem_cons.mp h with rfl | h
              · have hm := ih (hls ▸ List.mem_cons_self)
                exact List.not_mem_cons_of_ne_of_not_mem (Ne.symm hc) hm
              · exact ih (hls ▸ List.mem_cons_of_mem _ h)

/-- A text without line feeds is one line. -/
theorem lines_concat_of_not_mem (h : '\n' ∉ cs) : ∃ l, lines (cs ++ ['\n']) = [l] := by
  induction cs with
  | nil => exact ⟨[], rfl⟩
  | cons c cs ih =>
      obtain ⟨l, hl⟩ := ih (List.not_mem_of_not_mem_cons h)
      rw [List.cons_append, lines_cons (List.ne_of_not_mem_cons h).symm, hl]
      split
      · exact ⟨l, rfl⟩
      · exact ⟨c :: l, rfl⟩

/-- A line is read as it is, without the carriage return that would belong to its end. -/
theorem lines_concat (h : '\n' ∉ l) (hreturn : l.getLast? ≠ some '\r') : lines (l ++ ['\n']) = [l] := by
  induction l with
  | nil => rfl
  | cons c l ih =>
      rw [List.cons_append, lines_cons (List.ne_of_not_mem_cons h).symm]
      cases l with
      | nil =>
          rw [if_neg fun hbreak => hreturn (congrArg some hbreak.1)]
          rfl
      | cons d l =>
          rw [List.getLast?_cons_cons] at hreturn
          have hd : d ≠ '\n' := (List.ne_of_not_mem_cons (List.not_mem_of_not_mem_cons h)).symm
          rw [if_neg fun hbreak => hd (Option.some.inj hbreak.2),
            ih (List.not_mem_of_not_mem_cons h) hreturn]
          rfl

/-- The line feed behind a last line makes no difference to it. -/
theorem lines_concat_eq (h : cs.getLast? = some c) (hc : c ≠ '\n') (hreturn : c ≠ '\r') :
    lines (cs ++ ['\n']) = lines cs := by
  induction cs with
  | nil => cases h
  | cons d cs ih =>
      cases cs with
      | nil =>
          have heq : d = c := Option.some.inj h
          rw [heq, List.cons_append, lines_cons hc, lines_cons hc,
            if_neg fun hbreak => hreturn hbreak.1, if_neg fun hbreak => hreturn hbreak.1]
          rfl
      | cons e cs =>
          rw [List.getLast?_cons_cons] at h
          by_cases hd : d = '\n'
          · rw [hd, List.cons_append, lines_newline, lines_newline, ih h]
          · rw [List.cons_append, lines_cons hd, lines_cons hd, ih h]
            rfl

/-- What has no ends of lines stands before the first line of what follows. -/
theorem lines_append_of_plain (hp : ∀ c ∈ p, c ≠ '\n' ∧ c ≠ '\r') (h : lines cs = l :: ls) :
    lines (p ++ cs) = (p ++ l) :: ls := by
  induction p with
  | nil => exact h
  | cons c p ih =>
      obtain ⟨hc, hreturn⟩ := hp c List.mem_cons_self
      rw [List.cons_append, lines_cons hc, if_neg fun hbreak => hreturn hbreak.1,
        ih fun d hd => hp d (List.mem_cons_of_mem _ hd)]
      rfl

/-- A text is read line by line: what stands behind a line feed does not change the lines before it. -/
theorem lines_append_newline (cs ds : List Char) :
    lines (cs ++ '\n' :: ds) = lines (cs ++ ['\n']) ++ lines ds := by
  induction cs with
  | nil => rw [List.nil_append, List.nil_append, lines_newline, lines_newline]; rfl
  | cons c cs ih =>
      by_cases hc : c = '\n'
      · rw [hc, List.cons_append, List.cons_append, lines_newline, lines_newline, ih, List.cons_append]
      · have hhead : (cs ++ '\n' :: ds).head? = (cs ++ ['\n']).head? := by cases cs <;> rfl
        rw [List.cons_append, List.cons_append, lines_cons hc, lines_cons hc, hhead, ih]
        split
        · rfl
        · exact onFirst_append (lines_concat_ne_nil cs)

/-- Lines that are written one after the other, each with a line feed behind it, are read again. -/
theorem lines_flatMap (h : ∀ l ∈ ls, '\n' ∉ l ∧ l.getLast? ≠ some '\r') :
    lines (ls.flatMap (· ++ ['\n'])) = ls := by
  induction ls with
  | nil => rfl
  | cons l ls ih =>
      obtain ⟨⟨hl, hreturn⟩, hls⟩ := List.forall_mem_cons.mp h
      rw [List.flatMap_cons, List.append_assoc, List.singleton_append, lines_append_newline,
        lines_concat hl hreturn, ih hls]
      rfl

/-! ## Blanks -/

theorem trimEnd_eq_nil_iff : trimEnd cs = [] ↔ ∀ c ∈ cs, isBlank c := List.rdropWhile_eq_nil_iff

theorem trim_eq_nil_iff : trim cs = [] ↔ ∀ c ∈ cs, isBlank c := by
  rw [trim, trimStart, trimEnd_eq_nil_iff]
  constructor
  · intro h
    have hnil : cs.dropWhile isBlank = [] := by
      by_contra hne
      have hhead := List.head_dropWhile_not isBlank hne
      rw [h _ (List.head_mem hne)] at hhead
      cases hhead
    exact List.dropWhile_eq_nil_iff.mp hnil
  · exact fun h c hc => h c ((List.dropWhile_sublist isBlank).subset hc)

theorem not_mem_trimEnd (h : c ∉ cs) : c ∉ trimEnd cs := fun hmem =>
  h ((List.rdropWhile_prefix isBlank cs).subset hmem)

theorem not_isBlank_of_getLast? (h : (trimEnd cs).getLast? = some c) : ¬ isBlank c := by
  have hne : trimEnd cs ≠ [] := by
    intro hnil
    rw [hnil] at h
    cases h
  have hlast := List.rdropWhile_last_not isBlank cs hne
  rw [List.getLast?_eq_some_getLast hne] at h
  exact Option.some.inj h ▸ hlast

theorem trimEnd_cons (c : Char) (cs : List Char) :
    trimEnd (c :: cs) = if trimEnd cs = [] then trimEnd [c] else c :: trimEnd cs := by
  have hreverse : trimEnd (c :: cs) = ((cs.reverse ++ [c]).dropWhile isBlank).reverse := by
    rw [trimEnd, List.reverse_cons]
  rw [hreverse, List.dropWhile_append]
  by_cases hnil : cs.reverse.dropWhile isBlank = []
  · rw [if_pos (by rw [hnil]; rfl), if_pos (by rw [trimEnd, hnil]; rfl)]
    rfl
  · rw [if_neg (by simpa using hnil), if_neg (by simpa [trimEnd] using hnil), List.reverse_append]
    rfl

/-- But for the blanks behind them, lines are what stands before the line feeds. -/
theorem map_trimEnd_lines_concat (cs : List Char) :
    (lines (cs ++ ['\n'])).map trimEnd = (cs.splitOn '\n').map trimEnd := by
  induction cs with
  | nil => rfl
  | cons c cs ih =>
      rw [List.splitOn_cons_eq_if_modifyHead]
      by_cases hc : c = '\n'
      · rw [if_pos (by simpa using hc), hc, List.cons_append, lines_newline, List.map_cons,
          List.map_cons, ih]
      · obtain ⟨l, ls, hlines⟩ := List.exists_cons_of_ne_nil (lines_concat_ne_nil cs)
        obtain ⟨p, ps, hpieces⟩ := List.exists_cons_of_ne_nil (List.splitOn_ne_nil '\n' cs)
        rw [if_neg (by simpa using hc), List.cons_append, lines_cons hc]
        rw [hlines, hpieces, List.map_cons, List.map_cons] at ih
        rw [hlines, hpieces, List.modifyHead_cons, List.map_cons]
        obtain ⟨hfirst, hrest⟩ := List.cons.inj ih
        have hcons : trimEnd (c :: p) = trimEnd (c :: l) := by
          rw [trimEnd_cons, trimEnd_cons c l, hfirst]
        split
        · -- The carriage return belongs to the end of an empty line, where it is a blank.
          rename_i hbreak
          obtain ⟨ds, hds⟩ := List.head?_eq_some_iff.mp hbreak.2
          rw [hds, lines_newline] at hlines
          obtain ⟨rfl, -⟩ := List.cons.inj hlines
          rw [hcons, List.map_cons, hrest, hbreak.1]
          rfl
        · rw [onFirst, List.map_cons, hcons, hrest]

theorem map_trimEnd_lines (h : cs.getLast? = some c) (hc : ¬ isBlank c) :
    (lines cs).map trimEnd = (cs.splitOn '\n').map trimEnd := by
  have hne : c ≠ '\n' ∧ c ≠ '\r' := ⟨fun heq => hc (heq ▸ rfl), fun heq => hc (heq ▸ rfl)⟩
  rw [← map_trimEnd_lines_concat, lines_concat_eq h hne.1 hne.2]

end Bindery.Text
