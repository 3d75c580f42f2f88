import Bindery.Naming.DocComment
import Bindery.Naming.TypeName
import Bindery.Proofs.Lines

/-! # What a comment says

A description becomes one comment line for each of its lines, which has the indent and the slashes in
front and no blank at its end (`Naming.lines_docComment`).  Without the indent, the slashes and the
blank behind them the comment is the description again, but for blanks at the end of its lines and
around it (`Naming.docComment_exact`). -/

namespace Bindery

namespace Naming

open Text

variable {indent line : List Char}

/-- A comment line without the end of the line. -/
def commentLine (indent line : List Char) : List Char :=
  indent ++ "///".toList ++ (if trimEnd line = [] then [] else ' ' :: trimEnd line)

/-- What a comment line says: what stands behind the indent and the slashes, without the blank in
front of it. -/
def commented? (indent line : List Char) : Option (List Char) :=
  (dropPrefix? (indent ++ "///".toList) line).map (withoutPrefix [' '])

theorem docLine_eq (indent line : List Char) :
    docLine indent line = commentLine indent line ++ ['\n'] := by
  unfold docLine commentLine
  split
  · rename_i hnil
    rw [if_pos hnil, List.append_nil, List.append_assoc]
    rfl
  · rename_i hne
    rw [if_neg hne]
    simp

theorem commented?_commentLine (indent line : List Char) :
    commented? indent (commentLine indent line) = some (trimEnd line) := by
  rw [commented?, commentLine, dropPrefix?_append, Option.map_some]
  split
  · rename_i hnil
    rw [hnil]
    rfl
  · rfl

theorem prefix_commentLine (indent line : List Char) :
    indent ++ "///".toList <+: commentLine indent line := List.prefix_append _ _

theorem newline_not_mem_commentLine (hindent : '\n' ∉ indent) (hline : '\n' ∉ line) :
    '\n' ∉ commentLine indent line := by
  have hend : '\n' ∉ (if trimEnd line = [] then [] else ' ' :: trimEnd line) := by
    split
    · exact List.not_mem_nil
    · exact List.not_mem_cons_of_ne_of_not_mem (by decide) (not_mem_trimEnd hline)
  simp [commentLine, hindent, hend]

/-- No comment line ends in a blank: its last character is a slash, or that of the line. -/
theorem not_isBlank_of_commentLine {c : Char} (h : (commentLine indent line).getLast? = some c) :
    ¬ isBlank c := by
  rw [commentLine, List.getLast?_append] at h
  split at h
  · rw [List.getLast?_append] at h
    obtain rfl : '/' = c := Option.some.inj h
    decide
  · rename_i hne
    obtain ⟨d, hd⟩ := List.getLast?_isSome.mpr hne |> Option.isSome_iff_exists.mp
    rw [List.getLast?_cons, hd] at h
    obtain rfl : d = c := Option.some.inj h
    exact not_isBlank_of_getLast? hd

theorem toList_docComment (s indent : String) : (docComment (some s) indent).toList =
    ((lines (trim s.toList)).map (commentLine indent.toList)).flatMap (· ++ ['\n']) := by
  rw [docComment, String.toList_ofList, List.flatMap_map]
  exact List.flatMap_congr fun line _ => docLine_eq _ line

/-- The comment has one line for each line of the description. -/
theorem lines_docComment {indent : String} (h : '\n' ∉ indent.toList) (s : String) :
    lines (docComment (some s) indent).toList =
      (lines (trim s.toList)).map (commentLine indent.toList) := by
  rw [toList_docComment]
  refine lines_flatMap (List.forall_mem_map.mpr fun line hline => ⟨?_, fun hreturn => ?_⟩)
  · exact newline_not_mem_commentLine h (newline_not_mem hline)
  · exact not_isBlank_of_commentLine hreturn rfl

theorem docComment_eq_empty_iff {text : Option String} {indent : String} :
    docComment text indent = "" ↔ ∀ s ∈ text, ∀ c ∈ s.toList, isBlank c := by
  cases text with
  | none => exact iff_of_true rfl nofun
  | some s =>
      have hempty : docComment (some s) indent = "" ↔ lines (trim s.toList) = [] := by
        rw [← String.toList_inj, toList_docComment]
        cases lines (trim s.toList) <;> simp
      have hlines : lines (trim s.toList) = [] ↔ trim s.toList = [] :=
        ⟨fun h => by_contra fun hne => lines_ne_nil hne h, fun h => by rw [h]; rfl⟩
      rw [hempty, hlines, trim_eq_nil_iff]
      simp

/-- A description makes a comment exactly if it says something.  The comment is lines that end in a
line feed each and not in a blank, with the indent and the slashes in front.  Behind these and a blank
they give the lines of the trimmed description back, which are what stands between its line feeds but
for the blanks at their ends. -/
theorem docComment_exact {indent : String} (h : '\n' ∉ indent.toList) (text : Option String) :
    (docComment text indent = "" ↔ ∀ s ∈ text, ∀ c ∈ s.toList, isBlank c) ∧
      ∀ s ∈ text, ∃ comment : List (List Char),
        (docComment text indent).toList = comment.flatMap (· ++ ['\n']) ∧
        (∀ line ∈ comment, indent.toList ++ "///".toList <+: line ∧ '\n' ∉ line ∧
          ∀ c ∈ line.getLast?, ¬ isBlank c) ∧
        comment.map (commented? indent.toList) =
          ((lines (trim s.toList)).map trimEnd).map some ∧
        (docComment text indent ≠ "" →
          (lines (trim s.toList)).map trimEnd = ((trim s.toList).splitOn '\n').map trimEnd) := by
  refine ⟨docComment_eq_empty_iff, ?_⟩
  rintro s rfl
  refine ⟨_, toList_docComment s indent, List.forall_mem_map.mpr fun line hline => ?_, ?_, fun hne => ?_⟩
  · refine ⟨prefix_commentLine _ _, ?_, fun c hc => not_isBlank_of_commentLine hc⟩
    exact newline_not_mem_commentLine h (newline_not_mem hline)
  · rw [List.map_map, List.map_map]
    exact List.map_congr_left fun line _ => commented?_commentLine _ line
  · have hnil : trim s.toList ≠ [] := fun hnil =>
      hne (docComment_eq_empty_iff.mpr (by simpa using trim_eq_nil_iff.mp hnil))
    obtain ⟨c, hc⟩ := Option.isSome_iff_exists.mp (List.getLast?_isSome.mpr hnil)
    exact map_trimEnd_lines hc (not_isBlank_of_getLast? hc)

/-- Lines that end in blanks and carriage returns, among them an empty one, behind an indent. -/
theorem docComment_exact_indented :
    '\n' ∉ "    ".toList ∧ ∃ comment : List (List Char),
      (docComment (some "\r\n a  \r\n\r\n  \tb \n") "    ").toList = comment.flatMap (· ++ ['\n']) ∧
      (∀ line ∈ comment, "    ///".toList <+: line ∧ '\n' ∉ line ∧
        ∀ c ∈ line.getLast?, ¬ isBlank c) ∧
      comment.map (commented? "    ".toList) = [some "a".toList, some [], some "  \tb".toList] := by
  have hindent : '\n' ∉ "    ".toList := by decide
  obtain ⟨-, hcomment⟩ := docComment_exact hindent (some "\r\n a  \r\n\r\n  \tb \n")
  obtain ⟨comment, htext, hlines, hsaid, -⟩ := hcomment _ rfl
  exact ⟨hindent, comment, htext, hlines, hsaid.trans (by decide)⟩

end Naming
end Bindery
