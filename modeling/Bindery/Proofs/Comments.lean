import Bindery.Proofs.Descriptions
import Bindery.Proofs.Fields

/-! # What stands above a function

Between the struct of a request and the function that sends it stand comments and the mark of what is
deprecated.  A description is put there line by line, each with its slashes, whatever it holds
(`Emission.allHarmless_docComment`).  The path, the id of the operation and the scopes are put behind
slashes as they are (`Operation.remarks`), so that from their first line feed on they stand outside
the comment: what stands above the function is harmless exactly if the lines with which these texts go
on are (`Operation.allHarmless_interlude`). -/

namespace Bindery

open Document Naming Text

namespace Emission

variable {a b s : String} {line : List Char}

/-- The line adds nothing to a program: it is empty or a comment, or marks what follows. -/
def Harmless (line : List Char) : Prop :=
  line = [] ∨ "///".toList <+: line ∨ line = "#[deprecated]".toList

instance : DecidablePred Harmless := fun _ => inferInstanceAs (Decidable (_ ∨ _ ∨ _))

/-- All lines of the text are harmless. -/
def AllHarmless (s : String) : Prop := ∀ line ∈ lines s.toList, Harmless line

instance : DecidablePred AllHarmless := fun s =>
  inferInstanceAs (Decidable (∀ line ∈ lines s.toList, Harmless line))

/-- Nothing, or lines that all end in a line feed. -/
def Whole (s : String) : Prop := s = "" ∨ ∃ cs, s.toList = cs ++ ['\n']

theorem lines_append_of_whole (ha : Whole a) (b : String) :
    lines (a ++ b).toList = lines a.toList ++ lines b.toList := by
  rw [String.toList_append]
  rcases ha with rfl | ⟨cs, hcs⟩
  · rfl
  · rw [hcs, List.append_assoc, List.singleton_append]
    exact lines_append_newline cs b.toList

theorem allHarmless_append (ha : Whole a) : AllHarmless (a ++ b) ↔ AllHarmless a ∧ AllHarmless b := by
  rw [AllHarmless, lines_append_of_whole ha, List.forall_mem_append]
  rfl

theorem allHarmless_empty : AllHarmless "" := nofun

theorem allHarmless_newline : AllHarmless "\n" := by
  intro line h
  exact .inl (List.mem_singleton.mp h)

theorem allHarmless_join {ss : List String} (h : ∀ s ∈ ss, Whole s) :
    AllHarmless (String.join ss) ↔ ∀ s ∈ ss, AllHarmless s := by
  induction ss with
  | nil => exact iff_of_true allHarmless_empty nofun
  | cons s ss ih =>
      rw [String.join_cons, allHarmless_append (h s List.mem_cons_self),
        ih fun t ht => h t (List.mem_cons_of_mem _ ht), List.forall_mem_cons]

theorem whole_join {ss : List String} (h : ∀ s ∈ ss, Whole s) : Whole (String.join ss) := by
  induction ss with
  | nil => exact .inl rfl
  | cons s ss ih =>
      have hs := h s List.mem_cons_self
      rw [String.join_cons]
      rcases ih fun t ht => h t (List.mem_cons_of_mem _ ht) with hnil | ⟨cs, hcs⟩
      · rwa [hnil, String.append_empty]
      · exact .inr ⟨s.toList ++ cs, by rw [String.toList_append, hcs, List.append_assoc]⟩

/-! ## A text behind slashes -/

/-- A text put behind slashes as it is. -/
def remarkText (s : String) : String := "/// " ++ s ++ "\n"

theorem whole_remarkText (s : String) : Whole (remarkText s) :=
  .inr ⟨("/// " ++ s).toList, String.toList_append⟩

/-- The lines with which a text goes on behind its first line feed. -/
def continuation (s : String) : List (List Char) := (lines (s.toList ++ ['\n'])).tail

theorem continuation_of_not_mem (h : '\n' ∉ s.toList) : continuation s = [] := by
  obtain ⟨l, hl⟩ := lines_concat_of_not_mem h
  rw [continuation, hl, List.tail_cons]

/-- Slashes reach to the end of the first line. -/
theorem lines_remarkText (s : String) : ∃ first,
    lines (remarkText s).toList = ("/// ".toList ++ first) :: continuation s := by
  obtain ⟨first, rest, hlines⟩ := List.exists_cons_of_ne_nil (lines_concat_ne_nil s.toList)
  have hslashes : ∀ c ∈ "/// ".toList, c ≠ '\n' ∧ c ≠ '\r' := by simp
  refine ⟨first, ?_⟩
  rw [remarkText, String.append_assoc, String.toList_append, String.toList_append, continuation, hlines]
  exact lines_append_of_plain hslashes hlines

theorem harmless_slashes (first : List Char) : Harmless ("/// ".toList ++ first) := by
  have hmore : "///".toList <+: "/// ".toList := by decide
  exact .inr (.inl (hmore.trans (List.prefix_append _ _)))

theorem allHarmless_remarkText :
    AllHarmless (remarkText s) ↔ ∀ line ∈ continuation s, Harmless line := by
  obtain ⟨first, hlines⟩ := lines_remarkText s
  rw [AllHarmless, hlines, List.forall_mem_cons]
  exact and_iff_right (harmless_slashes first)

/-! ## A description -/

theorem whole_docComment (text : Option String) : Whole (docComment text "") := by
  cases text with
  | none => exact .inl rfl
  | some s =>
      rw [Whole, ← String.toList_inj, toList_docComment]
      rcases List.eq_nil_or_concat ((lines (trim s.toList)).map (commentLine [])) with
        hnil | ⟨before, last, hconcat⟩
      · exact .inl (congrArg (List.flatMap (· ++ ['\n'])) hnil)
      · refine .inr ⟨before.flatMap (· ++ ['\n']) ++ last, ?_⟩
        rw [show "".toList = [] from rfl, hconcat]
        simp

/-- A description is a comment, whatever it holds. -/
theorem allHarmless_docComment (text : Option String) : AllHarmless (docComment text "") := by
  cases text with
  | none => exact allHarmless_empty
  | some s =>
      rw [AllHarmless, lines_docComment (by decide), List.forall_mem_map]
      exact fun line _ => .inr (.inl (prefix_commentLine [] line))

end Emission

/-! ## The texts above a function -/

namespace Operation

open Emission

variable {op : Operation}

def scopeRemark : String × List String → String
  | (scheme, []) => "Scope: " ++ scheme
  | (scheme, scopes) => "Scope: " ++ scheme ++ ": " ++ ", ".intercalate scopes

/-- The texts that stand above the function behind slashes, as they are. -/
def remarks (op : Operation) : List String :=
  ["URL: `" ++ op.path ++ "`", "Operation: `" ++ op.operationId ++ "` (" ++ op.method.word ++ ")"] ++
    op.scopes.map scopeRemark

/-- What the remarks take from the document. -/
def pasted (op : Operation) : List String :=
  op.path :: op.operationId :: op.scopes.flatMap fun scope => scope.1 :: scope.2

/-- What stands between the struct of the request and the function. -/
def interlude (op : Operation) : String := "\n" ++ op.headText

theorem scopeText_eq (scope : String × List String) : scopeText scope = remarkText (scopeRemark scope) := by
  obtain ⟨scheme, _ | ⟨scope, scopes⟩⟩ := scope
  · change _ = "/// " ++ ("Scope: " ++ scheme) ++ "\n"
    rw [← String.append_assoc]
    rfl
  · change _ = "/// " ++ ("Scope: " ++ scheme ++ ": " ++ _) ++ "\n"
    simp only [← String.append_assoc]
    rfl

theorem interlude_eq (op : Operation) : op.interlude =
    "\n" ++ (docComment op.description "" ++ ((if op.description.isSome then "///\n" else "") ++
      (String.join (op.remarks.map remarkText) ++ if op.deprecated then "#[deprecated]\n" else ""))) := by
  have hscopes : op.scopes.map scopeText = (op.scopes.map scopeRemark).map remarkText := by
    rw [List.map_map]
    exact List.map_congr_left fun scope _ => scopeText_eq scope
  have hurl : "/// URL: `" = "/// " ++ "URL: `" := rfl
  have hoperation : "/// Operation: `" = "/// " ++ "Operation: `" := rfl
  have hquote : "`\n" = "`" ++ "\n" := rfl
  have hbracket : ")\n" = ")" ++ "\n" := rfl
  unfold interlude headText remarks
  rw [hscopes, hurl, hoperation, hquote, hbracket, List.map_append, String.join_append]
  simp only [List.map_cons, List.map_nil, String.join_cons, String.join_nil, remarkText,
    String.append_assoc, String.append_empty]

/-- Above the function stands nothing but comments and marks exactly if the remarks go on with
nothing else. -/
theorem allHarmless_interlude : AllHarmless op.interlude ↔
    ∀ r ∈ op.remarks, ∀ line ∈ continuation r, Harmless line := by
  have hremarks : AllHarmless (String.join (op.remarks.map remarkText)) ↔
      ∀ r ∈ op.remarks, ∀ line ∈ continuation r, Harmless line := by
    rw [allHarmless_join (List.forall_mem_map.mpr fun r _ => whole_remarkText r), List.forall_mem_map]
    exact forall₂_congr fun _ _ => allHarmless_remarkText
  have hslashes : AllHarmless (if op.description.isSome then "///\n" else "") ∧
      Whole (if op.description.isSome then "///\n" else "") := by
    split
    · exact ⟨by decide, .inr ⟨['/', '/', '/'], rfl⟩⟩
    · exact ⟨allHarmless_empty, .inl rfl⟩
  have hmark : AllHarmless (if op.deprecated then "#[deprecated]\n" else "") := by
    split
    · decide
    · exact allHarmless_empty
  have hwhole : Whole (String.join (op.remarks.map remarkText)) :=
    whole_join (List.forall_mem_map.mpr fun r _ => whole_remarkText r)
  rw [interlude_eq, allHarmless_append (.inr ⟨[], rfl⟩), allHarmless_append (whole_docComment _),
    allHarmless_append hslashes.2, allHarmless_append hwhole, hremarks]
  exact ⟨fun h => h.2.2.2.1, fun h =>
    ⟨allHarmless_newline, allHarmless_docComment _, hslashes.1, h, hmark⟩⟩

theorem exists_functionText_eq (op : Operation) : ∃ rest, op.functionText = "pub async fn " ++ rest := by
  unfold functionText
  simp only [String.append_assoc]
  exact ⟨_, rfl⟩

theorem not_mem_intercalate {c : Char} {s : String} {ss : List String} (hs : c ∉ s.toList)
    (h : ∀ t ∈ ss, c ∉ t.toList) : c ∉ (s.intercalate ss).toList := by
  induction ss with
  | nil => simp
  | cons t ss ih =>
      obtain ⟨ht, hss⟩ := List.forall_mem_cons.mp h
      cases ss with
      | nil => simpa using ht
      | cons u ss =>
          rw [String.intercalate_cons_cons, String.toList_append, String.toList_append,
            List.mem_append, List.mem_append, not_or, not_or]
          exact ⟨⟨ht, hs⟩, ih hss⟩

theorem not_mem_scopeRemark {scope : String × List String}
    (h : ∀ t ∈ scope.1 :: scope.2, '\n' ∉ t.toList) : '\n' ∉ (scopeRemark scope).toList := by
  obtain ⟨scheme, _ | ⟨s, ss⟩⟩ := scope
  · simpa [scopeRemark] using h
  · obtain ⟨hscheme, hscopes⟩ := List.forall_mem_cons.mp h
    have hjoined := not_mem_intercalate (s := ", ") (by simp) hscopes
    simp [scopeRemark, hscheme, hjoined, -String.toList_intercalate]

/-- What is pasted without a line feed stays behind its slashes. -/
theorem continuation_remark (h : ∀ t ∈ op.pasted, '\n' ∉ t.toList) {r : String} (hr : r ∈ op.remarks) :
    continuation r = [] := by
  refine continuation_of_not_mem ?_
  simp only [pasted, List.forall_mem_cons, List.mem_flatMap] at h
  obtain ⟨hpath, hid, hscopes⟩ := h
  rcases List.mem_append.mp hr with hr | hr
  · have hword : '\n' ∉ op.method.word.toList := by
      cases op.method <;> simp [Method.word]
    rcases List.mem_pair.mp hr with rfl | rfl
    · simpa using hpath
    · simp [hid, hword]
  · obtain ⟨scope, hscope, rfl⟩ := List.mem_map.mp hr
    exact not_mem_scopeRemark fun t ht => hscopes t ⟨scope, hscope, ht⟩

end Operation

/-! ## What stands above the functions of a document -/

namespace Bindings

open Emission Operation

/-- Above the functions of a document stands nothing but comments and marks as long as the path, the id
of the operation, the schemes and the scopes have no line feeds; otherwise all depends on the lines with
which they go on.  A description does no harm. -/
theorem harmless_interlude_iff {doc : Document} {b : Bindings} (h : ofDocument doc = .ok b) :
    List.Forall₂ (fun entry op => FromPath entry op ∧
        (∃ declarations rest, op.text = op.requestHead ++ String.join declarations ++ "\x7d\n" ++
            op.interlude ++ "pub async fn " ++ rest ∧
          List.Forall₂ DeclaresField declarations op.fieldNames) ∧
        (AllHarmless op.interlude ↔ ∀ r ∈ op.remarks, ∀ line ∈ continuation r, Harmless line) ∧
        ((∀ t ∈ op.pasted, '\n' ∉ t.toList) → AllHarmless op.interlude))
      doc.paths.entries b.operations := by
  obtain ⟨scope, _, _, hscope, hops⟩ := operations_of_ofDocument h
  have hpaths := ofDocument_fromPath hops
  rw [(Scope.indexed_of_ofDocument hscope).1] at hpaths
  refine hpaths.imp fun entry op hop => ⟨hop, ?_, allHarmless_interlude, fun hpasted => ?_⟩
  · obtain ⟨declarations, hrequest, hfields⟩ := op.exists_requestText_eq
    obtain ⟨rest, hfunction⟩ := op.exists_functionText_eq
    refine ⟨declarations, rest, ?_, hfields⟩
    rw [Operation.text, hrequest, hfunction, interlude]
    simp only [String.append_assoc]
  · rw [allHarmless_interlude]
    intro r hr line hline
    rw [continuation_remark hpasted hr] at hline
    cases hline

/-! ## A text that leaves its comment

The id of an operation goes on behind a line feed, and so do its path, its scheme and its scope. -/

def leaky : Document where
  paths := Dict.ofList [("/A/\nmod path;\n//", {
    summary := some "A"
    get := some { answering "#/components/schemas/Letter" with
      operationId := some "A\nmod id;\n//"
      description := some "A\nmod description;"
      security := some [Dict.ofList [("scheme\nmod scheme;\n//", ["scope\nmod scope;"])]] } })]
  components.schemas := Dict.ofList [("Letter", { type := some "object" })]

def leakyOperation : Operation where
  name := "A"
  operationId := "A\nmod id;\n//"
  method := .get
  path := "/A/\nmod path;\n//"
  description := some "A\nmod description;"
  deprecated := false
  scopes := [("scheme\nmod scheme;\n//", ["scope\nmod scope;"])]
  params := []
  body := none
  response := .named "Letter"

def leakyBindings : Bindings where
  types := [⟨"Letter", "Letter", none, .openMap, none⟩]
  operations := [leakyOperation]

theorem ofDocument_leaky : ofDocument leaky = .ok leakyBindings :=
  ofDocument_of_unsorted (by decide +kernel) (by decide)

theorem harmless_interlude_iff_leaky : ofDocument leaky = .ok leakyBindings ∧
    (AllHarmless leakyOperation.interlude ↔
      ∀ r ∈ leakyOperation.remarks, ∀ line ∈ continuation r, Harmless line) := by
  have hops := harmless_interlude_iff ofDocument_leaky
  cases hops with
  | cons hop _ => exact ⟨ofDocument_leaky, hop.2.2.1⟩

/-- Above the function stands a line that is no comment. -/
theorem not_allHarmless_leaky : ofDocument leaky = .ok leakyBindings ∧
    ¬ ∀ op ∈ leakyBindings.operations, AllHarmless op.interlude := by
  refine ⟨ofDocument_leaky, fun hall => ?_⟩
  have hleak := hall leakyOperation List.mem_cons_self
  rw [allHarmless_interlude] at hleak
  exact absurd hleak (by decide +kernel)

end Bindings
end Bindery
