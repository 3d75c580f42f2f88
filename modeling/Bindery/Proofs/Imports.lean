import Bindery.Proofs.Distinctness
import Bindery.Proofs.Naming

/-! # Which names of a module are imported

A declared type never has an imported name (`Scope.Declares.not_imported`).  The names that are made
for an operation are not looked up among the imported ones: its request struct has one of them
exactly if the operation is called `Client`, and its function exactly if the operation is called `fmt`
or `join_array` in snake case (`Bindings.imported_iff`). -/

namespace Bindery

open Document Naming

namespace Naming

/-- An imported name that an identifier can be is lower-case. -/
theorem eq_of_identifier_imported {name : String}
    (h : identifier name ∈ Emission.importedNames) :
    identifier name = "fmt" ∨ identifier name = "join_array" := by
  have hplain : ∀ word ∈ Emission.importedNames, unescape word.toList = word.toList := by
    decide +kernel
  have hlower : ∀ word ∈ Emission.importedNames,
      word.toList.all (fun c => isWordChar c || c == '_') → word = "fmt" ∨ word = "join_array" := by
    decide +kernel
  refine hlower _ h (List.all_eq_true.mpr fun c hc => ?_)
  rw [← hplain _ h, unescape_identifier] at hc
  rcases words_snakeCase name with hnil | hwords
  · rw [hnil] at hc
    cases hc
  · simpa using hwords.mem hc

theorem identifier_imported_iff {name : String} : identifier name ∈ Emission.importedNames ↔
    snakeCase name = "fmt" ∨ snakeCase name = "join_array" := by
  have hfmt : identifier "fmt" = "fmt" ∧ snakeCase "fmt" = "fmt" := by decide +kernel
  have hjoin : identifier "join_array" = "join_array" ∧ snakeCase "join_array" = "join_array" := by
    decide +kernel
  rw [← identifier_eq_word_iff hfmt, ← identifier_eq_word_iff hjoin]
  constructor
  · exact eq_of_identifier_imported
  · rintro (h | h)
    · rw [h]
      decide
    · rw [h]
      decide

end Naming

namespace Operation

theorem requestName_imported_iff {op : Operation} :
    op.requestName ∈ Emission.importedNames ↔ op.name = "Client" := by
  have hsuffix : ∀ word ∈ Emission.importedNames,
      "Request".toList <:+ word.toList → word = "ClientRequest" := by
    decide +kernel
  constructor
  · intro h
    have heq := hsuffix _ h op.suffix_requestName
    exact @requestName_inj op { op with name := "Client" } heq
  · intro h
    rw [requestName, h]
    decide

theorem functionName_imported_iff {op : Operation} :
    op.functionName ∈ Emission.importedNames ↔
      snakeCase op.name = "fmt" ∨ snakeCase op.name = "join_array" := by
  rw [functionName, identifier_snakeCase, identifier_imported_iff]

end Operation

namespace Bindings

/-- No declared type of a module has an imported name.  A request struct has one exactly if its
operation is called `Client`, and a function exactly if its operation is called `fmt` or
`join_array` in snake case. -/
theorem imported_iff {doc : Document} {b : Bindings} (h : ofDocument doc = .ok b) :
    (∀ d ∈ b.types, d.ident ∉ Emission.importedNames) ∧
      ∀ op ∈ b.operations,
        (op.requestName ∈ Emission.importedNames ↔ op.name = "Client") ∧
          (op.functionName ∈ Emission.importedNames ↔
            snakeCase op.name = "fmt" ∨ snakeCase op.name = "join_array") := by
  obtain ⟨scope, hscope, hmade⟩ := madeFrom_of_ofDocument h
  have hnames := Scope.indexable_of_ofDocument hscope
  obtain ⟨rfl, hindexed⟩ := Scope.indexed_of_ofDocument hscope
  constructor
  · exact fun d hd => (hmade.declares hd).not_imported hindexed hnames
  · exact fun op _ => ⟨Operation.requestName_imported_iff, Operation.functionName_imported_iff⟩

/-! ## Operations that are called like what is imported -/

def wicket : Document where
  paths := Dict.ofList
    [("/Client/", {
      summary := some "Client", get := some (answering "#/components/schemas/Letter") }),
     ("/Join/", {
      summary := some "JoinArray", get := some (answering "#/components/schemas/Letter") })]
  components.schemas := Dict.ofList [("Letter", { type := some "object" })]

def wicketOperation (name path : String) : Operation where
  name
  operationId := name
  method := .get
  path
  description := none
  deprecated := false
  scopes := []
  params := []
  body := none
  response := .named "Letter"

def wicketBindings : Bindings where
  types := [⟨"Letter", "Letter", none, .openMap, none⟩]
  operations := [wicketOperation "Client" "/Client/", wicketOperation "JoinArray" "/Join/"]

theorem ofDocument_wicket : ofDocument wicket = .ok wicketBindings :=
  ofDocument_of_unsorted (by decide +kernel) (by decide)

theorem imported_iff_wicket : ofDocument wicket = .ok wicketBindings ∧
    (∀ d ∈ wicketBindings.types, d.ident ∉ Emission.importedNames) ∧
      ∀ op ∈ wicketBindings.operations,
        (op.requestName ∈ Emission.importedNames ↔ op.name = "Client") ∧
          (op.functionName ∈ Emission.importedNames ↔
            snakeCase op.name = "fmt" ∨ snakeCase op.name = "join_array") :=
  ⟨ofDocument_wicket, imported_iff ofDocument_wicket⟩

/-- The module declares `ClientRequest` and `join_array` beside the imported ones. -/
theorem not_unimported_wicket : ofDocument wicket = .ok wicketBindings ∧
    (¬ ∀ op ∈ wicketBindings.operations, op.requestName ∉ Emission.importedNames) ∧
      ¬ ∀ op ∈ wicketBindings.operations, op.functionName ∉ Emission.importedNames :=
  ⟨ofDocument_wicket, by decide +kernel, by decide +kernel⟩

end Bindings
end Bindery
