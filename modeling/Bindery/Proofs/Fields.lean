import Bindery.Proofs.Closure
import Bindery.Proofs.Naming

/-! # The fields of a request

The struct of a request declares a field for each parameter and one for the body
(`Operation.exists_requestText_eq`).  The body's field makes way for a parameter whose field is
`body`; nothing else makes way.  So the fields are distinct exactly if the parameters differ in snake
case and do not take both of the body's names (`Operation.fieldNames_nodup_iff`). -/

namespace Bindery

open Document Naming

namespace Operation

/-- The fields of the parameters, then that of the body. -/
def fieldNames (op : Operation) : List String :=
  op.params.map Param.field ++ (op.body.map fun _ => op.bodyField).toList

/-! ## Fields in the text of a request -/

def requestHead (op : Operation) : String :=
  "/// Parameters of [`" ++ op.functionName ++ "`].\n" ++
    "#[derive(Debug, Clone, Default)]\n" ++
    "pub struct " ++ op.requestName ++ " \x7b\n"

/-- The lines of a struct that declare a public field. -/
def DeclaresField (lines field : String) : Prop :=
  ∃ comment type, lines = comment ++ "    pub " ++ field ++ ": " ++ type ++ ",\n"

theorem declaresField_param (p : Param) : DeclaresField p.fieldText p.field :=
  ⟨docComment p.description "    ", p.fieldType, rfl⟩

theorem declaresField_body (b : Body) (field : String) :
    DeclaresField (b.fieldText field) field := by
  refine ⟨"", if b.required then b.type.text else "Option<" ++ b.type.text ++ ">", ?_⟩
  rw [String.empty_append]
  rfl

/-- A request struct declares its fields and nothing else. -/
theorem exists_requestText_eq (op : Operation) : ∃ declarations,
    op.requestText = op.requestHead ++ String.join declarations ++ "\x7d\n" ∧
      List.Forall₂ DeclaresField declarations op.fieldNames := by
  refine ⟨op.params.map Param.fieldText ++ (op.body.map (·.fieldText op.bodyField)).toList,
    ?_, List.rel_append ?_ ?_⟩
  · have hbody : String.join (op.body.map (·.fieldText op.bodyField)).toList =
        (op.body.map (·.fieldText op.bodyField)).getD "" := by
      cases op.body with
      | none => rfl
      | some b => rw [Option.map_some, Option.toList_some, String.join_cons, String.join_nil,
          String.append_empty, Option.getD_some]
    rw [String.join_append, hbody, ← String.append_assoc]
    rfl
  · rw [List.forall₂_map_left_iff, List.forall₂_map_right_iff, List.forall₂_same]
    exact fun p _ => declaresField_param p
  · cases op.body with
    | none => exact .nil
    | some b => exact .cons (declaresField_body b _) .nil

/-! ## When fields are distinct -/

/-- The body's field is that of a parameter only where parameters have both of its names. -/
theorem bodyField_mem_iff {op : Operation} : op.bodyField ∈ op.params.map Param.field ↔
    "body" ∈ op.params.map Param.field ∧ "request_body" ∈ op.params.map Param.field := by
  have hany : (op.params.any fun p => p.field == "body") ↔ "body" ∈ op.params.map Param.field := by
    simp
  unfold bodyField
  by_cases h : "body" ∈ op.params.map Param.field
  · rw [if_pos (hany.mpr h)]
    exact ⟨fun hmem => ⟨h, hmem⟩, And.right⟩
  · rw [if_neg (hany.not.mpr h)]
    exact ⟨fun hmem => absurd hmem h, fun hmem => absurd hmem.1 h⟩

theorem nodup_fieldNames {op : Operation} : op.fieldNames.Nodup ↔
    (op.params.map Param.field).Nodup ∧ (op.body.isSome →
      "body" ∈ op.params.map Param.field → "request_body" ∉ op.params.map Param.field) := by
  unfold fieldNames
  cases op.body with
  | none => simp
  | some b =>
      have hconcat : (op.params.map Param.field ++ [op.bodyField]).Nodup ↔
          (op.params.map Param.field).Nodup ∧ op.bodyField ∉ op.params.map Param.field := by
        rw [List.nodup_append_comm, List.singleton_append, List.nodup_cons, and_comm]
      simp only [Option.map_some, Option.toList_some, Option.isSome_some, true_imp_iff]
      rw [hconcat, bodyField_mem_iff, not_and]

/-- The wire names of a path's parameters in snake case. -/
def words (item : PathItem) (handler : Handler) : List String :=
  (parameters item handler).map fun p => snakeCase p.name

/-- The parameters of a path differ in snake case, and beside a body they have at most one of the
names that the body can have. -/
structure Separate (item : PathItem) (handler : Handler) : Prop where
  nodup : (words item handler).Nodup
  body : handler.requestBody.isSome → "body" ∈ words item handler →
    "request_body" ∉ words item handler

variable {path : String} {item : PathItem} {method : Method} {handler : Handler} {op : Operation}

theorem TakenFrom.fields_eq (h : TakenFrom path item method handler op) :
    op.params.map Param.field = (parameters item handler).map fun p => identifier p.name := by
  rw [eq_comm, ← List.forall₂_eq_eq_eq, List.forall₂_map_left_iff, List.forall₂_map_right_iff]
  exact h.params.imp fun _ _ htaken => htaken.field.symm

theorem TakenFrom.isSome_body (h : TakenFrom path item method handler op) :
    op.body.isSome = handler.requestBody.isSome := by
  have hbody := congrArg Option.isSome h.body
  rwa [Option.isSome_map, Option.isSome_map] at hbody

theorem TakenFrom.mem_fields_iff (h : TakenFrom path item method handler op) {word : String}
    (hword : identifier word = word ∧ snakeCase word = word) :
    word ∈ op.params.map Param.field ↔ word ∈ words item handler := by
  rw [h.fields_eq, words]
  simp only [List.mem_map, identifier_eq_word_iff hword]

theorem TakenFrom.nodup_iff (h : TakenFrom path item method handler op) :
    op.fieldNames.Nodup ↔ Separate item handler := by
  have hnodup : (op.params.map Param.field).Nodup ↔ (words item handler).Nodup := by
    simp only [h.fields_eq, words, List.nodup_iff_pairwise_ne, List.pairwise_map, ne_eq,
      identifier_eq_iff]
  rw [nodup_fieldNames, hnodup, h.isSome_body, h.mem_fields_iff (by decide +kernel),
    h.mem_fields_iff (by decide +kernel)]
  exact ⟨fun ⟨hparams, hbody⟩ => ⟨hparams, hbody⟩, fun ⟨hparams, hbody⟩ => ⟨hparams, hbody⟩⟩

/-- Where the operations of a document can be made, those of separate parameters are the ones
without a repeated field. -/
theorem fieldNames_nodup_iff {scope : Scope} {g g' : Generation} {ops : List Operation}
    (h : Returns (ofDocument scope) g ops g') :
    List.Forall₂ (fun entry op => ∃ method handler, handler? entry.2 = some (method, handler) ∧
        (op.fieldNames.Nodup ↔ Separate entry.2 handler))
      scope.document.paths.entries ops := by
  refine (ofDocument_fromPath h).imp ?_
  rintro entry op ⟨method, handler, hhandler, htaken⟩
  exact ⟨method, handler, hhandler, htaken.nodup_iff⟩

end Operation

/-! ## Two names for one field

`Send` has a parameter called like its body; the parameters of `Find` are the same in snake case. -/

namespace Bindings

def query (name : String) : Parameter :=
  { name, location := "query", schema := some { type := some "string" } }

def register : Document where
  paths := Dict.ofList
    [("/Find/", {
      summary := some "Find"
      get := some { answering "#/components/schemas/Letter" with
        parameters := [query "itemId", query "item-id"] } }),
     ("/Send/", {
      summary := some "Send"
      post := some { answering "#/components/schemas/Letter" with
        parameters := [query "body"]
        requestBody := some {
          required := true
          content := Dict.ofList [("application/json", {
            schema := some { reference := some "#/components/schemas/Letter" } })] } } })]
  components.schemas := Dict.ofList [("Letter", { type := some "object" })]

def findOperation : Operation where
  name := "Find"
  operationId := "Find"
  method := .get
  path := "/Find/"
  description := none
  deprecated := false
  scopes := []
  params :=
    [⟨"itemId", "item_id", .query, .scalar .string, false, false, none⟩,
     ⟨"item-id", "item_id", .query, .scalar .string, false, false, none⟩]
  body := none
  response := .named "Letter"

def sendOperation : Operation where
  name := "Send"
  operationId := "Send"
  method := .post
  path := "/Send/"
  description := none
  deprecated := false
  scopes := []
  params := [⟨"body", "body", .query, .scalar .string, false, false, none⟩]
  body := some ⟨.named "Letter", true⟩
  response := .named "Letter"

def registerBindings : Bindings where
  types := [⟨"Letter", "Letter", none, .openMap, none⟩]
  operations := [findOperation, sendOperation]

theorem ofDocument_register : ofDocument register = .ok registerBindings :=
  ofDocument_of_unsorted (by decide +kernel) (by decide)

theorem fieldNames_nodup_iff_register :
    ofDocument register = .ok registerBindings ∧
      List.Forall₂ (fun entry op => ∃ method handler,
          Operation.handler? entry.2 = some (method, handler) ∧
            (op.fieldNames.Nodup ↔ Operation.Separate entry.2 handler))
        register.paths.entries registerBindings.operations := by
  obtain ⟨scope, _, _, hscope, hops⟩ := operations_of_ofDocument ofDocument_register
  have hnodup := Operation.fieldNames_nodup_iff hops
  rw [(Scope.indexed_of_ofDocument hscope).1] at hnodup
  exact ⟨ofDocument_register, hnodup⟩

/-- The request of `Find` has one field twice. -/
theorem not_nodup_fieldNames_register : ∃ scope g g',
    Scope.ofDocument register = .ok scope ∧
      Returns (Operation.ofDocument scope) g registerBindings.operations g' ∧
      ¬ ∀ op ∈ registerBindings.operations, op.fieldNames.Nodup := by
  obtain ⟨scope, journal, g', hscope, hops⟩ := operations_of_ofDocument ofDocument_register
  refine ⟨scope, { journal }, g', hscope, hops, fun hnodup => ?_⟩
  have hfind := hnodup findOperation List.mem_cons_self
  exact absurd hfind (by decide)

end Bindings
end Bindery
