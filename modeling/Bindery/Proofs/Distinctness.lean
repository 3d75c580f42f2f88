import Bindery.Proofs.Closure
import Mathlib.Data.List.Nodup

/-! # No name is declared twice

A module declares types under the names of schemas and families, and a request struct and a
function for each operation.  Type names never end in the word that the names of request structs
end in (`Naming.not_suffix_typeName`), and operations are refused that take the name or the
function of an earlier one (`Operation.ofDocument_nodup`).  So all names that a module declares are
distinct (`Bindings.nodup_declaredNames`). -/

namespace Bindery

open Document Naming Text

namespace Naming

theorem dropSuffix?_isSome_iff {s cs : List Char} :
    (dropSuffix? s cs).isSome ↔ s <:+ cs := by
  rw [dropSuffix?, Option.isSome_map, Option.isSome_iff_exists]
  constructor
  · rintro ⟨rest, h⟩
    have hcs := congrArg List.reverse (dropPrefix?_eq_some_iff.mp h)
    exact ⟨rest.reverse, by simpa using hcs.symm⟩
  · rintro ⟨rest, rfl⟩
    exact ⟨rest.reverse, dropPrefix?_eq_some_iff.mpr (by simp)⟩

/-- What ends in the word for requests gets another ending, and no other text ends in it. -/
theorem not_suffix_requestFree (cs : List Char) : ¬ "Request".toList <:+ requestFree cs := by
  unfold requestFree
  split
  · rintro ⟨rest, h⟩
    have hlast := congrArg List.getLast? h
    simp at hlast
  · rename_i hnot
    rwa [dropSuffix?_isSome_iff] at hnot

theorem not_suffix_typeName (reference : String) :
    ¬ "Request".toList <:+ (typeName reference).toList := by
  have hchars : (typeName reference).toList = typeNameChars reference.toList :=
    String.toList_ofList
  rw [hchars, typeNameChars]
  exact not_suffix_requestFree _

end Naming

theorem Family.not_suffix_name {f : Family} (h : f ∈ Family.all) :
    ¬ "Request".toList <:+ f.name.toList := by
  revert f
  decide

theorem Scope.Declares.not_suffix_ident {scope : Scope} {d : Declaration} (h : scope.Declares d) :
    ¬ "Request".toList <:+ d.ident.toList := by
  cases h with
  | schema h => exact h.typeName ▸ not_suffix_typeName d.schema
  | family h =>
      obtain ⟨hf, hname⟩ := Family.ofName?_eq_some_iff.mp h.ofName?
      exact hname ▸ Family.not_suffix_name hf

namespace Operation

theorem suffix_requestName (op : Operation) : "Request".toList <:+ op.requestName.toList := by
  rw [requestName, String.toList_append]
  exact List.suffix_append _ _

theorem requestName_inj {op op' : Operation} (h : op.requestName = op'.requestName) :
    op.name = op'.name := by
  have hlist := congrArg String.toList h
  rw [requestName, requestName, String.toList_append, String.toList_append] at hlist
  exact String.toList_inj.mp (List.append_cancel_right hlist)

/-- A value that no earlier element has is new. -/
theorem nodup_map_concat {α β : Type} [DecidableEq β] {f : α → β} {l : List α} {a : α}
    (h : (l.map f).Nodup) (hnew : ¬ l.any (fun x => f x == f a)) :
    ((l ++ [a]).map f).Nodup := by
  rw [List.map_append, List.nodup_append]
  refine ⟨h, List.nodup_singleton _, fun b hb c hc heq => ?_⟩
  obtain ⟨x, hx, rfl⟩ := List.mem_map.mp hb
  rw [List.map_singleton, List.mem_singleton] at hc
  exact hnew (List.any_eq_true.mpr ⟨x, hx, by simp [heq, hc]⟩)

variable {scope : Scope}

theorem ofPaths_nodup {before ops : List Operation} {paths : List (String × PathItem)}
    {g g' : Generation} (hnames : (before.map name).Nodup)
    (hfunctions : (before.map functionName).Nodup)
    (h : Returns (ofPaths scope before paths) g ops g') :
    (ops.map name).Nodup ∧ (ops.map functionName).Nodup := by
  induction paths generalizing before g with
  | nil =>
      simp only [ofPaths, returns_pure] at h
      obtain ⟨rfl, -⟩ := h
      exact ⟨hnames, hfunctions⟩
  | cons entry rest ih =>
      obtain ⟨_, _, op, g₁, -, -, hname, hfunction, h⟩ := returns_ofPaths_cons.mp h
      exact ih (nodup_map_concat hnames hname) (nodup_map_concat hfunctions hfunction) h

theorem ofDocument_nodup {g g' : Generation} {ops : List Operation}
    (h : Returns (ofDocument scope) g ops g') :
    (ops.map name).Nodup ∧ (ops.map functionName).Nodup := by
  obtain ⟨_, hops, -⟩ := returns_ofDocument.mp h
  refine ofPaths_nodup ?_ ?_ hops
  · exact List.nodup_nil
  · exact List.nodup_nil

end Operation

namespace Bindings

/-- The names of the declared types and of the request structs. -/
def typeNames (b : Bindings) : List String :=
  b.types.map Declaration.ident ++ b.operations.map Operation.requestName

theorem operations_nodup {doc : Document} {b : Bindings} (h : ofDocument doc = .ok b) :
    (b.operations.map Operation.name).Nodup ∧ (b.operations.map Operation.functionName).Nodup := by
  obtain ⟨scope, _, _, -, hops⟩ := operations_of_ofDocument h
  exact Operation.ofDocument_nodup hops

/-- The names of the types that a module declares, request structs among them, are distinct, and
so are the names of its functions. -/
theorem nodup_declaredNames {doc : Document} {b : Bindings} (h : ofDocument doc = .ok b) :
    b.typeNames.Nodup ∧ (b.operations.map Operation.functionName).Nodup := by
  obtain ⟨scope, -, hmade⟩ := madeFrom_of_ofDocument h
  obtain ⟨hnames, hfunctions⟩ := operations_nodup h
  refine ⟨List.nodup_append.mpr ⟨hmade.idents_nodup, ?_, ?_⟩, hfunctions⟩
  · rw [List.nodup_map_iff_inj_on (List.Nodup.of_map _ hnames)]
    intro op hop op' hop' heq
    exact List.inj_on_of_nodup_map hnames hop hop' (Operation.requestName_inj heq)
  · rintro i hi _ hop rfl
    obtain ⟨d, hd, rfl⟩ := List.mem_map.mp hi
    obtain ⟨op, -, heq⟩ := List.mem_map.mp hop
    exact (hmade.declares hd).not_suffix_ident (heq ▸ op.suffix_requestName)

/-! ## A request beside its body

The operation `Send` takes a schema whose own name is that of the operation's request struct. -/

def letterSchema : Schema where
  type := some "object"
  properties := [("Text", { type := some "string" })]

def mailbox : Document where
  paths := Dict.ofList [("/Send/", {
    summary := some "Send"
    post := some { answering "#/components/schemas/Mail.SendRequest" with
      requestBody := some {
        required := true
        content := Dict.ofList [("application/json", {
          schema := some { reference := some "#/components/schemas/Mail.SendRequest" } })] } } })]
  components.schemas := Dict.ofList [("Mail.SendRequest", letterSchema)]

def mailboxBindings : Bindings where
  types :=
    [{ ident := "SendRequestBody"
       schema := "Mail.SendRequest"
       description := none
       shape := .struct false [⟨"Text", "text", .scalar .string, none⟩]
       table := none }]
  operations :=
    [{ name := "Send"
       operationId := "Send"
       method := .post
       path := "/Send/"
       description := none
       deprecated := false
       scopes := []
       params := []
       body := some ⟨.named "SendRequestBody", true⟩
       response := .named "SendRequestBody" }]

theorem ofDocument_mailbox : ofDocument mailbox = .ok mailboxBindings :=
  ofDocument_of_unsorted (by decide +kernel) (by decide)

theorem nodup_declaredNames_mailbox : ofDocument mailbox = .ok mailboxBindings ∧
    ["SendRequestBody", "SendRequest"].Nodup ∧
    (mailboxBindings.operations.map Operation.functionName).Nodup :=
  ⟨ofDocument_mailbox, nodup_declaredNames ofDocument_mailbox⟩

end Bindings
end Bindery
