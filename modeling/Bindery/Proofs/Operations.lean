import Bindery.Bindings
import Bindery.Proofs.Steps
import Mathlib.Data.List.Forall2

/-! # Operations and the handlers that they are taken from

Where the operations of a document can be made, each path has one, in the order of the paths
(`Operation.ofDocument_fromPath`).  All of it but the types is taken from the path and its handler
as it stands there (`Operation.TakenFrom`, `Param.TakenFrom`). -/

namespace Bindery

open Document Generation

theorem forall₂_of_returns_mapM {ε σ α β : Type} {step : α → ExceptT ε (StateM σ) β}
    {P : α → β → Prop} {l : List α} (h : ∀ a ∈ l, ∀ s b s', Returns (step a) s b s' → P a b)
    {bs : List β} {s s' : σ} (hret : Returns (l.mapM step) s bs s') : List.Forall₂ P l bs := by
  induction l generalizing s bs with
  | nil =>
      simp only [List.mapM_nil, returns_pure] at hret
      obtain ⟨rfl, -⟩ := hret
      exact .nil
  | cons a l ih =>
      simp only [List.mapM_cons, returns_bind, returns_pure] at hret
      obtain ⟨b, t, hb, bs, t', hbs, rfl, rfl⟩ := hret
      refine .cons (h a List.mem_cons_self s b t hb) (ih (fun a ha => ?_) hbs)
      exact h a (List.mem_cons_of_mem _ ha)

/-- What a parameter takes over from its description in the document. -/
structure Param.TakenFrom (p : Parameter) (q : Param) : Prop where
  name : q.name = p.name
  field : q.field = Naming.identifier p.name
  location : Operation.location? p.location = some q.location
  required : q.required = (p.required || q.location == .path)
  isArray : q.isArray = q.type.isList
  description : q.description = p.description

namespace Operation

/-- What an operation takes over from its path and the handler of the path. -/
structure TakenFrom (path : String) (item : PathItem) (method : Method) (handler : Handler)
    (op : Operation) : Prop where
  name : name? item handler = some op.name
  operationId : op.operationId = handler.operationId.getD op.name
  method : op.method = method
  path : op.path = path
  description : op.description = (handler.description <|> item.description)
  deprecated : op.deprecated = handler.deprecated
  scopes : op.scopes = (handler.security.getD []).flatMap Dict.entries
  params : List.Forall₂ Param.TakenFrom (parameters item handler) op.params
  body : op.body.map Body.required = handler.requestBody.map RequestBody.required

/-- The operation is that of the path. -/
def FromPath (entry : String × PathItem) (op : Operation) : Prop :=
  ∃ method handler, handler? entry.2 = some (method, handler) ∧
    TakenFrom entry.1 entry.2 method handler op

variable {scope : Scope} {g g' : Generation} {op : Operation}

/-! ## How operations are made -/

theorem returns_paramOf {operation : String} {p : Parameter} {q : Param} :
    Returns (paramOf scope operation p) g q g' ↔ ∃ location s type,
      location? p.location = some location ∧ p.schema = some s ∧
      Returns (resolveWanted scope s (operation ++ "." ++ p.name)) g type g' ∧
      q = {
        name := p.name
        field := Naming.identifier p.name
        location, type
        required := p.required || location == .path
        isArray := type.isList
        description := p.description } := by
  unfold paramOf
  cases location? p.location with
  | none => simp
  | some location =>
    cases p.schema with
    | none => simp
    | some s => simp [eq_comm]

theorem returns_bodyOf {operation : String} {b : RequestBody} {body : Body} :
    Returns (bodyOf scope operation b) g body g' ↔ ∃ s type,
      jsonSchema? b.content = some s ∧
      Returns (resolveWanted scope s (operation ++ " body")) g type g' ∧
      body = ⟨type, b.required⟩ := by
  unfold bodyOf
  cases jsonSchema? b.content with
  | none => simp
  | some s => simp [eq_comm]

theorem returns_ofHandler {path : String} {item : PathItem} {method : Method} {handler : Handler} :
    Returns (ofHandler scope path item method handler) g op g' ↔
      ∃ name payload params g₁ body g₂ response,
        name? item handler = some name ∧ payload? scope.document handler = some payload ∧
        Returns ((parameters item handler).mapM (paramOf scope name)) g params g₁ ∧
        Returns (handler.requestBody.mapM (bodyOf scope name)) g₁ body g₂ ∧
        Returns (resolveWanted scope payload (name ++ " response")) g₂ response g' ∧
        op = {
          name, method, path, params, body, response
          operationId := handler.operationId.getD name
          description := handler.description <|> item.description
          deprecated := handler.deprecated
          scopes := (handler.security.getD []).flatMap Dict.entries } := by
  unfold ofHandler
  cases name? item handler with
  | none => simp
  | some name =>
    cases payload? scope.document handler with
    | none => simp
    | some payload => simp [eq_comm]

theorem returns_ofPaths_cons {before ops : List Operation} {entry : String × PathItem}
    {rest : List (String × PathItem)} :
    Returns (ofPaths scope before (entry :: rest)) g ops g' ↔
      ∃ method handler op g₁, handler? entry.2 = some (method, handler) ∧
        Returns (ofHandler scope entry.1 entry.2 method handler) g op g₁ ∧
        ¬ before.any (·.name == op.name) ∧ ¬ before.any (·.functionName == op.functionName) ∧
        Returns (ofPaths scope (before ++ [op]) rest) g₁ ops g' := by
  obtain ⟨path, item⟩ := entry
  cases hhandler : handler? item with
  | none => simp [ofPaths, hhandler]
  | some found =>
    obtain ⟨method, handler⟩ := found
    simp only [ofPaths, hhandler, returns_bind]
    constructor
    · rintro ⟨op, g₁, hop, h⟩
      obtain ⟨hname, h⟩ := returns_check.mp h
      obtain ⟨hfunction, h⟩ := returns_check.mp h
      exact ⟨method, handler, op, g₁, rfl, hop, hname, hfunction, h⟩
    · rintro ⟨_, _, op, g₁, heq, hop, hname, hfunction, h⟩
      cases heq
      exact ⟨op, g₁, hop, returns_check.mpr ⟨hname, returns_check.mpr ⟨hfunction, h⟩⟩⟩

theorem returns_ofDocument {ops : List Operation} :
    Returns (ofDocument scope) g ops g' ↔ ∃ g₁,
      Returns (ofPaths scope [] scope.document.paths.entries) g ops g₁ ∧
        Returns (note .debug operationPart "Normalized operations.") g₁ ⟨⟩ g' := by
  simp only [ofDocument, returns_bind, returns_pure]
  constructor
  · rintro ⟨_, g₁, hops, ⟨⟩, _, hnote, rfl, rfl⟩
    exact ⟨g₁, hops, hnote⟩
  · rintro ⟨g₁, hops, hnote⟩
    exact ⟨ops, g₁, hops, ⟨⟩, g', hnote, rfl, rfl⟩

/-! ## What they are taken from -/

theorem takenFrom_of_returns_paramOf {operation : String} {p : Parameter} {q : Param}
    (h : Returns (paramOf scope operation p) g q g') : Param.TakenFrom p q := by
  obtain ⟨location, s, type, hlocation, -, -, rfl⟩ := returns_paramOf.mp h
  -- The identifier must not be unfolded here.
  exact ⟨rfl, by dsimp only, hlocation, rfl, rfl, rfl⟩

theorem required_of_returns_bodyOf {operation : String} {b : Option RequestBody}
    {body : Option Body} (h : Returns (b.mapM (bodyOf scope operation)) g body g') :
    body.map Body.required = b.map RequestBody.required := by
  cases b with
  | none =>
      simp only [Option.mapM_none, returns_pure] at h
      obtain ⟨rfl, -⟩ := h
      rfl
  | some b =>
      simp only [Option.mapM_some, returns_map] at h
      obtain ⟨body, h, rfl⟩ := h
      obtain ⟨s, type, -, -, rfl⟩ := returns_bodyOf.mp h
      rfl

theorem takenFrom_of_returns {path : String} {item : PathItem} {method : Method}
    {handler : Handler} (h : Returns (ofHandler scope path item method handler) g op g') :
    TakenFrom path item method handler op := by
  obtain ⟨name, payload, params, g₁, body, g₂, response, hname, -, hparams, hbody, -, rfl⟩ :=
    returns_ofHandler.mp h
  refine ⟨hname, rfl, rfl, rfl, rfl, rfl, rfl, ?_, required_of_returns_bodyOf hbody⟩
  exact forall₂_of_returns_mapM (fun _ _ _ _ _ => takenFrom_of_returns_paramOf) hparams

theorem ofPaths_fromPath {before ops : List Operation} {paths : List (String × PathItem)}
    (h : Returns (ofPaths scope before paths) g ops g') :
    ∃ new, ops = before ++ new ∧ List.Forall₂ FromPath paths new := by
  induction paths generalizing before g with
  | nil =>
      simp only [ofPaths, returns_pure] at h
      obtain ⟨rfl, -⟩ := h
      exact ⟨[], by simp, .nil⟩
  | cons entry rest ih =>
      obtain ⟨method, handler, op, g₁, hhandler, hop, -, -, h⟩ := returns_ofPaths_cons.mp h
      obtain ⟨new, rfl, hnew⟩ := ih h
      refine ⟨op :: new, by simp, .cons ?_ hnew⟩
      exact ⟨method, handler, hhandler, takenFrom_of_returns hop⟩

/-- The paths of a document have one operation each. -/
theorem ofDocument_fromPath {ops : List Operation} (h : Returns (ofDocument scope) g ops g') :
    List.Forall₂ FromPath scope.document.paths.entries ops := by
  obtain ⟨_, hops, -⟩ := returns_ofDocument.mp h
  obtain ⟨new, rfl, hnew⟩ := ofPaths_fromPath hops
  exact hnew

end Operation

namespace Bindings

variable {doc : Document} {b : Bindings}

/-- Bindings are gathered in a scope of the document, with nothing found and nothing wanted yet. -/
theorem gather_of_ofDocument (h : ofDocument doc = .ok b) :
    ∃ scope journal g', Scope.ofDocument doc = .ok scope ∧
      Returns (gather scope) { journal } b g' := by
  unfold ofDocument run at h
  cases hscope : Scope.ofDocument doc with
  | error e => rw [hscope] at h; cases h
  | ok scope =>
      rw [hscope] at h
      exact ⟨scope, _, _, rfl, h, rfl⟩

theorem operations_of_ofDocument (h : ofDocument doc = .ok b) :
    ∃ scope journal g', Scope.ofDocument doc = .ok scope ∧
      Returns (Operation.ofDocument scope) { journal } b.operations g' := by
  obtain ⟨scope, journal, g', hscope, hgather⟩ := gather_of_ofDocument h
  simp only [gather, returns_bind, returns_pure] at hgather
  obtain ⟨ops, g₁, hops, _, _, -, _, _, -, rfl, -⟩ := hgather
  exact ⟨scope, journal, g₁, hscope, hops⟩

end Bindings
end Bindery
