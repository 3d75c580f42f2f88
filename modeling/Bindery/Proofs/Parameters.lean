import Bindery.Proofs.Closure

/-! # One operation for each path

The operations of a document are those of its paths, in the order of the paths.  An operation's
parameters are declared for all handlers of its path or for its own handler alone; a parameter is
known by its name and the place where it travels, and of two that are known by the same the
handler's own counts (`Operation.Merged`).  That is what is gathered
(`Operation.ofDocument_merged`). -/

namespace Bindery

open Document Generation

/-- The word by which a document names the place. -/
def ParamLocation.word : ParamLocation → String
  | .path => "path"
  | .query => "query"

/-- What a parameter is known by. -/
def Document.Parameter.key (p : Parameter) : String × String := (p.name, p.location)

def Param.key (q : Param) : String × String := (q.name, q.location.word)

namespace Operation

theorem location?_eq_some_iff {word : String} {location : ParamLocation} :
    location? word = some location ↔ word = location.word := by
  constructor
  · intro h
    unfold location? at h
    split at h
    · cases h
      rfl
    · cases h
      rfl
    · cases h
  · rintro rfl
    cases location <;> rfl

end Operation

namespace Param

variable {p : Parameter} {q : Param}

theorem TakenFrom.key_eq (h : TakenFrom p q) : q.key = p.key := by
  rw [key, Parameter.key, h.name, ← Operation.location?_eq_some_iff.mp h.location]

theorem TakenFrom.required_of_path (h : TakenFrom p q) (hpath : q.location = .path) :
    q.required := by
  rw [h.required, hpath]
  exact Bool.or_true _

end Param

namespace Operation

variable (scope : Scope)

/-- The parameters that are declared for a path and for its handler, without repetition.  Where both
declare one, the handler's description counts. -/
structure Merged (shared own : List Parameter) (params : List Param) : Prop where
  nodup : (params.map Param.key).Nodup
  mem_iff {k : String × String} :
    k ∈ params.map Param.key ↔ k ∈ shared.map Parameter.key ∨ k ∈ own.map Parameter.key
  of_own {p : Parameter} {q : Param} : p ∈ own → q ∈ params → q.key = p.key →
    Param.DescribedBy scope p q
  of_shared {p : Parameter} {q : Param} : p ∈ shared → p.key ∉ own.map Parameter.key →
    q ∈ params → q.key = p.key → Param.DescribedBy scope p q
  ordered : ∃ front back, params = front ++ back ∧
    List.Forall₂ (Param.DescribedBy scope) (shared.filter (·.key ∉ own.map Parameter.key)) front ∧
    List.Forall₂ (Param.DescribedBy scope) own back
  required {q : Param} : q ∈ params → q.location = .path → q.required

variable {scope}

/-- The path's parameters that are left are those with a key that the handler does not declare. -/
theorem parameters_eq (item : PathItem) (handler : Handler) : parameters item handler =
    item.parameters.filter (·.key ∉ handler.parameters.map Parameter.key) ++
      handler.parameters := by
  have hkept (p : Parameter) :
      (!handler.parameters.any fun own => own.name == p.name && own.location == p.location) =
        decide (p.key ∉ handler.parameters.map Parameter.key) := by
    rw [Bool.eq_iff_iff]
    simp [Parameter.key]
  simp only [parameters, hkept]

section Merge

variable {shared own : List Parameter} {params : List Param}

/-- Parameters of the path that the handler does not declare, beside those of the handler, have keys
of their own. -/
theorem nodup_keys_append (hshared : (shared.map Parameter.key).Nodup)
    (hown : (own.map Parameter.key).Nodup) :
    ((shared.filter (·.key ∉ own.map Parameter.key) ++ own).map Parameter.key).Nodup := by
  rw [List.map_append, List.nodup_append]
  refine ⟨hshared.sublist (List.filter_sublist.map _), hown, ?_⟩
  rintro k hk _ hk' rfl
  obtain ⟨p, hp, rfl⟩ := List.mem_map.mp hk
  exact of_decide_eq_true (List.mem_filter.mp hp).2 hk'

theorem map_key_eq {ps : List Parameter} (h : List.Forall₂ (Param.DescribedBy scope) ps params) :
    params.map Param.key = ps.map Parameter.key := by
  rw [eq_comm, ← List.forall₂_eq_eq_eq, List.forall₂_map_left_iff, List.forall₂_map_right_iff]
  exact h.imp fun _ _ hdescribed => hdescribed.key_eq.symm

theorem merged (hshared : (shared.map Parameter.key).Nodup) (hown : (own.map Parameter.key).Nodup)
    (h : List.Forall₂ (Param.DescribedBy scope)
      (shared.filter (·.key ∉ own.map Parameter.key) ++ own) params) :
    Merged scope shared own params := by
  have hkeys := map_key_eq h
  have hnodup := nodup_keys_append hshared hown
  -- No other declaration has the key of a parameter than the one that describes it.
  have hdescribed {p : Parameter} {q : Param}
      (hp : p ∈ shared.filter (·.key ∉ own.map Parameter.key) ++ own) (hq : q ∈ params)
      (hkey : q.key = p.key) : Param.DescribedBy scope p q := by
    obtain ⟨p', hp', hdescribed⟩ := Scope.exists_of_forall₂ h hq
    rwa [List.inj_on_of_nodup_map hnodup hp hp' (hkey.symm.trans hdescribed.key_eq)]
  refine {
    nodup := hkeys ▸ hnodup
    mem_iff := fun {k} => ?_
    of_own := fun hp => hdescribed (List.mem_append_right _ hp)
    of_shared := fun hp hnot =>
      hdescribed (List.mem_append_left _ (List.mem_filter.mpr ⟨hp, decide_eq_true hnot⟩))
    ordered := ?_
    required := fun hq hpath => ?_ }
  · rw [hkeys, List.map_append, List.mem_append]
    constructor
    · exact Or.imp_left fun hk => (List.filter_sublist.map _).subset hk
    · rintro (hk | hk)
      · by_cases hmem : k ∈ own.map Parameter.key
        · exact .inr hmem
        · obtain ⟨p, hp, rfl⟩ := List.mem_map.mp hk
          exact .inl (List.mem_map_of_mem (List.mem_filter.mpr ⟨hp, decide_eq_true hmem⟩))
      · exact .inr hk
  · exact ⟨_, _, (List.take_append_drop _ params).symm,
      (List.forall₂_take_append params _ _ h.flip).flip,
      (List.forall₂_drop_append params _ _ h.flip).flip⟩
  · obtain ⟨p, -, hdescribed⟩ := Scope.exists_of_forall₂ h hq
    exact hdescribed.required_of_path hpath

end Merge

/-- The operation of a path, with its parameters as they are declared. -/
def DeclaredBy (scope : Scope) (entry : String × PathItem) (op : Operation) : Prop :=
  ∃ method handler, handler? entry.2 = some (method, handler) ∧
    TakenFrom entry.1 entry.2 method handler op ∧
    List.Forall₂ (Param.DescribedBy scope) (parameters entry.2 handler) op.params

theorem DeclaredBy.path_eq {entry : String × PathItem} {op : Operation}
    (h : DeclaredBy scope entry op) : op.path = entry.1 := by
  obtain ⟨_, _, -, htaken, -⟩ := h
  exact htaken.path

theorem ofPaths_declaredBy {before ops : List Operation} {paths : List (String × PathItem)}
    {g g' : Generation} (hg : scope.At [] g.resolver)
    (h : Returns (ofPaths scope before paths) g ops g') :
    ∃ new, ops = before ++ new ∧ List.Forall₂ (DeclaredBy scope) paths new := by
  induction paths generalizing before g with
  | nil =>
      simp only [ofPaths, returns_pure] at h
      obtain ⟨rfl, -⟩ := h
      exact ⟨[], by simp, .nil⟩
  | cons entry rest ih =>
      obtain ⟨method, handler, op, g₁, hhandler, hop, -, -, h⟩ := returns_ofPaths_cons.mp h
      obtain ⟨⟨hdescribed, -⟩, hmarks⟩ := ofHandler_yields entry.1 entry.2 method handler g op g₁ hg hop
      obtain ⟨new, rfl, hnew⟩ := ih hmarks.resolver h
      refine ⟨op :: new, by simp, .cons ?_ hnew⟩
      exact ⟨method, handler, hhandler, takenFrom_of_returns hop, hdescribed⟩

/-- The handler that the operation of a path is taken from: that for GET if there is one, else that
for POST. -/
inductive Chosen (item : PathItem) : Method → Handler → Prop
  | get {handler} : item.get = some handler → Chosen item .get handler
  | post {handler} : item.get = none → item.post = some handler → Chosen item .post handler

theorem chosen_of_handler? {item : PathItem} {method : Method} {handler : Handler}
    (h : handler? item = some (method, handler)) : Chosen item method handler := by
  unfold handler? at h
  split at h
  · rename_i hget
    cases h
    exact .get hget
  · rename_i hget hpost
    cases h
    exact .post hget hpost
  · cases h

/-- The operations are those of the paths, one for each, in the order of the paths, taken from the
handlers for GET where there are such.  If neither a path nor its handler repeats a parameter, the
operation has each parameter of either once. -/
theorem ofDocument_merged {g g' : Generation} {ops : List Operation} (hg : scope.At [] g.resolver)
    (h : Returns (ofDocument scope) g ops g') :
    ops.map path = scope.document.paths.keys ∧ (ops.map path).Pairwise (· < ·) ∧
      List.Forall₂ (fun entry op => op.path = entry.1 ∧ ∃ handler,
          Chosen entry.2 op.method handler ∧
            ((entry.2.parameters.map Parameter.key).Nodup →
              (handler.parameters.map Parameter.key).Nodup →
              Merged scope entry.2.parameters handler.parameters op.params))
        scope.document.paths.entries ops := by
  obtain ⟨_, hops, -⟩ := returns_ofDocument.mp h
  obtain ⟨ops, rfl, hdeclared⟩ := ofPaths_declaredBy hg hops
  have hpaths : ops.map path = scope.document.paths.keys := by
    rw [Dict.keys, ← List.forall₂_eq_eq_eq, List.forall₂_map_left_iff, List.forall₂_map_right_iff]
    exact hdeclared.flip.imp fun _ _ hentry => DeclaredBy.path_eq hentry
  refine ⟨hpaths, hpaths ▸ Dict.pairwise_keys _, hdeclared.imp ?_⟩
  rintro entry op ⟨method, handler, hhandler, htaken, hdescribed⟩
  refine ⟨htaken.path, handler, htaken.method ▸ chosen_of_handler? hhandler, fun hshared hown => ?_⟩
  rw [parameters_eq] at hdescribed
  exact merged hshared hown hdescribed

end Operation

/-! ## A feed

The path declares `id` and `page` for all its handlers, and the handler for GET declares `page` again
and `size`. -/

namespace Bindings

def parameter (name location type : String) (required : Bool) : Parameter :=
  { name, location, required, schema := some { type := some type } }

def feedHandler : Handler :=
  { answering "#/components/schemas/Letter" with
    parameters := [parameter "page" "query" "boolean" true, parameter "size" "query" "string" false] }

def feed : PathItem where
  summary := some "Feed"
  get := some feedHandler
  post := some (answering "#/components/schemas/Letter")
  parameters := [parameter "page" "query" "string" false, parameter "id" "path" "string" false]

def gazette : Document where
  paths := Dict.ofList
    [("/Feed/", feed),
     ("/Post/", {
      summary := some "Post", post := some (answering "#/components/schemas/Letter") })]
  components.schemas := Dict.ofList [("Letter", { type := some "object" })]

def feedOperation : Operation where
  name := "Feed"
  operationId := "Feed"
  method := .get
  path := "/Feed/"
  description := none
  deprecated := false
  scopes := []
  params :=
    [⟨"id", "id", .path, .scalar .string, true, false, none⟩,
     ⟨"page", "page", .query, .scalar .bool, true, false, none⟩,
     ⟨"size", "size", .query, .scalar .string, false, false, none⟩]
  body := none
  response := .named "Letter"

def postOperation : Operation where
  name := "Post"
  operationId := "Post"
  method := .post
  path := "/Post/"
  description := none
  deprecated := false
  scopes := []
  params := []
  body := none
  response := .named "Letter"

def gazetteBindings : Bindings where
  types := [⟨"Letter", "Letter", none, .openMap, none⟩]
  operations := [feedOperation, postOperation]

theorem ofDocument_gazette : ofDocument gazette = .ok gazetteBindings :=
  ofDocument_of_unsorted (by decide +kernel) (by decide)

theorem ofDocument_merged_gazette : ∃ scope, Scope.ofDocument gazette = .ok scope ∧
    (∃ journal g', Returns (Operation.ofDocument scope) { journal } gazetteBindings.operations g') ∧
    Operation.Merged scope feed.parameters feedHandler.parameters feedOperation.params := by
  obtain ⟨scope, journal, g', hscope, hops⟩ := operations_of_ofDocument ofDocument_gazette
  refine ⟨scope, hscope, ⟨journal, g', hops⟩, ?_⟩
  obtain ⟨-, -, hmerged⟩ := Operation.ofDocument_merged Scope.At.empty hops
  rw [(Scope.indexed_of_ofDocument hscope).1] at hmerged
  obtain ⟨-, handler, hchosen, hmerged⟩ := (List.forall₂_cons.mp hmerged).1
  cases hchosen with
  | get hget =>
      cases hget
      exact hmerged (by decide) (by decide)

end Bindings
end Bindery
