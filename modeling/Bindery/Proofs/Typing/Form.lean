import Bindery.Proofs.Dictionary
import Bindery.Proofs.Steps

/-! # The forms of schemas

What the resolver does with a schema depends on one of five forms that the schema has: it points
elsewhere, wraps one reference, is a dictionary or an array of further schemas, or is a leaf.
`Schema.form` finds the form, and `typeWith_eq` says what the resolver does in each.  References
and arguments of family members have forms of their own, with `followWith_eq` and
`memberParamWith_eq`. -/

namespace Bindery

namespace Document

/-- A schema whose type is built from no other. -/
inductive Leaf where
  /-- A key into the table of the given record type. -/
  | key (target : String)
  | anyObject
  | enumeration (reference : String)
  | scalar
  | refused (detail : String)

/-- What the resolver does with a schema.  The definition that is mapped to keys or elements
goes along with them. -/
inductive Form where
  /-- Another schema stands for this one, also where this one can be null. -/
  | pointer (reference : String)
  | alternative (reference : String)
  | dictionary (keys values : Schema) (mapped : Option String)
  | array (items : Schema) (mapped : Option String)
  | leaf (l : Leaf)

namespace Schema

/-- The leaf that a schema is, if it has neither keys nor elements nor references. -/
def leaf (s : Schema) : Leaf :=
  if s.hasType "object" then
    if s.properties.isEmpty then .anyObject else .refused "inline object with properties"
  else match s.enumReference with
    | some reference => .enumeration reference
    | none => .scalar

/-- The form of a schema to which a definition can be mapped from outside. -/
def form (s : Schema) (outer : Option String) : Form :=
  match s.reference with
  | some reference => .pointer reference
  | none =>
    let mapped := s.mappedDefinition <|> outer
    match s.dictionaryKey, s.additional with
    | some keys, some (.schema values) => .dictionary keys values mapped
    | some _, _ => .leaf (.refused "dictionary without a value schema")
    | none, _ =>
      if s.hasType "array" then
        match s.items with
        | some items => .array items mapped
        | none => .leaf (.refused "array without items")
      else match mapped, s.singleAllOf? with
        | some target, _ => .leaf (.key target)
        | none, some reference => .alternative reference
        | none, none => .leaf s.leaf

/-- The type of a schema that can be null, given the type of its other values. -/
def wrap (s : Schema) (t : TypeExpr) : TypeExpr := if s.nullable then .nullable t else t

/-- Where the type argument of the member that a schema declares comes from. -/
inductive ArgumentForm where
  | suffix (rest : String)
  | part (s : Schema) (context : String)
  | refused (detail : String)

/-- The form of the argument of the member that is declared under the given name. -/
def argumentForm (name : String) (s : Schema) : ArgumentForm :=
  match Family.ofMember? (Naming.typeName name) with
  | none => .refused "not a generic family member"
  | some (family, rest) =>
    match family.source with
    | .suffix => .suffix rest
    | .resultsElement =>
      match (s.property? "results").bind Schema.items with
      | some items => .part items (name ++ ".results")
      | none => .refused "search result without a results array"
    | .dataProperty =>
      match s.property? "data" with
      | some data => .part data (name ++ ".data")
      | none => .refused "component response without data"

theorem sizeOf_le_wrap (s : Schema) (t : TypeExpr) : sizeOf t ≤ sizeOf (s.wrap t) := by
  unfold wrap
  split <;> simp

theorem sizeOf_lt_of_form_dictionary {s keys values : Schema} {outer mapped : Option String}
    (h : s.form outer = .dictionary keys values mapped) :
    sizeOf keys < sizeOf s ∧ sizeOf values < sizeOf s := by
  simp only [form] at h
  split at h
  · cases h
  · split at h
    · rename_i hkey hadd
      cases h
      exact ⟨sizeOf_dictionaryKey_lt hkey, sizeOf_additional_lt hadd⟩
    · cases h
    · split at h
      · split at h <;> cases h
      · split at h <;> cases h

theorem sizeOf_lt_of_form_array {s items : Schema} {outer mapped : Option String}
    (h : s.form outer = .array items mapped) : sizeOf items < sizeOf s := by
  simp only [form] at h
  split at h
  · cases h
  · split at h
    · cases h
    · cases h
    · split at h
      · split at h
        · rename_i hitems
          cases h
          exact sizeOf_items_lt hitems
        · cases h
      · split at h <;> cases h

end Schema
end Document

namespace Scope

open Document

variable (scope : Scope)

/-- The type of a leaf. -/
def leafType (s : Schema) (context : String) : Leaf → Except GenerationError TypeExpr
  | .key target => .hashRef <$> scope.declaredIdent target
  | .anyObject => .ok .json
  | .enumeration reference =>
    (if s.enumIsBitmask then .bitmask else .named) <$> scope.declaredIdent reference
  | .scalar => scalarType s context
  | .refused detail => .error (.unsupportedSchema context detail)

/-- The type of a dictionary's keys, given the types of references. -/
def keyType (follow : String → ResolveM TypeExpr) (keys : Schema) (mapped : Option String)
    (context : String) : ResolveM TypeExpr :=
  match keys.enumReference with
  | some reference => liftExcept (scope.enumKey reference)
  | none => scope.typeWith follow keys mapped context

theorem typeWith_eq (follow : String → ResolveM TypeExpr) (s : Schema) (outer : Option String)
    (context : String) : scope.typeWith follow s outer context =
      match s.form outer with
      | .pointer reference => follow reference
      | .alternative reference => s.wrap <$> follow reference
      | .dictionary keys values mapped => do
        let k ← scope.keyType follow keys mapped (context ++ " key")
        let v ← scope.typeWith follow values none (context ++ " value")
        return s.wrap (.map k v)
      | .array items mapped =>
        (fun t => s.wrap (.list t)) <$> scope.typeWith follow items mapped context
      | .leaf l => s.wrap <$> liftExcept (scope.leafType s context l) := by
  rw [typeWith, Schema.form]
  cases s.reference with
  | some reference => rfl
  | none =>
    dsimp only
    split
    · rename_i keys hkeys
      split
      · rename_i values hvalues
        rw [hkeys, hvalues]
        dsimp only [keyType]
        cases keys.enumReference <;> simp [Schema.wrap]
      · rename_i hvalues
        rw [hkeys]
        rcases hadd : s.additional with _ | b | values
        · rfl
        · rfl
        · exact absurd hadd (hvalues values)
    · rename_i hkeys
      rw [hkeys]
      dsimp only
      split
      · split
        · rename_i items hitems
          rw [hitems]
          simp only [Schema.wrap, map_eq_pure_bind, bind_assoc, pure_bind]
        · rename_i hitems
          rw [hitems]
          rfl
      · cases s.mappedDefinition <|> outer with
        | some target =>
            dsimp only [leafType]
            cases scope.declaredIdent target <;> rfl
        | none =>
            cases s.singleAllOf? with
            | some reference => rfl
            | none =>
                dsimp only [Schema.leaf]
                by_cases hobject : s.hasType "object"
                · rw [if_pos hobject, if_pos hobject]
                  by_cases hempty : s.properties.isEmpty
                  · rw [if_pos hempty, if_pos hempty]
                    rfl
                  · rw [if_neg hempty, if_neg hempty]
                    rfl
                · rw [if_neg hobject, if_neg hobject]
                  cases s.enumReference with
                  | some reference =>
                      dsimp only [leafType]
                      cases scope.declaredIdent reference <;> cases s.enumIsBitmask <;> rfl
                  | none =>
                      dsimp only [leafType]
                      cases scalarType s context <;> rfl

theorem memberParamWith_eq (follow : String → ResolveM TypeExpr) (name : String) (s : Schema) :
    scope.memberParamWith follow name s =
      match s.argumentForm name with
      | .suffix rest => liftExcept (scope.suffixParam rest)
      | .part p context => scope.typeWith follow p none context
      | .refused detail => unsupported name detail := by
  unfold memberParamWith Schema.argumentForm
  cases Family.ofMember? (Naming.typeName name) with
  | none => rfl
  | some member =>
    obtain ⟨family, rest⟩ := member
    dsimp only
    cases family.source with
    | suffix => rfl
    | resultsElement => cases (s.property? "results").bind Schema.items <;> rfl
    | dataProperty => cases s.property? "data" <;> rfl

/-- What a reference points to. -/
inductive Target where
  | missing
  | declared (ident : String)
  /-- A member of the family of the given name. -/
  | member (name : String) (s : Schema) (family : String)

def target (reference : String) : Target :=
  match scope.document.schema? reference with
  | none => .missing
  | some (name, s) =>
    match Family.ofMember? (Naming.typeName name) with
    | none => .declared (Naming.typeName name)
    | some (family, _) => .member name s family.name

/-- The instance that the member of a family stands for, given the arguments of members. -/
def instanceWith (param : String → Schema → ResolveM TypeExpr) (name : String) (s : Schema)
    (family : String) : ResolveM TypeExpr := do
  let r ← get
  match r.instances.find? name with
  | some t => return t
  | none =>
    if r.inProgress.contains name then
      unsupported name "generic instantiation refers to itself"
    else
      let arg ← within name (param name s)
      modify fun r => { r with instances := r.instances.insert name (.generic family arg) }
      return .generic family arg

theorem followWith_eq (param : String → Schema → ResolveM TypeExpr) (reference : String) :
    scope.followWith param reference =
      match scope.target reference with
      | .missing => throw (.unresolvedReference reference)
      | .declared ident => pure (.named ident)
      | .member name s family => instanceWith param name s family := by
  unfold followWith target instanceWith
  cases scope.document.schema? reference with
  | none => rfl
  | some found =>
    obtain ⟨name, s⟩ := found
    dsimp only
    cases Family.ofMember? (Naming.typeName name) <;> rfl

theorem find?_of_schema?_eq_some {doc : Document} {reference name : String} {s : Schema}
    (h : doc.schema? reference = some (name, s)) : doc.components.schemas.find? name = some s := by
  obtain ⟨s', hs, heq⟩ := Option.map_eq_some_iff.mp h
  obtain ⟨rfl, rfl⟩ := Prod.mk.inj heq
  exact hs

theorem target_eq_member {reference name family : String} {s : Schema}
    (h : scope.target reference = .member name s family) :
    scope.document.components.schemas.find? name = some s ∧
      ∃ f rest, Family.ofMember? (Naming.typeName name) = some (f, rest) ∧ f.name = family := by
  unfold target at h
  split at h
  · cases h
  · rename_i hfound
    split at h
    · cases h
    · rename_i f rest hf
      cases h
      exact ⟨find?_of_schema?_eq_some hfound, f, rest, hf, rfl⟩

theorem target_of_ofMember? {reference name rest : String} {s : Schema} {f : Family}
    (hs : scope.document.schema? reference = some (name, s))
    (hf : Family.ofMember? (Naming.typeName name) = some (f, rest)) :
    scope.target reference = .member name s f.name := by
  rw [target, hs]
  dsimp only
  rw [hf]

theorem target_eq_declared {reference ident : String}
    (h : scope.target reference = .declared ident) :
    ∃ name ∈ scope.document.components.schemas.keys, Naming.typeName name = ident := by
  unfold target at h
  split at h
  · cases h
  · rename_i name s hfound
    split at h
    · exact ⟨name, Dict.mem_keys_of_find? (find?_of_schema?_eq_some hfound), Target.declared.inj h⟩
    · cases h

/-- The place that errors name plays no part in a scalar's type. -/
theorem scalarType_eq_ok {s : Schema} {context context' : String} {t : TypeExpr}
    (h : scalarType s context = .ok t) : scalarType s context' = .ok t := by
  dsimp only [scalarType, scalarType.refused] at h ⊢
  split at h
  · exact h
  · exact h
  · exact h
  · split at h
    · exact h
    · cases h
  · split at h
    · rename_i henum
      rw [if_pos henum]
      exact h
    · cases h

theorem leafType_eq_ok {s : Schema} {context context' : String} {l : Leaf} {t : TypeExpr}
    (h : scope.leafType s context l = .ok t) : scope.leafType s context' l = .ok t := by
  cases l with
  | key | anyObject | enumeration => exact h
  | scalar => exact scalarType_eq_ok h
  | refused => cases h

end Scope
end Bindery
