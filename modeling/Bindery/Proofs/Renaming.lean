import Bindery.Proofs.Closure
import Bindery.Proofs.Documents
import Bindery.Proofs.Identifiers

/-! # The fields of a struct

Each property of a schema becomes a field.  A field takes the identifier of its property's name, and
as long as an earlier field has that name it gets another underscore (`Renamed`).  That ends, since
more names are tried than there are fields (`renamed_freshName`), and each round keeps what makes a
good name (`Renamed.isFieldName`).  So the fields of a schema whose properties have types are made,
one for each property, under identifiers that are distinct even without the marks of raw names
(`Declaration.exists_fields`).  The properties stand in the order of their names, as they do in every
document that is read (`Document.ordered_of_ofJson`). -/

namespace Bindery

open Document Naming

/-! ## Renaming -/

namespace Declaration

/-- As long as a name is taken, the next one tried is that name with an underscore behind it. -/
inductive Renamed (taken : List String) : String → String → Prop
  | free {name} : name ∉ taken → Renamed taken name name
  | again {name result} : name ∈ taken → Renamed taken (name ++ "_") result →
      Renamed taken name result

namespace Renamed

variable {taken : List String} {name result : String}

theorem not_mem (h : Renamed taken name result) : result ∉ taken := by
  induction h with
  | free hfree => exact hfree
  | again _ _ ih => exact ih

theorem isFieldName (h : Renamed taken name result) (hname : IsFieldName name) :
    IsFieldName result := by
  induction h with
  | free _ => exact hname
  | again _ _ ih => exact ih hname.append_underscore

end Renamed

/-- The name with underscores behind it. -/
def candidate (name : String) (n : Nat) : String := name ++ String.ofList (List.replicate n '_')

theorem candidate_zero (name : String) : candidate name 0 = name := String.append_empty

theorem candidate_succ (name : String) (n : Nat) :
    candidate name (n + 1) = candidate (name ++ "_") n := by
  rw [candidate, candidate, String.append_assoc, List.replicate_succ, ← List.singleton_append,
    String.ofList_append]

theorem candidate_inj {name : String} {m n : Nat} (h : candidate name m = candidate name n) :
    m = n := by
  have hlength := congrArg String.length h
  simpa [candidate, String.length_append] using hlength

/-- More names are tried than are taken. -/
theorem exists_candidate_not_mem (taken : List String) (name : String) :
    ∃ n ≤ taken.length, candidate name n ∉ taken := by
  by_contra hall
  have hsubset : (List.range (taken.length + 1)).map (candidate name) ⊆ taken := by
    intro c hc
    obtain ⟨n, hn, rfl⟩ := List.mem_map.mp hc
    by_contra hnot
    exact hall ⟨n, Nat.le_of_lt_succ (List.mem_range.mp hn), hnot⟩
  have hnodup : ((List.range (taken.length + 1)).map (candidate name)).Nodup :=
    List.nodup_range.map fun _ _ => candidate_inj
  have hle := hnodup.length_le_of_subset hsubset
  rw [List.length_map, List.length_range] at hle
  exact absurd hle (Nat.not_succ_le_self _)

/-- The first name that is not taken is the one that is found. -/
theorem renamed_candidate {taken : List String} {name : String} {n : Nat}
    (hfree : candidate name n ∉ taken) (htaken : ∀ m < n, candidate name m ∈ taken) :
    Renamed taken name (candidate name n) := by
  induction n generalizing name with
  | zero =>
      rw [candidate_zero] at hfree ⊢
      exact .free hfree
  | succ n ih =>
      have hzero := htaken 0 (Nat.succ_pos n)
      rw [candidate_zero] at hzero
      rw [candidate_succ] at hfree ⊢
      refine .again hzero (ih hfree fun m hm => ?_)
      rw [← candidate_succ]
      exact htaken (m + 1) (Nat.succ_lt_succ hm)

theorem renamed_freshName (taken : List String) (name : String) :
    Renamed taken name (freshName taken name) := by
  obtain ⟨n, hn, hfree⟩ := exists_candidate_not_mem taken name
  unfold freshName
  show Renamed taken name (candidate name
    (((List.range (taken.length + 1)).find? fun n => !taken.contains (candidate name n)).getD 0))
  cases hfind : (List.range (taken.length + 1)).find? fun n => !taken.contains (candidate name n) with
  | none =>
      have hnone := List.find?_eq_none.mp hfind n (List.mem_range.mpr (Nat.lt_succ_of_le hn))
      exact absurd (by simpa using hfree) hnone
  | some m =>
      obtain ⟨hfree, -, hbefore⟩ := List.find?_range_eq_some.mp hfind
      refine renamed_candidate (by simpa using hfree) fun k hk => ?_
      simpa using hbefore k hk

/-! ## One field after the other -/

/-- The properties of the given names become fields of the given names, each renamed until no
field before it has its name. -/
inductive Renames : List String → List String → List String → Prop
  | nil {taken} : Renames taken [] []
  | cons {taken wire wires name names} : Renamed taken (identifier wire) name →
      Renames (name :: taken) wires names → Renames taken (wire :: wires) (name :: names)

theorem renames_fieldNames (taken wires : List String) :
    Renames taken wires (fieldNames taken wires) := by
  induction wires generalizing taken with
  | nil => exact .nil
  | cons wire wires ih => exact .cons (renamed_freshName taken _) (ih _)

namespace Renames

variable {taken wires names : List String}

theorem length_eq (h : Renames taken wires names) : wires.length = names.length := by
  induction h with
  | nil => rfl
  | cons _ _ ih => rw [List.length_cons, List.length_cons, ih]

theorem isFieldName (h : Renames taken wires names) : ∀ name ∈ names, IsFieldName name := by
  induction h with
  | nil => simp
  | cons hname _ ih =>
      exact List.forall_mem_cons.mpr ⟨hname.isFieldName (isFieldName_identifier _), ih⟩

theorem not_mem (h : Renames taken wires names) : ∀ name ∈ names, name ∉ taken := by
  induction h with
  | nil => simp
  | cons hname _ ih =>
      refine List.forall_mem_cons.mpr ⟨hname.not_mem, fun name hmem htaken => ?_⟩
      exact ih name hmem (List.mem_cons_of_mem _ htaken)

theorem nodup (h : Renames taken wires names) : names.Nodup := by
  induction h with
  | nil => exact List.nodup_nil
  | cons _ hrest ih =>
      exact List.nodup_cons.mpr ⟨fun hmem => hrest.not_mem _ hmem List.mem_cons_self, ih⟩

/-- Without their marks the names are distinct still. -/
theorem nodup_withoutMark (h : Renames taken wires names) : (names.map withoutMark).Nodup :=
  (List.nodup_map_iff_inj_on h.nodup).mpr fun name hname name' hname' heq =>
    (h.isFieldName name hname).eq_of_withoutMark_eq (h.isFieldName name' hname') heq

end Renames
end Declaration

/-! ## Fields -/

namespace Declaration

open Generation

/-- The fields are those of the properties of a schema, in the order of their names on the wire,
under names that can be declared beside one another. -/
structure FieldsOf (s : Schema) (fs : List Field) : Prop where
  wireNames : fs.map Field.wireName = s.properties.map Prod.fst
  ordered : (fs.map Field.wireName).Pairwise (· < ·)
  isIdentifier {f : Field} : f ∈ fs → IsIdentifier f.name
  isRaw {f : Field} : f ∈ fs → withoutMark f.name ∈ keywords → Naming.isRaw f.name
  nodup : (fs.map Field.name).Nodup
  nodup_withoutMark : ((fs.map Field.name).map withoutMark).Nodup
  renames : Renames [] (fs.map Field.wireName) (fs.map Field.name)

variable (scope : Scope)

/-- The types of a schema's properties, asked for one after the other. -/
def propertyTypes (name : String) (s : Schema) : GenerationM (List TypeExpr) :=
  s.properties.mapM fun p => resolving (scope.resolve p.2 (name ++ "." ++ p.1))

/-- The type of a field.  The argument of a family's member, where given, becomes the variable. -/
def fieldType (arg : Option TypeExpr) (t : TypeExpr) : TypeExpr :=
  arg.elim t (t.substitute · .param)

def fieldOf (name : String) (arg : Option TypeExpr) (p : (String × Schema) × String) :
    GenerationM Field := do
  let t ← resolving (scope.resolve p.1.2 (name ++ "." ++ p.1.1))
  require (fieldType arg t)
  return ⟨p.1.1, p.2, fieldType arg t, p.1.2.description⟩

theorem fields_eq (name : String) (s : Schema) (arg : Option TypeExpr) :
    fields scope name s arg =
      (s.properties.zip (fieldNames [] (s.properties.map Prod.fst))).mapM
        (fieldOf scope name arg) := by
  cases arg <;> rfl

variable {scope}

/-- Making a field asks for nothing but the type of its property. -/
theorem returns_fieldOf {name : String} {p : String × Schema} {g g₀ g₁ : Generation}
    {t : TypeExpr} (hg : g₀.resolver = g.resolver)
    (h : Returns (resolving (scope.resolve p.2 (name ++ "." ++ p.1))) g t g₁)
    (arg : Option TypeExpr) (fieldName : String) :
    ∃ g', Returns (fieldOf scope name arg (p, fieldName)) g₀
      ⟨p.1, fieldName, fieldType arg t, p.2.description⟩ g' ∧ g'.resolver = g₁.resolver := by
  obtain ⟨hok, rfl⟩ := returns_resolving.mp h
  rw [← hg] at hok ⊢
  simp only [fieldOf, returns_bind, returns_pure]
  exact ⟨_, ⟨t, _, returns_resolving.mpr ⟨hok, rfl⟩, ⟨⟩, _, returns_modify.mpr rfl, rfl, rfl⟩, rfl⟩

/-- Where the properties have types, fields of any names are made of them. -/
theorem exists_returns_mapM_fieldOf {name : String} {arg : Option TypeExpr}
    {props : List (String × Schema)} {names : List String} {g g₀ g₁ : Generation}
    {ts : List TypeExpr} (hlength : props.length = names.length) (hg : g₀.resolver = g.resolver)
    (h : Returns (props.mapM fun p => resolving (scope.resolve p.2 (name ++ "." ++ p.1))) g ts g₁) :
    ∃ fs g', Returns ((props.zip names).mapM (fieldOf scope name arg)) g₀ fs g' ∧
      fs.map Field.wireName = props.map Prod.fst ∧ fs.map Field.name = names ∧
      fs.map Field.type = ts.map (fieldType arg) := by
  induction props generalizing names g g₀ ts with
  | nil =>
      obtain rfl := List.length_eq_zero_iff.mp hlength.symm
      simp only [List.mapM_nil, returns_pure] at h
      obtain ⟨rfl, -⟩ := h
      exact ⟨[], g₀, by simp, rfl, rfl, rfl⟩
  | cons p props ih =>
      obtain ⟨fieldName, names, rfl⟩ := List.exists_cons_of_length_eq_add_one hlength.symm
      simp only [List.mapM_cons, returns_bind, returns_pure] at h
      obtain ⟨t, g₂, ht, ts, g₃, hts, rfl, rfl⟩ := h
      obtain ⟨g₄, hfield, hresolver⟩ := returns_fieldOf hg ht arg fieldName
      obtain ⟨fs, g', hfs, hwires, hnames, htypes⟩ := ih (Nat.succ.inj hlength) hresolver hts
      refine ⟨⟨p.1, fieldName, fieldType arg t, p.2.description⟩ :: fs, g', ?_,
        congrArg (p.1 :: ·) hwires, congrArg (fieldName :: ·) hnames,
        congrArg (fieldType arg t :: ·) htypes⟩
      simp only [List.zip_cons_cons, List.mapM_cons, returns_bind, returns_pure]
      exact ⟨_, g₄, hfield, fs, g', hfs, rfl, rfl⟩

/-- Where the properties of a schema have types, its fields are made, be it for a struct of its own
or for that of its family: one for each property, in the order of the names on the wire, each under
an identifier, a raw one where the name is a word of the language, and no two under one, even
without the marks of raw names.  Each name is the first
that renaming finds free. -/
theorem exists_fields {name : String} {s : Schema} {g g₁ : Generation} {ts : List TypeExpr}
    (hs : s.Ordered) (h : Returns (propertyTypes scope name s) g ts g₁) (arg : Option TypeExpr) :
    ∃ fs g', Returns (fields scope name s arg) g fs g' ∧
      FieldsOf s fs ∧ fs.map Field.type = ts.map (fieldType arg) := by
  have hrenames := renames_fieldNames [] (s.properties.map Prod.fst)
  have hlength : s.properties.length = (fieldNames [] (s.properties.map Prod.fst)).length := by
    rw [← hrenames.length_eq, List.length_map]
  obtain ⟨fs, g', hfs, hwires, hnames, htypes⟩ := exists_returns_mapM_fieldOf hlength rfl h
  rw [← fields_eq] at hfs
  rw [← hnames, ← hwires] at hrenames
  have hidentifier {f : Field} (hf : f ∈ fs) : IsIdentifier f.name :=
    (hrenames.isFieldName _ (List.mem_map_of_mem hf)).isIdentifier
  refine ⟨fs, g', hfs, ?_, htypes⟩
  exact {
    wireNames := hwires
    ordered := hwires ▸ List.pairwise_map.mpr hs
    isIdentifier := hidentifier
    isRaw := fun hf => (hidentifier hf).isRaw_of_mem_keywords
    nodup := hrenames.nodup
    nodup_withoutMark := hrenames.nodup_withoutMark
    renames := hrenames }

/-! ## Properties that ask for one name

In this ledger two properties are the same in snake case, and so are the keywords among them. -/

def ledger : Schema where
  properties :=
    ["", "1st", "Self", "Type", "item-id", "itemId", "self", "type"].map (·, { type := some "boolean" })

def ledgerTypes : List TypeExpr := List.replicate 8 (.scalar .bool)

theorem exists_fields_ledger :
    ledger.Ordered ∧ (∃ g₁, Returns (propertyTypes ⟨{}, {}⟩ "Ledger" ledger) {} ledgerTypes g₁) ∧
      ∃ fs g', Returns (fields ⟨{}, {}⟩ "Ledger" ledger none) {} fs g' ∧
        FieldsOf ledger fs ∧ fs.map Field.type = ledgerTypes.map (fieldType none) := by
  have hordered : ledger.Ordered := by
    unfold Schema.Ordered
    decide
  have htypes : ∃ g₁, Returns (propertyTypes ⟨{}, {}⟩ "Ledger" ledger) {} ledgerTypes g₁ :=
    ⟨_, Bindings.eq_ok_of_toOption (by decide +kernel), rfl⟩
  obtain ⟨g₁, hg₁⟩ := htypes
  exact ⟨hordered, ⟨g₁, hg₁⟩, exists_fields hordered hg₁ none⟩

example : fieldNames [] (ledger.properties.map Prod.fst) =
    ["_empty", "_1st", "self_", "r#type", "item_id", "item_id_", "self__", "r#type_"] := by
  decide +kernel

end Declaration
end Bindery
