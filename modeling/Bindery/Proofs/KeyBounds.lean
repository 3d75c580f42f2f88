import Bindery.Proofs.Kinds
import Mathlib.Logic.Relation

/-! # Which structs demand keys of their type variable

A generic struct must demand of its type variable what the keys of a map offer if the variable is such
a key in one of its fields, or if a field hands the variable on to another family that must demand it
(`Bindings.Keyed`).  What is emitted looks at the struct's own fields only
(`Declaration.carriesKeyBound_iff`), so that a family which only hands its variable on demands nothing.
The families that must demand it are those from which one that does is reached by handing the variable
on, and all of them demand it exactly if no family without a demand hands its variable to one with it
(`Bindings.keyed_iff_reaches`). -/

namespace Bindery

open Document Emission Naming Relation

namespace TypeExpr

variable {t c : TypeExpr}

/-- The type variable is the key of a map in the type. -/
def KeyedByParam (t : TypeExpr) : Prop := ∃ value, .map .param value ∈ t.parts

/-- The type variable stands in the argument of the family. -/
def PassesParam (family : String) (t : TypeExpr) : Prop :=
  ∃ arg, .generic family arg ∈ t.parts ∧ .param ∈ arg.parts

theorem keyedByParam_iff : t.KeyedByParam ↔
    (∃ value, t = .map .param value) ∨ ∃ c ∈ t.children, c.KeyedByParam := by
  unfold KeyedByParam
  constructor
  · rintro ⟨value, hmem⟩
    rcases mem_parts_iff.mp hmem with heq | ⟨c, hc, hmem⟩
    · exact .inl ⟨value, heq.symm⟩
    · exact .inr ⟨c, hc, value, hmem⟩
  · rintro (⟨value, rfl⟩ | ⟨c, hc, value, hmem⟩)
    · exact ⟨value, mem_parts_self _⟩
    · exact ⟨value, mem_parts_of_child hc hmem⟩

theorem isParam_iff : t.isParam ↔ t = .param := by
  cases t <;> simp [isParam]

theorem hasParamKey_iff : t.hasParamKey ↔ t.KeyedByParam := by
  induction t using hasParamKey.induct with
  | case1 key value ihk ihv =>
      rw [keyedByParam_iff, hasParamKey]
      simp [children, isParam_iff, ihk, ihv, or_assoc]
  | case2 _ _ ih | case3 _ ih | case4 _ ih =>
      rw [keyedByParam_iff, hasParamKey]
      simp [children, ih]
  | case5 t hmap hgeneric hlist hnullable =>
      rw [keyedByParam_iff]
      cases t <;> simp_all [children, hasParamKey]

end TypeExpr

namespace Declaration

variable {d : Declaration}

def derives : String := "#[derive(Debug, Clone, Default, Serialize, Deserialize)]\n"

/-- The line above the struct's name demands of the type variable what keys must offer. -/
def CarriesKeyBound (d : Declaration) : Prop :=
  ∃ body, d.text = docComment d.description "" ++
    (derives ++ (keyBound ++ ("pub struct " ++ d.ident ++ "<T> \x7b\n" ++ body)))

/-- The declaration is a generic struct, and its type variable is a key in one of the fields. -/
def HasKey (d : Declaration) : Prop :=
  d.shape.isGeneric = true ∧ ∃ t ∈ d.types, t.KeyedByParam

/-- Texts with beginnings of which none begins the other are different. -/
theorem append_ne_append {a b : String} (h : ¬ a.toList <+: b.toList ∧ ¬ b.toList <+: a.toList)
    (x y : String) : a ++ x ≠ b ++ y := by
  intro heq
  have hlist : a.toList ++ x.toList = b.toList ++ y.toList := by
    rw [← String.toList_append, heq, String.toList_append]
  rcases List.prefix_or_prefix_of_prefix (List.prefix_append a.toList x.toList)
      (hlist ▸ List.prefix_append b.toList y.toList) with hab | hba
  · exact h.1 hab
  · exact h.2 hba

/-! ## What is emitted -/

theorem any_hasParamKey_iff {fields : List Field} :
    (fields.any fun f => f.type.hasParamKey) ↔ ∃ t ∈ fields.map Field.type, t.KeyedByParam := by
  simp only [List.any_eq_true, List.mem_map, TypeExpr.hasParamKey_iff, exists_exists_and_eq_and]

/-- The demand stands above the name of a generic struct of which a field has the variable for a key. -/
theorem structHead_eq (ident : String) (generic : Bool) (fields : List Field) :
    structHead ident generic fields =
      if generic && fields.any fun f => f.type.hasParamKey then
        keyBound ++ ("pub struct " ++ ident ++ "<T> \x7b\n")
      else "pub struct " ++ (ident ++ if generic then "<T> \x7b\n" else " \x7b\n") := by
  unfold structHead
  cases generic with
  | false => rw [Bool.false_and, String.append_assoc]; rfl
  | true =>
      rw [Bool.true_and]
      cases fields.any fun f => f.type.hasParamKey with
      | false => simp only [if_true, Bool.false_eq_true, if_false, String.empty_append, String.append_assoc]
      | true => simp only [if_true, String.append_assoc]

theorem structText_eq (ident : String) (generic : Bool) (fields : List Field) :
    structText ident generic fields =
      derives ++ (structHead ident generic fields ++
        (String.join (fields.map fieldText) ++ "\x7d\n")) := by
  unfold structText derives
  rw [String.append_assoc, String.append_assoc]

theorem text_struct {generic : Bool} {fields : List Field} (h : d.shape = .struct generic fields) :
    ∃ rest, d.text =
      docComment d.description "" ++ (derives ++ (structHead d.ident generic fields ++ rest)) := by
  refine ⟨String.join (fields.map fieldText) ++ "\x7d\n" ++
    (d.table.map (tableText d.ident)).getD "", ?_⟩
  rw [text, h]
  simp only [structText_eq, String.append_assoc]

/-- How declarations that are no structs begin. -/
def otherBeginnings : List String :=
  ["pub type ",
   "#[derive(Debug, Clone, Copy, Default, PartialEq, Eq, PartialOrd, Ord, Hash, "]

theorem text_other (h : ∀ generic fields, d.shape ≠ .struct generic fields) :
    ∃ beginning ∈ otherBeginnings, ∃ rest,
      d.text = docComment d.description "" ++ (beginning ++ rest) := by
  rw [text]
  split
  · rename_i hshape
    exact absurd hshape (h _ _)
  · exact ⟨_, List.mem_cons_self, d.ident ++ " = JsonMap;\n", by rw [String.append_assoc]⟩
  · rename_i t _
    exact ⟨_, List.mem_cons_self, d.ident ++ " = " ++ t.text ++ ";\n", by
      simp only [String.append_assoc]⟩
  · rename_i number values _
    refine ⟨_, List.mem_cons_of_mem _ List.mem_cons_self, ?_⟩
    unfold enumText
    simp only [String.append_assoc]
    exact ⟨_, rfl⟩

theorem hasKey_iff {generic : Bool} {fields : List Field} (h : d.shape = .struct generic fields) :
    d.HasKey ↔ generic && fields.any fun f => f.type.hasParamKey := by
  rw [HasKey, types, h, Shape.isGeneric, Shape.types, Bool.and_eq_true, any_hasParamKey_iff]

/-- What is emitted demands keys exactly of the structs with a field of which the type variable is a
key. -/
theorem carriesKeyBound_iff : d.CarriesKeyBound ↔ d.HasKey := by
  by_cases hstruct : ∃ generic fields, d.shape = .struct generic fields
  · obtain ⟨generic, fields, hshape⟩ := hstruct
    obtain ⟨rest, htext⟩ := text_struct hshape
    rw [hasKey_iff hshape, CarriesKeyBound, htext, structHead_eq]
    simp only [String.append_right_inj]
    split
    · rename_i hkey
      obtain ⟨rfl, -⟩ := Bool.and_eq_true_iff.mp hkey
      exact iff_of_true ⟨rest, by simp only [String.append_assoc]⟩ hkey
    · rename_i hkey
      refine iff_of_false ?_ hkey
      rintro ⟨body, heq⟩
      rw [String.append_assoc] at heq
      exact append_ne_append (by decide) _ _ heq
  · simp only [not_exists] at hstruct
    obtain ⟨beginning, hmem, rest, htext⟩ := text_other hstruct
    have hbegin : ∀ s ∈ otherBeginnings,
        ¬ s.toList <+: derives.toList ∧ ¬ derives.toList <+: s.toList := by decide
    refine iff_of_false ?_ ?_
    · rintro ⟨body, heq⟩
      rw [htext, String.append_right_inj] at heq
      exact append_ne_append (hbegin _ hmem) _ _ heq
    · rintro ⟨hgeneric, -⟩
      obtain ⟨fields, hshape⟩ := Bindings.exists_fields_of_isGeneric hgeneric
      exact hstruct _ _ hshape

end Declaration

namespace Bindings

variable (b : Bindings)

/-- A family that is declared as `d` hands its type variable on to another one. -/
def HandsOn (i j : String) : Prop :=
  ∃ d ∈ b.types, d.ident = i ∧ d.shape.isGeneric = true ∧ ∃ t ∈ d.types, t.PassesParam j

/-- The least set of families that holds those of which the type variable is the key of a map, and
those that hand their variable on to one in the set. -/
inductive Keyed : String → Prop
  | key {d : Declaration} : d ∈ b.types → d.HasKey → Keyed d.ident
  | handsOn {i j : String} : b.HandsOn i j → Keyed j → Keyed i

variable {b} {i : String}

/-- Families that must demand keys are those from which one that does demand them is reached. -/
theorem keyed_iff : b.Keyed i ↔
    ∃ d ∈ b.types, d.CarriesKeyBound ∧ ReflTransGen b.HandsOn i d.ident := by
  constructor
  · intro h
    induction h with
    | key hd hkey => exact ⟨_, hd, Declaration.carriesKeyBound_iff.mpr hkey, .refl⟩
    | handsOn hij _ ih =>
        obtain ⟨d, hd, hbound, hreach⟩ := ih
        exact ⟨d, hd, hbound, .head hij hreach⟩
  · rintro ⟨d, hd, hbound, hreach⟩
    induction hreach using ReflTransGen.head_induction_on with
    | refl => exact .key hd (Declaration.carriesKeyBound_iff.mp hbound)
    | head hij _ ih => exact .handsOn hij ih

theorem Keyed.exists_declaration (h : b.Keyed i) : ∃ d ∈ b.types, d.ident = i := by
  cases h with
  | key hd _ => exact ⟨_, hd, rfl⟩
  | handsOn hij _ =>
      obtain ⟨d, hd, hident, -⟩ := hij
      exact ⟨d, hd, hident⟩

/-- Where names are declared once, the demand reaches all families that must make it as soon as no
family hands its variable on without making the demand itself. -/
theorem Keyed.carriesKeyBound (h : b.Keyed i) (hnodup : (b.types.map Declaration.ident).Nodup)
    (hstep : ∀ d ∈ b.types, ∀ d' ∈ b.types, d'.CarriesKeyBound → b.HandsOn d.ident d'.ident →
      d.CarriesKeyBound) {d : Declaration} (hd : d ∈ b.types) (hident : d.ident = i) :
    d.CarriesKeyBound := by
  induction h generalizing d with
  | key hd' hkey =>
      obtain rfl := List.inj_on_of_nodup_map hnodup hd hd' hident
      exact Declaration.carriesKeyBound_iff.mpr hkey
  | handsOn hij hkeyed ih =>
      obtain ⟨d', hd', rfl⟩ := hkeyed.exists_declaration
      exact hstep d hd d' hd' (ih hd' rfl) (hident ▸ hij)

/-- Of the families that must demand keys of their type variable those do so of which the variable is
a key in a field of their own; the others hand the variable on, in one or more steps, to one that does.
So all of them do exactly if none hands the variable on to one that does without doing so itself. -/
theorem keyed_iff_reaches {doc : Document} {b : Bindings} (h : ofDocument doc = .ok b) :
    (∀ d ∈ b.types, (d.CarriesKeyBound ↔ d.HasKey)) ∧
      (∀ i, b.Keyed i ↔
        ∃ d ∈ b.types, d.CarriesKeyBound ∧ ReflTransGen b.HandsOn i d.ident) ∧
      ((∀ d ∈ b.types, b.Keyed d.ident → d.CarriesKeyBound) ↔
        ∀ d ∈ b.types, ∀ d' ∈ b.types, d'.CarriesKeyBound → b.HandsOn d.ident d'.ident →
          d.CarriesKeyBound) := by
  obtain ⟨scope, -, hmade⟩ := madeFrom_of_ofDocument h
  refine ⟨fun d _ => Declaration.carriesKeyBound_iff, fun i => keyed_iff, ?_, ?_⟩
  · intro hall d hd d' hd' hbound hij
    exact hall d hd (.handsOn hij (.key hd' (Declaration.carriesKeyBound_iff.mp hbound)))
  · exact fun hstep d hd hkeyed => hkeyed.carriesKeyBound hmade.idents_nodup hstep hd rfl

/-! ## A set inside a set

The inner set is a map from the type variable, and the outer one holds an inner one. -/

/-- A map from the keys of 64 bits. -/
def quotedKeys : Schema where
  type := some "object"
  dictionaryKey := some { type := some "integer", format := some "int64" }
  additional := some (.schema { type := some "string" })

def satchel : Document where
  paths := Dict.ofList [("/A/", {
    summary := some "A"
    get := some (answering "#/components/schemas/BaseItemComponentSetOfint64") })]
  components.schemas := Dict.ofList
    [("BaseItemComponentSetOfint64", {
      type := some "object"
      properties := [("inner", { reference := some "#/components/schemas/ItemComponentSetOfint64" })] }),
     ("ItemComponentSetOfint64", {
      type := some "object", properties := [("instances", quotedKeys)] })]

def outerSet : Declaration where
  ident := "BaseItemComponentSet"
  schema := "BaseItemComponentSetOfint64"
  description := none
  shape := .struct true [⟨"inner", "inner", .generic "ItemComponentSet" .param, none⟩]
  table := none

def innerSet : Declaration where
  ident := "ItemComponentSet"
  schema := "ItemComponentSetOfint64"
  description := none
  shape := .struct true [⟨"instances", "instances", .map .param (.scalar .string), none⟩]
  table := none

def satchelBindings : Bindings where
  types := [outerSet, innerSet]
  operations :=
    [{ name := "A"
       operationId := "A"
       method := .get
       path := "/A/"
       description := none
       deprecated := false
       scopes := []
       params := []
       body := none
       response := .generic "BaseItemComponentSet" (.scalar .i64) }]

theorem ofDocument_satchel : ofDocument satchel = .ok satchelBindings :=
  ofDocument_of_unsorted (by decide +kernel) (by decide)

theorem keyed_innerSet : satchelBindings.Keyed innerSet.ident :=
  .key (List.mem_cons_of_mem _ List.mem_cons_self)
    ⟨rfl, _, List.mem_singleton_self _, _, TypeExpr.mem_parts_self _⟩

theorem keyed_outerSet : satchelBindings.Keyed outerSet.ident :=
  .handsOn ⟨outerSet, List.mem_cons_self, rfl, rfl, _, List.mem_singleton_self _, .param,
    TypeExpr.mem_parts_self _, List.mem_singleton_self _⟩ keyed_innerSet

/-- The outer set must demand keys and does not. -/
theorem not_carriesKeyBound_satchel : ofDocument satchel = .ok satchelBindings ∧
    ¬ ∀ d ∈ satchelBindings.types, satchelBindings.Keyed d.ident → d.CarriesKeyBound := by
  refine ⟨ofDocument_satchel, fun hall => ?_⟩
  have hbound := hall outerSet List.mem_cons_self keyed_outerSet
  rw [Declaration.carriesKeyBound_iff, Declaration.hasKey_iff rfl] at hbound
  exact absurd hbound (by decide)

/-- The outer set is reached from the demand of the inner one. -/
theorem keyed_iff_reaches_satchel : ofDocument satchel = .ok satchelBindings ∧
    ∃ d ∈ satchelBindings.types, d.CarriesKeyBound ∧
      ReflTransGen satchelBindings.HandsOn outerSet.ident d.ident :=
  ⟨ofDocument_satchel, ((keyed_iff_reaches ofDocument_satchel).2.1 _).mp keyed_outerSet⟩

end Bindings
end Bindery
