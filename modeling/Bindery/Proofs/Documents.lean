import Bindery.Document
import Bindery.Proofs.Json.Decoding

/-! # Documents that are read

A structure is read field by field, so what each field keeps holds of the structure that comes of it
(`Json.Decoder.reads_struct`).  The properties of a schema are read as a dictionary, and whatever else
is read of a schema leaves them alone: in a document that is read the properties of each named schema
stand in the order of their names, and each name stands once (`Document.ordered_of_ofJson`). -/

namespace Bindery

/-- What holds of all values of a list holds of those that the dictionary made of it has. -/
theorem Dict.of_find?_ofList {α : Type} {P : α → Prop} {es : List (String × α)}
    (h : ∀ e ∈ es, P e.2) {k : String} {a : α} (ha : (ofList es).find? k = some a) : P a := by
  suffices hfold : ∀ d : TextDict α, (∀ k a, d.find? k = some a → P a) →
      ∀ k a, (es.foldl (fun d e => d.insert e.1 e.2) d).find? k = some a → P a from
    hfold .empty (fun _ _ h => nomatch h) k a ha
  clear ha
  induction es with
  | nil => exact fun d hd => hd
  | cons e es ih =>
      intro d hd
      refine ih (fun e' he' => h e' (List.mem_cons_of_mem _ he')) _ fun k a hka => ?_
      rw [find?_insert] at hka
      split at hka
      · exact Option.some.inj hka ▸ h e List.mem_cons_self
      · exact hd k a hka

/-! ## What decoders give -/

namespace Json.Decoder

variable {α σ : Type} {d : Decoder α} {P : σ → Prop} {Q : α → Prop}

/-- Whatever is read has the property. -/
def Reads (d : Decoder α) (Q : α → Prop) : Prop := ∀ n t a, d n t = .ok a → Q a

theorem not_wrongType {expected : String} {t : Tree} {a : α} : wrongType expected t ≠ .ok a := by
  cases t with
  | number text =>
      rw [wrongType]
      cases numberValue text <;> simp [bind, Except.bind, fail]
  | string content =>
      rw [wrongType]
      cases stringText content <;> simp [bind, Except.bind, fail]
  | null | bool | array | object | broken => simp [wrongType, fail]

theorem exists_of_enter {n : Nat} {inside : Nat → Except DecodeError α} {a : α}
    (h : enter n inside = .ok a) : ∃ m, inside m = .ok a := by
  cases n with
  | zero => cases h
  | succ m => exact ⟨m, h⟩

theorem of_mem_members {n : Nat} (hd : d.Reads Q) {ms : Members} {es : List (String × α)}
    (h : members textKey (d n) ms = .ok es) : ∀ e ∈ es, Q e.2 := by
  fun_induction members textKey (d n) ms generalizing es with
  | case1 => simp [← Except.ok.inj h]
  | case2 => cases h
  | case3 _ =>
      obtain ⟨_, -, h⟩ := bind_eq_ok.mp h
      cases h
  | case4 _ _ _ _ value _ _ ih =>
      obtain ⟨k, -, h⟩ := bind_eq_ok.mp h
      obtain ⟨a, ha, h⟩ := bind_eq_ok.mp h
      obtain ⟨rest, hrest, h⟩ := bind_eq_ok.mp h
      obtain rfl := Except.ok.inj h
      exact List.forall_mem_cons.mpr ⟨hd n value a ha, ih hrest⟩

theorem reads_textDict (hd : d.Reads Q) :
    (textDict d).Reads fun entries => ∀ k a, entries.find? k = some a → Q a := by
  intro n t entries h k a hka
  unfold textDict dict at h
  split at h
  · obtain ⟨m, hm⟩ := exists_of_enter h
    obtain ⟨es, hes, rfl⟩ := map_eq_ok.mp hm
    exact Dict.of_find?_ofList (of_mem_members hd hes) hka
  · exact absurd h not_wrongType

/-! ## What fields keep -/

/-- Reading the field into a structure keeps the property. -/
def Field.Keeps (f : Field σ) (P : σ → Prop) : Prop :=
  ∀ n t set s, f.read n t = .ok set → P s → P (set s)

section Set

variable {name : String} {aliases : List String} {absence : Absence} {set : α → σ → σ}

theorem Field.keeps (hd : d.Reads Q) (h : ∀ a s, Q a → P s → P (set a s)) :
    Field.Keeps ⟨name, aliases, absence, fun n t => set <$> d n t⟩ P := by
  intro n t set' s hset hs
  obtain ⟨a, ha, rfl⟩ := map_eq_ok.mp hset
  exact h a s (hd n t a ha) hs

/-- What is read does not matter where the property does not look at it. -/
theorem Field.keeps_of_forall (h : ∀ a s, P s → P (set a s)) :
    Field.Keeps ⟨name, aliases, absence, fun n t => set <$> d n t⟩ P :=
  Field.keeps (fun _ _ _ _ => trivial) fun a s _ => h a s

end Set

theorem of_fromMembers {fields : List (Field σ)} (hfields : ∀ f ∈ fields, f.Keeps P) {n : Nat}
    {seen : List String} {acc s : σ} {ms : Members} (hacc : P acc)
    (h : fromMembers fields n seen acc ms = .ok s) : P s := by
  fun_induction fromMembers fields n seen acc ms with
  | case1 => cases h
  | case2 => exact Except.ok.inj h ▸ hacc
  | case3 => cases h
  | case4 seen acc _ content _ _ value _ rest ih ih' =>
      obtain ⟨key, -, h⟩ := bind_eq_ok.mp h
      split at h
      · obtain ⟨_, -, h⟩ := bind_eq_ok.mp h
        exact ih hacc h
      · rename_i f hf
        split at h
        · cases h
        · obtain ⟨set, hset, h⟩ := bind_eq_ok.mp h
          have hkeeps := hfields f (List.mem_of_find?_eq_some hf)
          exact ih' f set (hkeeps n value set acc hset hacc) h

theorem of_fromItems {name : String} {count n index : Nat} {acc s : σ} {fields : List (Field σ)}
    {its : Items} (hfields : ∀ f ∈ fields, f.Keeps P) (hacc : P acc)
    (h : fromItems name count n index acc fields its = .ok s) : P s := by
  fun_induction fromItems name count n index acc fields its with
  | case1 => exact Except.ok.inj h ▸ hacc
  | case2 => cases h
  | case3 => cases h
  | case4 _ _ _ _ _ _ ih => exact ih (fun f hf => hfields f (List.mem_cons_of_mem _ hf)) hacc h
  | case5 => cases h
  | case6 index acc f fields _ value _ rest ih =>
      obtain ⟨set, hset, h⟩ := bind_eq_ok.mp h
      have hkeeps := hfields f List.mem_cons_self
      exact ih set (fun f hf => hfields f (List.mem_cons_of_mem _ hf))
        (hkeeps n value set acc hset hacc) h

theorem reads_struct {name : String} {init : σ} {fields : List (Field σ)} (hinit : P init)
    (hfields : ∀ f ∈ fields, f.Keeps P) : (struct name init fields).Reads P := by
  intro n t s h
  unfold struct at h
  split at h
  · obtain ⟨m, hm⟩ := exists_of_enter h
    exact of_fromMembers hfields hinit hm
  · obtain ⟨m, hm⟩ := exists_of_enter h
    exact of_fromItems hfields hinit hm
  · exact absurd h not_wrongType

end Json.Decoder

/-! ## Schemas -/

namespace Document

open Json Json.Decoder

/-- The properties of a schema stand in the order of their names, and each name stands once. -/
def Schema.Ordered (s : Schema) : Prop := s.properties.Pairwise fun p q => p.1 < q.1

theorem Schema.reads_decode : Schema.decode.Reads Schema.Ordered := by
  have hfields (self inner : Tree → Except DecodeError Schema) :
      ∀ f ∈ Schema.fields self inner, f.Keeps Schema.Ordered := by
    simp only [Schema.fields, List.forall_mem_cons]
    and_intros
    -- All fields but one leave the properties alone, and that one is a dictionary.
    all_goals first
      | exact Field.keeps_of_forall fun _ _ h => h
      | exact Field.keeps (fun _ _ _ _ => trivial) fun entries _ _ _ => entries.ordered
      | exact List.forall_mem_nil _
  have hnil : Schema.Ordered {} := List.Pairwise.nil
  intro n t s h
  unfold Schema.decode at h
  split at h
  all_goals exact reads_struct hnil (hfields _ _) _ _ _ h

/-! ## Documents -/

/-- The properties of each named schema are in order. -/
def SchemasOrdered (doc : Document) : Prop :=
  ∀ name s, doc.components.schemas.find? name = some s → s.Ordered

theorem Components.reads_decode : Components.decode.Reads fun c =>
    ∀ name s, c.schemas.find? name = some s → s.Ordered := by
  refine reads_struct (fun name s h => nomatch h) ?_
  simp only [List.forall_mem_cons]
  exact ⟨Field.keeps (reads_textDict Schema.reads_decode) fun _ _ h _ => h,
    Field.keeps_of_forall fun _ _ h => h, List.forall_mem_nil _⟩

theorem reads_decode : Document.decode.Reads SchemasOrdered := by
  refine reads_struct (fun name s h => nomatch h) ?_
  simp only [List.forall_mem_cons]
  exact ⟨Field.keeps_of_forall fun _ _ h => h,
    Field.keeps Components.reads_decode fun _ _ h _ => h, List.forall_mem_nil _⟩

/-- In a document that is read, the properties of each named schema stand in the order of their
names. -/
theorem ordered_of_ofJson {text : String} {doc : Document} (h : ofJson text = .ok doc) {name : String}
    {s : Schema} (hs : doc.components.schemas.find? name = some s) : s.Ordered := by
  obtain ⟨t, -, ht⟩ := run_eq_ok_iff.mp h
  exact reads_decode _ _ _ ht name s hs

end Document
end Bindery
