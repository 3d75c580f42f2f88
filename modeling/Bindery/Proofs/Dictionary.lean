import Bindery.Dict
import Mathlib.Data.List.Sort

/-! # Looking up in dictionaries

An insertion changes the value of its own key only (`find?_insert`), and the keys of a dictionary
are exactly those under which something is found (`mem_keys_iff`).  A dictionary that finds
whatever another one finds has the other's entries among its own, in their order
(`filter_contains_entries`), and dictionaries that find the same are equal (`eq_of_find?_eq`).  Putting
in the entries of a dictionary one by one builds it again (`ofList_entries`). -/

namespace Bindery.Dict

universe u v

variable {Key : Type u} {Val : Type v} [LT Key] [DecidableEq Key]

theorem find?_empty (k : Key) : (empty : Dict Key Val).find? k = none := rfl

section Insert

variable [DecidableLT Key] [Std.Irrefl (α := Key) (· < ·)] [Std.Trichotomous (α := Key) (· < ·)]

private theorem lookup_insertEntry (k k' : Key) (v : Val) (es : List (Key × Val)) :
    (insertEntry k v es).lookup k' = if k' = k then some v else es.lookup k' := by
  induction es with
  | nil => grind [insertEntry]
  | cons e es ih =>
      obtain ⟨k₀, v₀⟩ := e
      rw [insertEntry]
      split
      · simp only [List.lookup_cons]; grind
      · rename_i hlt
        split
        · rename_i hgt
          have hne : k₀ ≠ k := fun eq => Std.Irrefl.irrefl _ (eq ▸ hgt)
          simp only [List.lookup_cons, ih]; grind
        · rename_i hgt
          have heq : k = k₀ := Std.Trichotomous.trichotomous _ _ hlt hgt
          simp only [List.lookup_cons]; grind

theorem find?_insert [KeyOrder Key] (d : Dict Key Val) (k k' : Key) (v : Val) :
    (d.insert k v).find? k' = if k' = k then some v else d.find? k' :=
  lookup_insertEntry k k' v d.entries

omit [DecidableEq Key] [Std.Irrefl (α := Key) (· < ·)] in
private theorem filter_insertEntry [KeyOrder Key] (p : Key → Bool) (k : Key) (v : Val)
    {es : List (Key × Val)} (h : es.Pairwise fun a b => a.1 < b.1) :
    (insertEntry k v es).filter (fun e => p e.1) =
      if p k then insertEntry k v (es.filter fun e => p e.1) else es.filter fun e => p e.1 := by
  induction es with
  | nil => by_cases hp : p k <;> simp [insertEntry, hp]
  | cons e es ih =>
      obtain ⟨hhd, htl⟩ := List.pairwise_cons.mp h
      rw [insertEntry]
      split
      · rename_i hlt
        -- What is kept of the tail is greater than `e`, so `k` comes before it as well.
        have hlt' : ∀ e' ∈ es.filter (fun e => p e.1), k < e'.1 := fun e' he' =>
          KeyOrder.trans hlt (hhd e' (List.mem_of_mem_filter he'))
        have hins : insertEntry k v (es.filter fun e => p e.1) =
            (k, v) :: es.filter fun e => p e.1 := by
          cases hes : es.filter fun e => p e.1 with
          | nil => rfl
          | cons e' es' => rw [insertEntry, if_pos (hlt' e' (hes ▸ List.mem_cons_self))]
        by_cases hp : p k <;> by_cases he : p e.1 <;> simp [hp, he, hlt, hins, insertEntry]
      · rename_i hlt
        split
        · rename_i hgt
          by_cases hp : p k <;> by_cases he : p e.1 <;> simp [hp, he, ih htl, hlt, hgt, insertEntry]
        · rename_i hgt
          have heq : k = e.1 := Std.Trichotomous.trichotomous _ _ hlt hgt
          subst heq
          by_cases hp : p e.1 <;> simp [hp, hgt, insertEntry]

omit [DecidableEq Key] [Std.Irrefl (α := Key) (· < ·)] in
/-- What keys of some kind stand in a dictionary after an insertion. -/
theorem filter_insert [KeyOrder Key] (d : Dict Key Val) (p : Key → Bool) (k : Key) (v : Val) :
    (d.insert k v).entries.filter (fun e => p e.1) =
      if p k then insertEntry k v (d.entries.filter fun e => p e.1)
      else d.entries.filter fun e => p e.1 :=
  filter_insertEntry p k v d.ordered

end Insert

omit [DecidableEq Key] in
theorem length_keys (d : Dict Key Val) : d.keys.length = d.size := List.length_map _

theorem mem_keys_iff {d : Dict Key Val} {k : Key} : k ∈ d.keys ↔ ∃ v, d.find? k = some v := by
  rw [← Option.isSome_iff_exists, find?, List.lookup_isSome_iff, keys, List.mem_map]
  exact exists_congr fun e => and_congr_right fun _ => by rw [eq_comm, beq_iff_eq]

theorem mem_keys_of_find? {d : Dict Key Val} {k : Key} {v : Val} (h : d.find? k = some v) :
    k ∈ d.keys := mem_keys_iff.mpr ⟨v, h⟩

theorem keys_subset {d d' : Dict Key Val} (h : ∀ k v, d.find? k = some v → d'.find? k = some v) :
    d.keys ⊆ d'.keys := by
  intro k hk
  obtain ⟨v, hv⟩ := mem_keys_iff.mp hk
  exact mem_keys_of_find? (h k v hv)

/-! ## Entries -/

variable [Std.Irrefl (α := Key) (· < ·)]

theorem find?_eq_some_iff {d : Dict Key Val} {k : Key} {v : Val} :
    d.find? k = some v ↔ (k, v) ∈ d.entries := by
  rw [find?, List.lookup_eq_some_iff]
  constructor
  · rintro ⟨before, after, heq, -⟩
    rw [heq]
    exact List.mem_append_right _ List.mem_cons_self
  · intro hmem
    obtain ⟨before, after, heq⟩ := List.append_of_mem hmem
    refine ⟨before, after, heq, fun e he => ?_⟩
    -- Keys that stand before `k` are less than it.
    have hordered := d.ordered
    rw [heq, List.pairwise_append] at hordered
    have hlt : e.1 < k := hordered.2.2 e he _ List.mem_cons_self
    rw [bne_iff_ne]
    rintro rfl
    exact Std.Irrefl.irrefl _ hlt

theorem eq_of_mem_entries {d : Dict Key Val} {e e' : Key × Val} (he : e ∈ d.entries)
    (he' : e' ∈ d.entries) (h : e.1 = e'.1) : e = e' := by
  have hfind : d.find? e.1 = some e.2 := find?_eq_some_iff.mpr he
  rw [h, find?_eq_some_iff.mpr he'] at hfind
  exact Prod.ext h (Option.some.inj hfind).symm

theorem filter_contains_entries [KeyOrder Key] {d d' : Dict Key Val}
    (h : ∀ k v, d.find? k = some v → d'.find? k = some v) :
    d'.entries.filter (fun e => d.contains e.1) = d.entries := by
  have : Std.Irrefl fun a b : Key × Val => a.1 < b.1 := ⟨fun a => Std.Irrefl.irrefl a.1⟩
  have : Std.Antisymm fun a b : Key × Val => a.1 < b.1 :=
    ⟨fun a b hab hba => absurd (KeyOrder.trans hab hba) (Std.Irrefl.irrefl a.1)⟩
  refine (d'.ordered.filter _).eq_of_mem_iff d.ordered fun e => ?_
  rw [List.mem_filter, contains, Option.isSome_iff_exists]
  constructor
  · rintro ⟨hmem, v, hv⟩
    -- The value found under this key by the one is the value found by the other.
    have hv' := h _ _ hv
    rw [find?_eq_some_iff.mpr hmem] at hv'
    exact find?_eq_some_iff.mp (hv.trans hv'.symm)
  · intro hmem
    have hv := find?_eq_some_iff.mpr hmem
    exact ⟨find?_eq_some_iff.mp (h _ _ hv), _, hv⟩

omit [DecidableEq Key] [Std.Irrefl (α := Key) (· < ·)] in
theorem pairwise_keys (d : Dict Key Val) : d.keys.Pairwise (· < ·) :=
  List.pairwise_map.mpr d.ordered

omit [DecidableEq Key] in
theorem nodup_keys (d : Dict Key Val) : d.keys.Nodup := by
  refine d.pairwise_keys.imp ?_
  intro k k' hlt heq
  rw [heq] at hlt
  exact Std.Irrefl.irrefl _ hlt

theorem filter_contains_keys [KeyOrder Key] {d d' : Dict Key Val}
    (h : ∀ k v, d.find? k = some v → d'.find? k = some v) :
    d'.keys.filter d.contains = d.keys := by
  rw [keys, List.filter_map]
  exact congrArg (List.map Prod.fst) (filter_contains_entries h)

omit [DecidableEq Key] [Std.Irrefl (α := Key) (· < ·)] in
theorem eq_of_entries_eq {d d' : Dict Key Val} (h : d.entries = d'.entries) : d = d' := by
  cases d
  cases d'
  congr

/-- Dictionaries that find the same are equal. -/
theorem eq_of_find?_eq [KeyOrder Key] {d d' : Dict Key Val} (h : ∀ k, d.find? k = d'.find? k) :
    d = d' := by
  have hfilter : d'.entries.filter (fun e => d.contains e.1) = d.entries :=
    filter_contains_entries fun k v hv => (h k).symm.trans hv
  refine eq_of_entries_eq (hfilter.symm.trans (List.filter_eq_self.mpr fun e he => ?_))
  rw [contains, h, find?_eq_some_iff.mpr he, Option.isSome_some]

/-! ## Building anew -/

section OfList

variable {Val' : Type*}

omit [DecidableEq Key] [Std.Irrefl (α := Key) (· < ·)] in
/-- The same keys with other values. -/
def mapValues (f : Val → Val') (d : Dict Key Val) : Dict Key Val' :=
  ⟨d.entries.map fun e => (e.1, f e.2), List.pairwise_map.mpr d.ordered⟩

omit [DecidableEq Key] [Std.Irrefl (α := Key) (· < ·)] in
theorem mapValues_id : (mapValues id : Dict Key Val → Dict Key Val) = id :=
  funext fun _ => eq_of_entries_eq (List.map_id _)

variable [DecidableLT Key] [KeyOrder Key]

omit [DecidableEq Key] in
theorem insertEntry_of_forall_lt {k : Key} {es : List (Key × Val)} (h : ∀ e ∈ es, e.1 < k) (v : Val) :
    insertEntry k v es = es ++ [(k, v)] := by
  induction es with
  | nil => rfl
  | cons e es ih =>
      have hlt : e.1 < k := h e List.mem_cons_self
      rw [insertEntry, if_neg fun hgt => Std.Irrefl.irrefl _ (KeyOrder.trans hlt hgt), if_pos hlt,
        ih fun e' he' => h e' (List.mem_cons_of_mem _ he')]
      rfl

omit [DecidableEq Key] in
theorem foldl_insert_entries {es : List (Key × Val)} (d : Dict Key Val)
    (h : (d.entries ++ es).Pairwise fun a b => a.1 < b.1) :
    (es.foldl (fun d e => d.insert e.1 e.2) d).entries = d.entries ++ es := by
  induction es generalizing d with
  | nil => exact (List.append_nil _).symm
  | cons e es ih =>
      have hinsert : (d.insert e.1 e.2).entries = d.entries ++ [e] :=
        insertEntry_of_forall_lt (fun e' he' => (List.pairwise_append.mp h).2.2 e' he' e
          List.mem_cons_self) e.2
      have happend : d.entries ++ e :: es = (d.insert e.1 e.2).entries ++ es := by
        rw [hinsert, List.append_assoc]
        rfl
      rw [List.foldl_cons, ih _ (happend ▸ h), happend]

omit [DecidableEq Key] in
theorem ofList_entries (d : Dict Key Val) : ofList d.entries = d :=
  eq_of_entries_eq (foldl_insert_entries empty d.ordered)

end OfList

end Bindery.Dict
