import Bindery.Proofs.Documents

/-! # Structures whose fields may be missing

Where the fields of a structure are slots of their own, each of which may be missing, the structure is read
slot by slot: whatever the order of the text, a slot holds what stands under its name, and what it held
before if nothing does (`Decoder.struct_eq_ok_iff`). -/

namespace Bindery.Json.Decoder

/-! ## What a text holds -/

/-- The members of an object in the order of the text, each under the text of its key. -/
inductive Entries : Members → List (String × Tree) → Prop
  | stop {gap} : Entries (.stop (.closed gap)) []
  | member {before content gap lead value after more key es} (hkey : stringText content = .ok key)
      (h : Entries more es) : Entries (.member before content gap lead value after more) ((key, value) :: es)

/-- The items of an array in the order of the text. -/
inductive Elements : Items → List Tree → Prop
  | stop {gap} : Elements (.stop (.closed gap)) []
  | item {before value after more ts} (h : Elements more ts) :
      Elements (.item before value after more) (value :: ts)

/-- What a name stands for among the entries: the value that stands under it, and something else if there is
none. -/
inductive Filled {α : Type} (name : String) (d : Tree → Except DecodeError α) (es : List (String × Tree))
    (absent : α) : α → Prop
  | absent (h : name ∉ es.map Prod.fst) : Filled name d es absent absent
  | given {t a} (hmem : (name, t) ∈ es) (hd : d t = .ok a) : Filled name d es absent a

/-! ## Slots -/

/-- A field that may be missing, and its slot in a structure. -/
structure Slot (σ : Type) where
  Carrier : Type
  name : String
  decode : Decoder Carrier
  get : σ → Carrier
  set : Carrier → σ → σ

variable {σ κ : Type}

def Slot.field (p : Slot σ) : Field σ := .defaulted p.name p.decode p.set

/-- A structure consists of its slots and of what is kept beside them. -/
structure Independent (slots : List (Slot σ)) (kept : σ → κ) : Prop where
  nodup : (slots.map Slot.name).Nodup
  get_set : ∀ p ∈ slots, ∀ a s, p.get (p.set a s) = a
  get_set_of_ne : ∀ p ∈ slots, ∀ q ∈ slots, p.name ≠ q.name → ∀ a s, q.get (p.set a s) = q.get s
  kept_set : ∀ p ∈ slots, ∀ a s, kept (p.set a s) = kept s
  ext : ∀ s s', (∀ p ∈ slots, p.get s = p.get s') → kept s = kept s' → s = s'

/-- Each slot of a structure is filled from the entries, or has been filled before. -/
structure Fills (slots : List (Slot σ)) (kept : σ → κ) (n : Nat) (es : List (String × Tree)) (s s' : σ) :
    Prop where
  filled : ∀ p ∈ slots, Filled p.name (p.decode n) es (p.get s) (p.get s')
  kept_eq : kept s' = kept s

/-- No name of a slot stands twice, whatever stands under another name is whole, and the rest fills the
slots. -/
structure Turns (slots : List (Slot σ)) (kept : σ → κ) (n : Nat) (es : List (String × Tree)) (s s' : σ) :
    Prop extends Fills slots kept n es s s' where
  nodup : ((es.map Prod.fst).filter (· ∈ slots.map Slot.name)).Nodup
  isWhole : ∀ e ∈ es, e.1 ∉ slots.map Slot.name → e.2.isWhole = true

section Filled

variable {α : Type} {name key : String} {d : Tree → Except DecodeError α} {es : List (String × Tree)} {t : Tree}
  {a b : α}

theorem filled_of_not_mem (h : name ∉ es.map Prod.fst) : Filled name d es a b ↔ b = a := by
  constructor
  · rintro (_ | ⟨hmem, _⟩)
    · rfl
    · exact absurd (List.mem_map_of_mem hmem) h
  · rintro rfl
    exact .absent h

theorem filled_cons_of_ne (hne : name ≠ key) : Filled name d ((key, t) :: es) a b ↔ Filled name d es a b := by
  constructor
  · rintro (h | ⟨hmem, hd⟩)
    · exact .absent fun hmem => h (List.mem_cons_of_mem _ hmem)
    · rcases List.mem_cons.mp hmem with heq | hmem
      · exact absurd (Prod.mk.inj heq).1 hne
      · exact .given hmem hd
  · rintro (h | ⟨hmem, hd⟩)
    · exact .absent fun hmem => (List.mem_cons.mp hmem).elim hne h
    · exact .given (List.mem_cons_of_mem _ hmem) hd

theorem filled_cons_self (h : name ∉ es.map Prod.fst) :
    Filled name d ((name, t) :: es) a b ↔ d t = .ok b := by
  constructor
  · rintro (h' | ⟨hmem, hd⟩)
    · exact absurd List.mem_cons_self h'
    · rcases List.mem_cons.mp hmem with heq | hmem
      · exact (Prod.mk.inj heq).2 ▸ hd
      · exact absurd (List.mem_map_of_mem hmem) h
  · exact .given List.mem_cons_self

end Filled

section Turns

variable {slots : List (Slot σ)} {kept : σ → κ} {n : Nat} {es : List (String × Tree)} {t : Tree} {s s' : σ}

theorem Independent.eq_of_name_eq (h : Independent slots kept) {p q : Slot σ} (hp : p ∈ slots)
    (hq : q ∈ slots) (hname : p.name = q.name) : p = q :=
  List.inj_on_of_nodup_map h.nodup hp hq hname

theorem turns_nil (h : Independent slots kept) : Turns slots kept n [] s s' ↔ s' = s := by
  constructor
  · intro hturns
    refine h.ext s' s (fun p hp => ?_) hturns.kept_eq
    exact (filled_of_not_mem List.not_mem_nil).mp (hturns.filled p hp)
  · rintro rfl
    exact ⟨⟨fun _ _ => .absent List.not_mem_nil, rfl⟩, List.nodup_nil, by simp⟩

/-- What stands under another name leaves the structure alone. -/
theorem turns_cons_of_not_mem {key : String} (hkey : key ∉ slots.map Slot.name) :
    Turns slots kept n ((key, t) :: es) s s' ↔ t.isWhole = true ∧ Turns slots kept n es s s' := by
  have hfilter : (((key, t) :: es).map Prod.fst).filter (· ∈ slots.map Slot.name) =
      (es.map Prod.fst).filter (· ∈ slots.map Slot.name) := by
    rw [List.map_cons, List.filter_cons_of_neg (by simpa using hkey)]
  have hne {p : Slot σ} (hp : p ∈ slots) : p.name ≠ key :=
    fun heq => hkey (List.mem_map.mpr ⟨p, hp, heq⟩)
  constructor
  · intro h
    exact ⟨h.isWhole _ List.mem_cons_self hkey,
      ⟨fun p hp => (filled_cons_of_ne (hne hp)).mp (h.filled p hp), h.kept_eq⟩, hfilter ▸ h.nodup,
      fun e he => h.isWhole e (List.mem_cons_of_mem _ he)⟩
  · rintro ⟨hwhole, h⟩
    exact ⟨⟨fun p hp => (filled_cons_of_ne (hne hp)).mpr (h.filled p hp), h.kept_eq⟩, hfilter ▸ h.nodup,
      List.forall_mem_cons.mpr ⟨fun _ => hwhole, h.isWhole⟩⟩

/-- What stands under the name of a slot goes into it, and no other entry has this name. -/
theorem turns_cons_of_mem (h : Independent slots kept) {p : Slot σ} (hp : p ∈ slots) :
    Turns slots kept n ((p.name, t) :: es) s s' ↔
      p.name ∉ es.map Prod.fst ∧ ∃ a, p.decode n t = .ok a ∧ Turns slots kept n es (p.set a s) s' := by
  have hname : p.name ∈ slots.map Slot.name := List.mem_map_of_mem hp
  have hfilter : (((p.name, t) :: es).map Prod.fst).filter (· ∈ slots.map Slot.name) =
      p.name :: (es.map Prod.fst).filter (· ∈ slots.map Slot.name) := by
    rw [List.map_cons, List.filter_cons_of_pos (by simpa using hname)]
  have hne {q : Slot σ} (hq : q ∈ slots) (hqp : q ≠ p) : q.name ≠ p.name :=
    fun heq => hqp (h.eq_of_name_eq hq hp heq)
  constructor
  · intro hturns
    obtain ⟨hnot, hnodup⟩ := List.nodup_cons.mp (hfilter ▸ hturns.nodup)
    have hnot : p.name ∉ es.map Prod.fst := fun hmem => hnot (List.mem_filter.mpr ⟨hmem, by simpa using hname⟩)
    have hkept := hturns.kept_eq.trans (h.kept_set p hp (p.get s') s).symm
    refine ⟨hnot, p.get s', (filled_cons_self hnot).mp (hturns.filled p hp), ⟨fun q hq => ?_, hkept⟩, hnodup,
      fun e he => hturns.isWhole e (List.mem_cons_of_mem _ he)⟩
    by_cases hqp : q = p
    · subst hqp
      exact (filled_of_not_mem hnot).mpr (h.get_set q hq _ s).symm
    · rw [h.get_set_of_ne p hp q hq (hne hq hqp).symm]
      exact (filled_cons_of_ne (hne hq hqp)).mp (hturns.filled q hq)
  · rintro ⟨hnot, a, ha, hturns⟩
    have hnodup : ((((p.name, t) :: es).map Prod.fst).filter (· ∈ slots.map Slot.name)).Nodup := by
      rw [hfilter]
      exact List.nodup_cons.mpr ⟨fun hmem => hnot (List.mem_filter.mp hmem).1, hturns.nodup⟩
    refine ⟨⟨fun q hq => ?_, hturns.kept_eq.trans (h.kept_set p hp a s)⟩, hnodup,
      List.forall_mem_cons.mpr ⟨fun hother => absurd hname hother, hturns.isWhole⟩⟩
    have hfilled := hturns.filled q hq
    by_cases hqp : q = p
    · subst hqp
      rw [filled_of_not_mem hnot, h.get_set q hq] at hfilled
      exact (filled_cons_self hnot).mpr (hfilled ▸ ha)
    · rw [h.get_set_of_ne p hp q hq (hne hq hqp).symm] at hfilled
      exact (filled_cons_of_ne (hne hq hqp)).mpr hfilled

/-- Names of slots that stand once each need no more than to fill the slots. -/
theorem turns_zip_iff (h : Independent slots kept) {ts : List Tree} :
    Turns slots kept n ((slots.map Slot.name).zip ts) s s' ↔
      Fills slots kept n ((slots.map Slot.name).zip ts) s s' := by
  refine ⟨Turns.toFills, fun hfills => ⟨hfills, ?_, fun e he hother => ?_⟩⟩
  · have hsublist : (((slots.map Slot.name).zip ts).map Prod.fst).Sublist (slots.map Slot.name) := by
      rw [List.zip_eq_zip_take_min, List.map_fst_zip (by simp)]
      exact List.take_sublist _ _
    exact (h.nodup.sublist hsublist).filter _
  · exact absurd (List.of_mem_zip he).1 hother

end Turns

/-! ## Reading a structure -/

section Read

variable {slots : List (Slot σ)} {kept : σ → κ} {n : Nat}

theorem Slot.hasName_field {p : Slot σ} {key : String} : p.field.hasName key = true ↔ key = p.name := by
  simp [field, Field.defaulted, Field.hasName]

theorem find?_field_of_not_mem {key : String} (hkey : key ∉ slots.map Slot.name) :
    (slots.map Slot.field).find? (·.hasName key) = none := by
  refine List.find?_eq_none.mpr fun f hf => ?_
  obtain ⟨p, hp, rfl⟩ := List.mem_map.mp hf
  exact fun hname => hkey (List.mem_map.mpr ⟨p, hp, (Slot.hasName_field.mp hname).symm⟩)

theorem find?_field_of_mem (h : Independent slots kept) {p : Slot σ} (hp : p ∈ slots) :
    (slots.map Slot.field).find? (·.hasName p.name) = some p.field := by
  cases hfind : (slots.map Slot.field).find? (·.hasName p.name) with
  | none =>
      exact absurd (Slot.hasName_field.mpr rfl) (List.find?_eq_none.mp hfind _ (List.mem_map_of_mem hp))
  | some f =>
      obtain ⟨q, hq, rfl⟩ := List.mem_map.mp (List.mem_of_find?_eq_some hfind)
      have hname : q.field.hasName p.name = true := List.find?_some (p := fun f : Field σ => f.hasName p.name) hfind
      rw [h.eq_of_name_eq hp hq (Slot.hasName_field.mp hname)]

variable {before gap lead after : Blank} {content : Utf8.Received} {value : Tree} {more : Members}
  {seen : List String} {s s' : σ}

/-- A member with the name of a slot is read into it, once only. -/
theorem fromMembers_member_of_mem (h : Independent slots kept) {p : Slot σ} (hp : p ∈ slots)
    (hkey : stringText content = .ok p.name) :
    fromMembers (slots.map Slot.field) n seen s (.member before content gap lead value after more) = .ok s' ↔
      p.name ∉ seen ∧ ∃ a, p.decode n value = .ok a ∧
        fromMembers (slots.map Slot.field) n (p.name :: seen) (p.set a s) more = .ok s' := by
  rw [fromMembers, hkey]
  simp only [bind, Except.bind, find?_field_of_mem h hp, show p.field.name = p.name by rfl]
  by_cases hseen : p.name ∈ seen
  · rw [if_pos (List.contains_iff_mem.mpr hseen)]
    exact iff_of_false (by rintro ⟨⟩) fun hread => hread.1 hseen
  · rw [if_neg fun hname => hseen (List.contains_iff_mem.mp hname)]
    simp only [show p.field.read n value = p.set <$> p.decode n value by rfl, hseen, not_false_eq_true,
      true_and]
    cases p.decode n value <;> simp [Functor.map, Except.map]

/-- A member with another name is passed over. -/
theorem fromMembers_member_of_not_mem {key : String} (hkey : stringText content = .ok key)
    (hmem : key ∉ slots.map Slot.name) :
    fromMembers (slots.map Slot.field) n seen s (.member before content gap lead value after more) = .ok s' ↔
      value.isWhole = true ∧ fromMembers (slots.map Slot.field) n seen s more = .ok s' := by
  rw [fromMembers, hkey]
  simp only [bind, Except.bind, find?_field_of_not_mem hmem]
  rw [skip]
  cases value.isWhole <;> simp

/-- No name of a slot is one that has been seen. -/
def Fresh (slots : List (Slot σ)) (seen : List String) (es : List (String × Tree)) : Prop :=
  ∀ e ∈ es, e.1 ∈ slots.map Slot.name → e.1 ∉ seen

theorem fresh_cons_of_mem {p : Slot σ} (hp : p ∈ slots) {t : Tree} {es : List (String × Tree)} :
    p.name ∉ seen ∧ Fresh slots (p.name :: seen) es ↔
      p.name ∉ es.map Prod.fst ∧ Fresh slots seen ((p.name, t) :: es) := by
  have hknown : p.name ∈ slots.map Slot.name := List.mem_map_of_mem hp
  constructor
  · rintro ⟨hseen, hfresh⟩
    refine ⟨fun hmem => ?_, List.forall_mem_cons.mpr ⟨fun _ => hseen, fun e he hname hmem => ?_⟩⟩
    · obtain ⟨e, he, heq⟩ := List.mem_map.mp hmem
      exact hfresh e he (heq ▸ hknown) (heq ▸ List.mem_cons_self)
    · exact hfresh e he hname (List.mem_cons_of_mem _ hmem)
  · rintro ⟨hnot, hfresh⟩
    obtain ⟨hhead, hfresh⟩ := List.forall_mem_cons.mp hfresh
    refine ⟨hhead hknown, fun e he hname hmem => ?_⟩
    rcases List.mem_cons.mp hmem with heq | hmem
    · exact hnot (List.mem_map.mpr ⟨e, he, heq⟩)
    · exact hfresh e he hname hmem

theorem fresh_cons_of_not_mem {key : String} (hkey : key ∉ slots.map Slot.name) {t : Tree}
    {es : List (String × Tree)} : Fresh slots seen ((key, t) :: es) ↔ Fresh slots seen es := by
  rw [Fresh, List.forall_mem_cons]
  exact and_iff_right fun hmem => absurd hmem hkey

theorem entries_member_iff {key : String} (hkey : stringText content = .ok key) {es : List (String × Tree)} :
    Entries (.member before content gap lead value after more) es ↔
      ∃ es', Entries more es' ∧ es = (key, value) :: es' := by
  constructor
  · intro h
    cases h with
    | member hkey' h =>
        obtain rfl := Except.ok.inj (hkey.symm.trans hkey')
        exact ⟨_, h, rfl⟩
  · rintro ⟨es', h, rfl⟩
    exact .member hkey h

/-- The members of an object turn the structure, if no name of a slot has been seen before. -/
theorem fromMembers_eq_ok_iff (h : Independent slots kept) {s' : σ} :
    (ms : Members) → {seen : List String} → {s : σ} →
      (fromMembers (slots.map Slot.field) n seen s ms = .ok s' ↔
        ∃ es, Entries ms es ∧ Fresh slots seen es ∧ Turns slots kept n es s s')
  | .stop (.broken _), seen, s => iff_of_false (by rintro ⟨⟩) (by rintro ⟨_, ⟨⟩, -⟩)
  | .stop (.closed gap), seen, s => by
    have hmissing : missing? (slots.map Slot.field) seen = none := by
      refine missing?_eq_none fun f hf => ?_
      obtain ⟨p, -, rfl⟩ := List.mem_map.mp hf
      rfl
    rw [fromMembers, hmissing]
    constructor
    · intro hs
      exact ⟨[], .stop, by simp [Fresh], (turns_nil h).mpr (Except.ok.inj hs).symm⟩
    · rintro ⟨_, hes, -, hturns⟩
      cases hes
      exact congrArg Except.ok ((turns_nil h).mp hturns).symm
  | .member _ content _ _ value _ more, seen, s => by
    cases hkey : stringText content with
    | error e =>
        refine iff_of_false (fun hread => ?_) ?_
        · rw [fromMembers, hkey] at hread
          cases hread
        · rintro ⟨_, hes, -⟩
          cases hes with
          | member hkey' _ => cases hkey.symm.trans hkey'
    | ok key =>
        simp only [entries_member_iff hkey, ↓existsAndEq, and_true]
        by_cases hmem : key ∈ slots.map Slot.name
        · obtain ⟨p, hp, rfl⟩ := List.mem_map.mp hmem
          rw [fromMembers_member_of_mem h hp hkey]
          simp only [fromMembers_eq_ok_iff h more, turns_cons_of_mem h hp]
          constructor
          · rintro ⟨hseen, a, ha, es, hes, hfresh, hturns⟩
            obtain ⟨hnot, hfresh⟩ := (fresh_cons_of_mem hp).mp ⟨hseen, hfresh⟩
            exact ⟨es, hes, hfresh, hnot, a, ha, hturns⟩
          · rintro ⟨es, hes, hfresh, hnot, a, ha, hturns⟩
            obtain ⟨hseen, hfresh⟩ := (fresh_cons_of_mem hp).mpr ⟨hnot, hfresh⟩
            exact ⟨hseen, a, ha, es, hes, hfresh, hturns⟩
        · rw [fromMembers_member_of_not_mem hkey hmem, fromMembers_eq_ok_iff h more]
          simp only [fresh_cons_of_not_mem hmem, turns_cons_of_not_mem hmem]
          constructor
          · rintro ⟨hwhole, es, hes, hfresh, hturns⟩
            exact ⟨es, hes, hfresh, hwhole, hturns⟩
          · rintro ⟨es, hes, hfresh, hwhole, hturns⟩
            exact ⟨hwhole, es, hes, hfresh, hturns⟩

theorem elements_stop_iff {gap : Blank} {ts : List Tree} : Elements (.stop (.closed gap)) ts ↔ ts = [] :=
  ⟨fun h => by cases h; rfl, fun h => h ▸ .stop⟩

theorem elements_item_iff {more : Items} {ts : List Tree} :
    Elements (.item before value after more) ts ↔ ∃ ts', Elements more ts' ∧ ts = value :: ts' := by
  constructor
  · intro h
    cases h with
    | item h => exact ⟨_, h, rfl⟩
  · rintro ⟨ts', h, rfl⟩
    exact .item h

/-- The items of an array turn the structure under the names of the slots that are left. -/
theorem fromItems_eq_ok_iff (h : Independent slots kept) {name : String} {count : Nat} {s' : σ} :
    (left : List (Slot σ)) → left ⊆ slots → (left.map Slot.name).Nodup → (its : Items) → {index : Nat} →
      {s : σ} → (fromItems name count n index s (left.map Slot.field) its = .ok s' ↔
        ∃ ts, Elements its ts ∧ ts.length ≤ left.length ∧
          Turns slots kept n ((left.map Slot.name).zip ts) s s')
  | left, _, _, .stop (.broken _), _, s => by
    refine iff_of_false (fun hread => ?_) ?_
    · cases left <;> cases hread
    · rintro ⟨_, hes, -⟩
      cases hes
  | [], _, _, .stop (.closed gap), _, s => by
    simp only [elements_stop_iff, ↓existsAndEq, List.map_nil, List.zip_nil_right, turns_nil h, fromItems,
      Except.ok.injEq, List.length_nil, Nat.le_refl, true_and]
    exact eq_comm
  | [], _, _, .item .., _, s => by
    refine iff_of_false (by rintro ⟨⟩) ?_
    rintro ⟨_, ⟨⟩, hlength, -⟩
    exact Nat.not_succ_le_zero _ hlength
  | p :: left, hleft, hnodup, .stop (.closed gap), _, s => by
    obtain ⟨-, hleft⟩ := List.cons_subset.mp hleft
    rw [List.map_cons, fromItems, if_pos (by rfl),
      fromItems_eq_ok_iff h left hleft (List.nodup_cons.mp hnodup).2 (.stop (.closed gap))]
    simp only [elements_stop_iff, ↓existsAndEq, List.zip_nil_right, List.length_nil, Nat.zero_le, true_and]
  | p :: left, hleft, hnodup, .item _ value _ more, _, s => by
    obtain ⟨hp, hleft⟩ := List.cons_subset.mp hleft
    obtain ⟨hname, hnodup⟩ := List.nodup_cons.mp hnodup
    have hnot (ts : List Tree) : p.name ∉ ((left.map Slot.name).zip ts).map Prod.fst := by
      intro hmem
      obtain ⟨e, he, heq⟩ := List.mem_map.mp hmem
      exact hname (heq ▸ (List.of_mem_zip he).1)
    rw [List.map_cons, fromItems, bind_eq_ok, show p.field.read n value = p.set <$> p.decode n value by rfl]
    simp only [elements_item_iff, map_eq_ok, ↓existsAndEq, and_true, fromItems_eq_ok_iff h left hleft hnodup more,
      List.length_cons, Nat.add_le_add_iff_right, List.map_cons, List.zip_cons_cons, turns_cons_of_mem h hp,
      hnot, not_false_eq_true, true_and]
    constructor
    · rintro ⟨a, ha, ts, hts, hlength, hturns⟩
      exact ⟨ts, hts, hlength, a, ha, hturns⟩
    · rintro ⟨ts, hts, hlength, a, ha, hturns⟩
      exact ⟨a, ha, ts, hts, hlength, hturns⟩

/-- A structure is read from an object whose members turn it, and from an array whose items fill it under the
names of the slots, in their order. -/
inductive StandsFor (slots : List (Slot σ)) (kept : σ → κ) (init : σ) : Nat → Tree → σ → Prop
  | object {n ms es s} (hentries : Entries ms es) (h : Turns slots kept n es init s) :
      StandsFor slots kept init (n + 1) (.object ms) s
  | array {n its ts s} (helements : Elements its ts) (hlength : ts.length ≤ slots.length)
      (h : Fills slots kept n ((slots.map Slot.name).zip ts) init s) :
      StandsFor slots kept init (n + 1) (.array its) s

theorem struct_eq_ok_iff (h : Independent slots kept) {name : String} {init s : σ} {t : Tree} :
    struct name init (slots.map Slot.field) n t = .ok s ↔ StandsFor slots kept init n t s := by
  cases t with
  | object ms =>
      cases n with
      | zero => exact iff_of_false (by rintro ⟨⟩) (by rintro ⟨⟩)
      | succ n =>
          rw [struct, enter, fromMembers_eq_ok_iff h ms]
          constructor
          · rintro ⟨es, hes, -, hturns⟩
            exact .object hes hturns
          · rintro ⟨hes, hturns⟩
            exact ⟨_, hes, fun _ _ _ => List.not_mem_nil, hturns⟩
  | array its =>
      cases n with
      | zero => exact iff_of_false (by rintro ⟨⟩) (by rintro ⟨⟩)
      | succ n =>
          rw [struct, enter, fromItems_eq_ok_iff h slots (List.Subset.refl _) h.nodup its]
          simp only [turns_zip_iff h]
          constructor
          · rintro ⟨ts, hts, hlength, hturns⟩
            exact .array hts hlength hturns
          · rintro (_ | ⟨hts, hlength, hturns⟩)
            exact ⟨_, hts, hlength, hturns⟩
  | null | bool | number | string | broken =>
      refine iff_of_false (fun hread => ?_) (by rintro ⟨⟩)
      rw [struct] at hread
      · exact not_wrongType hread
      all_goals rintro _ ⟨⟩

end Read

end Bindery.Json.Decoder
