import Bindery.Proofs.Dictionary
import Bindery.Proofs.Json.Printing
import Bindery.Proofs.Steps

/-! # Decoders that undo encoders

A decoder undoes an encoder if it gives back what was encoded, up to what does not travel, as soon as the
allowed nesting reaches the depth of the encoded tree, and fails for no other reason (`Decoder.Undoes`).
Lists, optional values, dictionaries and structures of parts that are undone are undone themselves, and
what holds of trees holds of their texts (`Decoder.Undoes.runWithin_text`). -/

namespace Bindery.Json

open Text Utf8

/-! ## Depth -/

mutual

/-- How many arrays and objects stand in each other. -/
def Tree.depth : Tree → Nat
  | .array items => items.depth + 1
  | .object members => members.depth + 1
  | _ => 0

def Items.depth : Items → Nat
  | .stop _ => 0
  | .item _ value _ rest => max value.depth rest.depth

def Members.depth : Members → Nat
  | .stop _ => 0
  | .member _ _ _ _ value _ rest => max value.depth rest.depth

end

namespace Decoder

/-- What comes of a value of some depth under an allowed nesting. -/
def within {α : Type} (depth n : Nat) (a : α) : Except DecodeError α :=
  if depth ≤ n then .ok a else .error .malformed

section Within

variable {α β : Type}

theorem within_zero (n : Nat) (a : α) : within 0 n a = .ok a := if_pos (Nat.zero_le n)

theorem map_within (f : α → β) (depth n : Nat) (a : α) :
    f <$> within depth n a = within depth n (f a) := by
  rw [within, within]
  split <;> rfl

theorem within_bind_pure (f : α → β) (depth n : Nat) (a : α) :
    (within depth n a >>= fun a => pure (f a)) = within depth n (f a) := by
  rw [within, within]
  split <;> rfl

theorem within_bind {depth depth' n : Nat} {a : α} {f : α → Except DecodeError β} {b : β}
    (h : f a = within depth' n b) : within depth n a >>= f = within (max depth depth') n b := by
  by_cases hd : depth ≤ n
  · rw [within, if_pos hd, within]
    refine h.trans ?_
    rw [within]
    simp only [Nat.max_le, hd, true_and]
  · rw [within, if_neg hd, within, if_neg (by omega)]
    rfl

theorem enter_within {f : Nat → Except DecodeError α} {depth : Nat} {a : α}
    (h : ∀ n, f n = within depth n a) (n : Nat) : enter n f = within (depth + 1) n a := by
  cases n with
  | zero => rw [within, if_neg (by omega)]; rfl
  | succ n =>
      rw [enter, h, within, within]
      simp only [Nat.add_le_add_iff_right]

end Within

/-! ## What it means to undo an encoder -/

/-- Encoding gives a printed tree, and decoding it what `reset` leaves of the value, as soon as the
nesting is allowed. -/
structure Undoes {α : Type} (d : Decoder α) (encode : α → Tree) (reset : α → α) : Prop where
  isPrinted : ∀ a, (encode a).IsPrinted
  decode : ∀ n a, d n (encode a) = within (encode a).depth n (reset a)

/-- Decodes a text whose arrays and objects may nest so far. -/
def runWithin {α : Type} (n : Nat) (d : Decoder α) (s : Received) : Except DecodeError α := do
  let (tree, ended) := read s
  let x ← d n tree
  if ended then return x else .error .malformed

theorem run_eq_runWithin {α : Type} (d : Decoder α) : d.run = d.runWithin nesting := rfl

/-- Of a text that is decoded nothing but blanks is left. -/
theorem run_eq_ok_iff {α : Type} {d : Decoder α} {s : Received} {a : α} :
    d.run s = .ok a ↔ ∃ t, read s = (t, true) ∧ d nesting t = .ok a := by
  rcases hread : read s with ⟨t, ended⟩
  simp only [run, hread, bind_eq_ok]
  constructor
  · rintro ⟨x, hx, h⟩
    cases ended with
    | true => exact ⟨t, rfl, hx.trans h⟩
    | false => cases h
  · rintro ⟨t', heq, hdecode⟩
    obtain ⟨rfl, rfl⟩ := Prod.mk.inj heq
    exact ⟨a, hdecode, rfl⟩

namespace Undoes

variable {α β κ σ : Type} {d : Decoder α} {encode : α → Tree} {reset : α → α}

theorem runWithin_text (h : d.Undoes encode reset) (n : Nat) (a : α) :
    d.runWithin n (chars (encode a).text) = within (encode a).depth n (reset a) := by
  rw [runWithin, read_text (h.isPrinted a)]
  simp only [h.decode]
  rw [within]
  split <;> rfl

/-! ## Scalars -/

theorem string : Decoder.string.Undoes Tree.ofString id where
  isPrinted := .string
  decode n s := by
    rw [Tree.ofString, Decoder.string, stringText_escape, Tree.depth, within_zero]
    · rfl
    all_goals exact nofun

theorem integer_ofInt {range : IntegerRange} (hleast : -(2 ^ 63) ≤ range.least)
    (hgreatest : range.greatest < 2 ^ 64) {i : Int} (h : range.contains i = true) (name : String)
    (n : Nat) : Decoder.integer range name n (.ofInt i) = .ok i := by
  have hrange := contains_iff.mp h
  rw [Tree.ofInt, Decoder.integer, numberValue_decimalChars (by omega) (by omega)]
  exact if_pos h

theorem map {β : Type} (h : d.Undoes encode reset) {f : α → β} {g : β → α} {reset' : β → β}
    (hreset : ∀ b, f (reset (g b)) = reset' b) : (d.map f).Undoes (encode ∘ g) reset' where
  isPrinted b := h.isPrinted (g b)
  decode n b := by rw [Decoder.map, Function.comp_apply, h.decode, map_within, hreset]

/-- A value that is never encoded as null may be missing. -/
theorem option (h : d.Undoes encode reset) (hne : ∀ a, encode a ≠ .null) :
    d.option.Undoes (Tree.ofOption encode) (Option.map reset) where
  isPrinted
    | none => .null
    | some a => h.isPrinted a
  decode
    | n, none => (within_zero n _).symm
    | n, some a => by
      rw [Tree.ofOption, Decoder.option, h.decode, map_within]
      · rfl
      · exact hne a

/-! ## Lists and dictionaries -/

theorem items_ofItems (h : d.Undoes encode reset) (n : Nat) (as : List α) :
    items (d n) (Tree.ofItems (as.map encode)) =
      within (Tree.ofItems (as.map encode)).depth n (as.map reset) := by
  induction as with
  | nil => exact (within_zero n _).symm
  | cons a as ih =>
      rw [List.map_cons, Tree.ofItems, items, h.decode, ih]
      exact within_bind (within_bind_pure _ _ _ _)

theorem list (h : d.Undoes encode reset) :
    (Decoder.list d).Undoes (fun as => .ofList (as.map encode)) (List.map reset) where
  isPrinted as := by
    refine .array ?_
    induction as with
    | nil => exact .stop
    | cons a as ih => exact .item (h.isPrinted a) ih
  decode n as := enter_within (h.items_ofItems · as) n

theorem members_ofMembers {key : KeyDecoder κ} {shown : κ → String}
    (hkey : ∀ k, key (escape (shown k)) true = .ok k) (h : d.Undoes encode reset) (n : Nat)
    (es : List (κ × α)) :
    members key (d n) (Tree.ofMembers (es.map fun e => (shown e.1, encode e.2))) =
      within (Tree.ofMembers (es.map fun e => (shown e.1, encode e.2))).depth n
        (es.map fun e => (e.1, reset e.2)) := by
  induction es with
  | nil => exact (within_zero n _).symm
  | cons e es ih =>
      rw [List.map_cons, Tree.ofMembers, members, hkey, h.decode, ih]
      exact within_bind (within_bind_pure _ _ _ _)

theorem dict [LT κ] [DecidableLT κ] [KeyOrder κ] [Std.Irrefl (α := κ) (· < ·)] {key : KeyDecoder κ}
    {shown : κ → String} (hkey : ∀ k, key (escape (shown k)) true = .ok k)
    (h : d.Undoes encode reset) :
    (Decoder.dict key d).Undoes (fun m => .ofEntries (m.entries.map fun e => (shown e.1, encode e.2)))
      (Dict.mapValues reset) where
  isPrinted m := by
    refine .object ?_
    induction m.entries with
    | nil => exact .stop
    | cons e es ih => exact .member _ (h.isPrinted e.2) ih
  decode n m := by
    refine enter_within (fun n => ?_) n
    rw [h.members_ofMembers hkey, map_within]
    exact congrArg _ (Dict.ofList_entries (m.mapValues reset))

end Undoes

/-! ## Structures -/

/-- A field of a structure with what was encoded for it. -/
structure FieldValue (σ : Type) where
  field : Field σ
  value : Tree
  set : σ → σ

/-- The field takes in what was encoded for it. -/
structure FieldValue.Undone {σ : Type} (p : FieldValue σ) : Prop where
  isPrinted : p.value.IsPrinted
  read : ∀ n, p.field.read n p.value = within p.value.depth n p.set

/-- A field that takes its default where it is missing, with a value encoded. -/
def FieldValue.defaulted {α σ : Type} (name : String) (d : Decoder α) (encode : α → Tree)
    (reset : α → α) (set : α → σ → σ) (a : α) : FieldValue σ :=
  ⟨.defaulted name d set, encode a, set (reset a)⟩

theorem Undoes.fieldValue {α σ : Type} {d : Decoder α} {encode : α → Tree} {reset : α → α}
    (h : d.Undoes encode reset) (name : String) (set : α → σ → σ) (a : α) :
    (FieldValue.defaulted name d encode reset set a).Undone where
  isPrinted := h.isPrinted a
  read n := (congrArg (set <$> ·) (h.decode n a)).trans (map_within set _ n _)

def FieldValue.entry {σ : Type} (p : FieldValue σ) : String × Tree := (p.field.name, p.value)

section Struct

variable {σ : Type} {fields : List (Field σ)}

theorem missing?_eq_none (hanywhere : ∀ f ∈ fields, f.absence = .anywhere) {seen : List String} :
    missing? fields seen = none := by
  rw [missing?, Option.map_eq_none_iff, List.find?_eq_none]
  intro f hf
  rw [hanywhere f hf]
  exact Bool.false_ne_true

/-- Encoded fields are read in whatever order they stand, if each is known under its own name and none
is required. -/
theorem fromMembers_ofMembers (hanywhere : ∀ f ∈ fields, f.absence = .anywhere)
    {values : List (FieldValue σ)}
    (hknown : ∀ p ∈ values, fields.find? (·.hasName p.field.name) = some p.field)
    (hvalues : ∀ p ∈ values, p.Undone) (hnodup : (values.map (·.field.name)).Nodup) (n : Nat)
    {seen : List String} (hseen : ∀ p ∈ values, p.field.name ∉ seen) (acc : σ) :
    fromMembers fields n seen acc (Tree.ofMembers (values.map FieldValue.entry)) =
      within (Tree.ofMembers (values.map FieldValue.entry)).depth n
        (values.foldl (fun acc p => p.set acc) acc) := by
  induction values generalizing seen acc with
  | nil =>
      rw [List.map_nil, Tree.ofMembers, fromMembers, missing?_eq_none hanywhere, Members.depth, within_zero]
      rfl
  | cons p values ih =>
      have hp : p ∈ p :: values := List.mem_cons_self
      obtain ⟨hname, hnames⟩ := List.nodup_cons.mp hnodup
      have hfresh : seen.contains p.field.name = false :=
        Bool.eq_false_iff.mpr fun h => hseen p hp (List.contains_iff_mem.mp h)
      have hseen' : ∀ q ∈ values, q.field.name ∉ p.field.name :: seen := by
        intro q hq hmem
        rcases List.mem_cons.mp hmem with heq | hmem
        · exact hname (List.mem_map.mpr ⟨q, hq, heq⟩)
        · exact hseen q (List.mem_cons_of_mem _ hq) hmem
      have hrest := ih (fun q hq => hknown q (List.mem_cons_of_mem _ hq))
        (fun q hq => hvalues q (List.mem_cons_of_mem _ hq)) hnames hseen' (p.set acc)
      rw [List.map_cons, FieldValue.entry, Tree.ofMembers, fromMembers, stringText_escape]
      simp only [bind, Except.bind, hknown p hp, hfresh, Bool.false_eq_true, if_false]
      rw [(hvalues p hp).read]
      exact within_bind hrest

theorem isPrinted_ofEntries {values : List (FieldValue σ)} (hvalues : ∀ p ∈ values, p.Undone) :
    (Tree.ofEntries (values.map FieldValue.entry)).IsPrinted := by
  refine .object ?_
  induction values with
  | nil => exact .stop
  | cons p values ih =>
      exact .member _ (hvalues p List.mem_cons_self).isPrinted
        (ih fun q hq => hvalues q (List.mem_cons_of_mem _ hq))

theorem struct_ofEntries (hanywhere : ∀ f ∈ fields, f.absence = .anywhere)
    {values : List (FieldValue σ)}
    (hknown : ∀ p ∈ values, fields.find? (·.hasName p.field.name) = some p.field)
    (hvalues : ∀ p ∈ values, p.Undone) (hnodup : (values.map (·.field.name)).Nodup) (name : String)
    (init : σ) (n : Nat) :
    Decoder.struct name init fields n (.ofEntries (values.map FieldValue.entry)) =
      within (Tree.ofEntries (values.map FieldValue.entry)).depth n
        (values.foldl (fun acc p => p.set acc) init) :=
  enter_within (fun n => fromMembers_ofMembers hanywhere hknown hvalues hnodup n
    (fun _ _ => List.not_mem_nil) init) n

end Struct

end Decoder
end Bindery.Json
