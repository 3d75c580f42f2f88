import Bindery.Proofs.Json.Numerals
import Bindery.Proofs.Json.Strings
import Mathlib.Data.List.Basic

/-! # Reading back what was encoded

Encoders give trees without blanks, of whole numbers and escaped strings (`Tree.IsPrinted`).  Such a tree is
what its own text reads as (`read_text`). -/

namespace Bindery.Json

open Text Utf8

/-! ## Strings -/

theorem escape_decimal (i : Int) : escape (decimal i) = (decimalChars i).map some := by
  have hplain : ∀ c ∈ decimalChars i, escapeChar c = [c] := by
    intro c hc
    have hc := isDigit_or_minus_of_mem_decimalChars hc
    have hcontrol : ¬ c < ' ' := by
      intro hlt
      have hlt := toNat_lt_of_lt_space hlt
      rcases hc with hc | rfl
      · simp only [Char.isDigit, Bool.and_eq_true, decide_eq_true_eq] at hc
        have : 48 ≤ c.toNat := hc.1
        omega
      · exact absurd hlt (by decide)
    unfold escapeChar
    rw [if_neg (ne_of_isDigit_or_minus hc (by decide)), if_neg (ne_of_isDigit_or_minus hc (by decide)),
      if_neg (ne_of_isDigit_or_minus hc (by decide)), if_neg (ne_of_isDigit_or_minus hc (by decide)),
      if_neg (ne_of_isDigit_or_minus hc (by decide)), if_neg (ne_of_isDigit_or_minus hc (by decide)),
      if_neg (ne_of_isDigit_or_minus hc (by decide)), if_neg hcontrol]
  rw [escape, decimal, String.toList_ofList, List.flatMap_congr hplain, List.flatMap_singleton']

/-! ## Trees -/

mutual

/-- The tree holds no blanks and no broken places, whole numbers only, and escaped strings. -/
inductive Tree.IsPrinted : Tree → Prop
  | null : Tree.IsPrinted .null
  | bool (b : Bool) : Tree.IsPrinted (.bool b)
  | number (i : Int) : Tree.IsPrinted (.ofInt i)
  | string (s : String) : Tree.IsPrinted (.ofString s)
  | array {items : Items} (h : items.IsPrinted) : Tree.IsPrinted (.array items)
  | object {members : Members} (h : members.IsPrinted) : Tree.IsPrinted (.object members)

inductive Items.IsPrinted : Items → Prop
  | stop : Items.IsPrinted (.stop (.closed []))
  | item {value : Tree} {rest : Items} (hvalue : value.IsPrinted) (hrest : rest.IsPrinted) :
      Items.IsPrinted (.item [] value [] rest)

inductive Members.IsPrinted : Members → Prop
  | stop : Members.IsPrinted (.stop (.closed []))
  | member (key : String) {value : Tree} {rest : Members} (hvalue : value.IsPrinted)
      (hrest : rest.IsPrinted) : Members.IsPrinted (.member [] (escape key) [] [] value [] rest)

end

/-- A character that a value can begin with. -/
def startsValue (c : Char) : Bool := c.isDigit || "-\"[\x7bntf".toList.contains c

theorem startsValue_of_isDigit_or_minus {c : Char} (hc : c.isDigit = true ∨ c = '-') :
    startsValue c = true := by
  rcases hc with hc | rfl
  · rw [startsValue, hc, Bool.true_or]
  · decide

theorem not_isBlank_of_startsValue {c : Char} (hc : startsValue c = true) : isBlank c = false := by
  refine Bool.eq_false_iff.mpr fun hblank => ?_
  simp only [isBlank, Bool.or_eq_true, beq_iff_eq] at hblank
  rcases hblank with ((rfl | rfl) | rfl) | rfl <;> exact absurd hc (by decide)

theorem Tree.IsPrinted.exists_source {t : Tree} (h : t.IsPrinted) :
    ∃ c s, t.source = some c :: s ∧ startsValue c = true := by
  cases h with
  | null => exact ⟨_, _, rfl, by decide⟩
  | bool b => cases b <;> exact ⟨_, _, rfl, by decide⟩
  | number i =>
      obtain ⟨c, cs, hcs, hc⟩ := exists_decimalChars_eq_cons i
      exact ⟨c, cs.map some, by rw [ofInt, source, hcs, List.map_cons], startsValue_of_isDigit_or_minus hc⟩
  | string s => exact ⟨_, _, rfl, by decide⟩
  | array h => exact ⟨_, _, rfl, by decide⟩
  | object h => exact ⟨_, _, rfl, by decide⟩

/-- No item stands here. -/
abbrev Items.empty : Items := .stop (.closed [])

/-- No member stands here. -/
abbrev Members.empty : Members := .stop (.closed [])

theorem Items.IsPrinted.exists_source {items : Items} (h : items.IsPrinted) (hne : items ≠ .empty) :
    ∃ c s, items.source = some c :: s ∧ startsValue c = true := by
  cases h with
  | stop => exact absurd rfl hne
  | item hvalue hrest =>
      obtain ⟨c, s, hsource, hc⟩ := hvalue.exists_source
      exact ⟨c, _, by rw [source, hsource]; rfl, hc⟩

theorem Items.IsPrinted.comma_eq {items : Items} (h : items.IsPrinted) (hne : items ≠ .empty) :
    items.comma = [some ','] := by
  cases h with
  | stop => exact absurd rfl hne
  | item hvalue hrest => rfl

theorem Members.IsPrinted.exists_source {members : Members} (h : members.IsPrinted)
    (hne : members ≠ .empty) : ∃ s, members.source = some '"' :: s := by
  cases h with
  | stop => exact absurd rfl hne
  | member key hvalue hrest => exact ⟨_, rfl⟩

theorem Members.IsPrinted.comma_eq {members : Members} (h : members.IsPrinted)
    (hne : members ≠ .empty) : members.comma = [some ','] := by
  cases h with
  | stop => exact absurd rfl hne
  | member key hvalue hrest => rfl

theorem blanks_of_halts {s : Received} (h : Halts isBlank s) : blanks s = ([], s) := span_of_halts [] h

theorem blanks_of_startsValue {c : Char} (hc : startsValue c = true) (s : Received) :
    blanks (some c :: s) = ([], some c :: s) := blanks_of_halts (not_isBlank_of_startsValue hc)

/-! ## Reading them -/

theorem readValue_of_number {c : Char} (hc : c.isDigit = true ∨ c = '-') {n : Nat}
    {s rest : Received} {text : List Char} (h : readNumber (some c :: s) = some (text, rest)) :
    readValue (n + 1) (some c :: s) = (.number text, some rest) := by
  rw [readValue, h]
  all_goals exact fun _ heq =>
    ne_of_isDigit_or_minus hc (by decide) (Option.some.inj (List.cons.inj heq).1)

theorem readValue_string (s : String) {n : Nat} (rest : Received) :
    readValue (n + 1) (some '"' :: (escape s ++ some '"' :: rest)) = (.string (escape s), some rest) := by
  rw [readValue, stringEnd_escape]
  rfl

theorem readValue_array {c : Char} (hc : startsValue c = true) {n : Nat} {s : Received} {items : Items}
    {rest : Option Received} (h : readItems n (some c :: s) = (items, rest)) :
    readValue (n + 1) (some '[' :: some c :: s) = (.array items, rest) := by
  rw [readValue, blanks_of_startsValue hc, h]
  split
  · rename_i heq
    obtain rfl := Option.some.inj (List.cons.inj (Prod.mk.inj heq).2).1
    exact absurd hc (by decide)
  · rfl

theorem readValue_object {n : Nat} {s : Received} {members : Members} {rest : Option Received}
    (h : readMembers n (some '"' :: s) = (members, rest)) :
    readValue (n + 1) (some '\x7b' :: some '"' :: s) = (.object members, rest) := by
  rw [readValue, blanks_of_startsValue (by decide), h]
  rfl

theorem readItems_last {n : Nat} {s after : Received} (hs : blanks s = ([], s)) {value : Tree}
    (h : readValue n s = (value, some (some ']' :: after))) :
    readItems (n + 1) s = (.item [] value [] (.stop (.closed [])), some after) := by
  rw [readItems, hs]
  simp only [h]
  rfl

theorem readItems_next {n : Nat} {s s' : Received} (hs : blanks s = ([], s)) {value : Tree}
    (h : readValue n s = (value, some (some ',' :: s'))) {rest : Items} {after : Option Received}
    (hrest : readItems n s' = (rest, after)) :
    readItems (n + 1) s = (.item [] value [] rest, after) := by
  have hcomma : blanks (some ',' :: s') = ([], some ',' :: s') := rfl
  rw [readItems, hs]
  simp only [h, hcomma, hrest]

theorem readMembers_last (key : String) {n : Nat} {s after : Received} (hs : blanks s = ([], s))
    {value : Tree} (h : readValue n s = (value, some (some '\x7d' :: after))) :
    readMembers (n + 1) (some '"' :: (escape key ++ some '"' :: some ':' :: s)) =
      (.member [] (escape key) [] [] value [] (.stop (.closed [])), some after) := by
  have hcolon : blanks (some ':' :: s) = ([], some ':' :: s) := rfl
  rw [readMembers, blanks_of_startsValue (by decide)]
  simp only [stringEnd_escape, hcolon, hs, h]
  rfl

theorem readMembers_next (key : String) {n : Nat} {s s' : Received} (hs : blanks s = ([], s))
    {value : Tree} (h : readValue n s = (value, some (some ',' :: s'))) {rest : Members}
    {after : Option Received} (hrest : readMembers n s' = (rest, after)) :
    readMembers (n + 1) (some '"' :: (escape key ++ some '"' :: some ':' :: s)) =
      (.member [] (escape key) [] [] value [] rest, after) := by
  have hcolon : blanks (some ':' :: s) = ([], some ':' :: s) := rfl
  have hcomma : blanks (some ',' :: s') = ([], some ',' :: s') := rfl
  rw [readMembers, blanks_of_startsValue (by decide)]
  simp only [stringEnd_escape, hcolon, hs, h, hcomma, hrest]
  rfl

theorem blanks_source {t : Tree} (h : t.IsPrinted) (s : Received) :
    blanks (t.source ++ s) = ([], t.source ++ s) := by
  obtain ⟨c, s', hsource, hc⟩ := h.exists_source
  rw [hsource, List.cons_append]
  exact blanks_of_startsValue hc _

mutual

theorem readValue_source {t : Tree} (h : t.IsPrinted) {n : Nat} (hn : 2 * t.source.length + 1 ≤ n)
    {s : Received} (hs : Halts continuesNumber s) : readValue n (t.source ++ s) = (t, some s) :=
  match h, n, hn with
  | .null, n + 1, _ => rfl
  | .bool true, n + 1, _ => rfl
  | .bool false, n + 1, _ => rfl
  | .number i, n + 1, _ => by
    obtain ⟨c, cs, hcs, hc⟩ := exists_decimalChars_eq_cons i
    have hread := readNumber_decimalChars i hs
    rw [Tree.ofInt, Tree.source]
    rw [hcs] at hread ⊢
    exact readValue_of_number hc hread
  | .string s, n + 1, _ => by
    rw [Tree.ofString, Tree.source, List.cons_append, List.append_assoc]
    exact readValue_string s _
  | .array hitems, n + 1, hn => by
    rename_i items
    rw [Tree.source, List.length_cons] at hn
    by_cases hne : items = .empty
    · subst hne
      rfl
    · have hread := readItems_source hitems hne (n := n) (by omega) s
      obtain ⟨c, s', hsource, hc⟩ := hitems.exists_source hne
      rw [hsource] at hread
      rw [Tree.source, hsource]
      exact readValue_array hc hread
  | .object hmembers, n + 1, hn => by
    rename_i members
    rw [Tree.source, List.length_cons] at hn
    by_cases hne : members = .empty
    · subst hne
      rfl
    · have hread := readMembers_source hmembers hne (n := n) (by omega) s
      obtain ⟨s', hsource⟩ := hmembers.exists_source hne
      rw [hsource] at hread
      rw [Tree.source, hsource]
      exact readValue_object hread
termination_by structural h

theorem readItems_source {items : Items} (h : items.IsPrinted) (hne : items ≠ .empty) {n : Nat}
    (hn : 2 * items.source.length + 2 ≤ n) (s : Received) :
    readItems n (items.source ++ s) = (items, some s) :=
  match h, n, hn with
  | .stop, _, _ => absurd rfl hne
  | .item hvalue hrest, n + 1, hn => by
    rename_i rest
    rw [Items.source] at hn ⊢
    simp only [List.map_nil, List.nil_append, List.length_append] at hn
    simp only [List.map_nil, List.nil_append, List.append_assoc]
    by_cases hend : rest = .empty
    · subst hend
      exact readItems_last (blanks_source hvalue _) (readValue_source hvalue (by omega) rfl)
    · rw [hrest.comma_eq hend] at hn ⊢
      rw [List.length_singleton] at hn
      exact readItems_next (blanks_source hvalue _) (readValue_source hvalue (by omega) rfl)
        (readItems_source hrest hend (by omega) s)
termination_by structural h

theorem readMembers_source {members : Members} (h : members.IsPrinted) (hne : members ≠ .empty) {n : Nat}
    (hn : 2 * members.source.length + 2 ≤ n) (s : Received) :
    readMembers n (members.source ++ s) = (members, some s) :=
  match h, n, hn with
  | .stop, _, _ => absurd rfl hne
  | .member key hvalue hrest, n + 1, hn => by
    rename_i rest
    rw [Members.source] at hn ⊢
    simp only [List.map_nil, List.nil_append, List.length_append, List.length_cons] at hn
    simp only [List.map_nil, List.nil_append, List.append_assoc, List.cons_append]
    by_cases hend : rest = .empty
    · subst hend
      exact readMembers_last key (blanks_source hvalue _) (readValue_source hvalue (by omega) rfl)
    · rw [hrest.comma_eq hend] at hn ⊢
      exact readMembers_next key (blanks_source hvalue _) (readValue_source hvalue (by omega) rfl)
        (readMembers_source hrest hend (by omega) s)
termination_by structural h

end

/-! ## Whole texts -/

theorem none_not_mem_escape (s : String) : none ∉ escape s := by
  rw [escape, List.mem_map]
  rintro ⟨_, -, ⟨⟩⟩

theorem Items.none_not_mem_comma (items : Items) : none ∉ items.comma := by
  cases items <;> simp [comma]

theorem Members.none_not_mem_comma (members : Members) : none ∉ members.comma := by
  cases members <;> simp [comma]

mutual

theorem Tree.IsPrinted.none_not_mem {t : Tree} (h : t.IsPrinted) : none ∉ t.source :=
  match h with
  | .null | .bool true | .bool false => by decide
  | .number i => by
    rw [Tree.ofInt, Tree.source, List.mem_map]
    exact nofun
  | .string s => by
    simp only [Tree.ofString, Tree.source, List.mem_cons, List.mem_append, none_not_mem_escape]
    exact nofun
  | .array h => by
    simp only [Tree.source, List.mem_cons, h.none_not_mem]
    exact nofun
  | .object h => by
    simp only [Tree.source, List.mem_cons, h.none_not_mem]
    exact nofun

theorem Items.IsPrinted.none_not_mem {items : Items} (h : items.IsPrinted) : none ∉ items.source :=
  match h with
  | .stop => by decide
  | .item hvalue hrest => by
    simp [Items.source, hvalue.none_not_mem, hrest.none_not_mem, Items.none_not_mem_comma]

theorem Members.IsPrinted.none_not_mem {members : Members} (h : members.IsPrinted) :
    none ∉ members.source :=
  match h with
  | .stop => by decide
  | .member key hvalue hrest => by
    simp [Members.source, hvalue.none_not_mem, hrest.none_not_mem, none_not_mem_escape,
      Members.none_not_mem_comma]

end

theorem chars_text {t : Tree} (h : t.IsPrinted) : chars t.text = t.source := by
  have hmap : ∀ s : Received, none ∉ s → (s.filterMap id).map some = s := by
    intro s hs
    induction s with
    | nil => rfl
    | cons o s ih =>
        rw [List.mem_cons, not_or] at hs
        obtain ⟨c, rfl⟩ := Option.ne_none_iff_exists'.mp (Ne.symm hs.1)
        rw [show (some c :: s).filterMap id = c :: s.filterMap id by rfl, List.map_cons, ih hs.2]
  rw [chars, Tree.text, String.toList_ofList, hmap _ h.none_not_mem]

/-- What an encoder gives is read from its text, and nothing else is left of that. -/
theorem read_text {t : Tree} (h : t.IsPrinted) : read (chars t.text) = (t, true) := by
  have hblanks := blanks_source h []
  have hread := readValue_source h (Nat.le_refl _) (s := []) trivial
  rw [List.append_nil] at hblanks hread
  rw [chars_text h, read, hblanks]
  simp only [hread]
  rfl

end Bindery.Json
