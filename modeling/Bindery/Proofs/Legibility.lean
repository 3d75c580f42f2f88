import Bindery.Emission.TypeText
import Bindery.Proofs.Kinds
import Bindery.Proofs.Lines

/-! # When the text of a type tells the type

The text of a type is a word, or a name with one or two texts in angle brackets.  A declared name
is legible when it is no word that stands for another type, does not begin like a text in
brackets, and does not hold what separates two texts (`Emission.Legible`).  A text made of legible
names is read in one way (`TypeExpr.eq_of_text_eq`).  A text between brackets never continues
another one that a separator follows, however many brackets have been closed in between
(`Emission.Phrase.not_continued`), and so the separator of the two texts is where it seems to be.

Of the words and names that emission has for types, the index refuses those that a module
imports; a document can still declare the others (`Bindings.unguarded`). -/

namespace Bindery

open Document

namespace Emission

/-! ## Texts with brackets -/

/-- What stands before an opening bracket. -/
inductive Head where
  | family (name : String)
  | vec
  | hashMap
  | nullable
  | hashRef
  | bitmaskSet
deriving DecidableEq

namespace Head

def name : Head → String
  | family name => name
  | vec => "Vec"
  | hashMap => "HashMap"
  | nullable => "Nullable"
  | hashRef => "HashRef"
  | bitmaskSet => "BitmaskSet"

/-- The heads of types that are not declared. -/
def wrappers : List Head := [vec, hashMap, nullable, hashRef, bitmaskSet]

def all : List Head := wrappers ++ Family.all.map (family ·.name)

theorem name_inj {h h' : Head} (hmem : h ∈ all) (hmem' : h' ∈ all) (heq : h.name = h'.name) :
    h = h' := by
  have hinj : ∀ h ∈ all, ∀ h' ∈ all, h.name = h'.name → h = h' := by decide
  exact hinj h hmem h' hmem' heq

/-- How a text with this head begins. -/
def opening (h : Head) : List Char := h.name.toList ++ ['<']

theorem bracket_not_mem_name {h : Head} (hmem : h ∈ all) : '<' ∉ h.name.toList := by
  revert h
  decide

theorem not_mem_opening {h : Head} (hmem : h ∈ all) {c : Char} (hc : c = '>' ∨ c = ',') :
    c ∉ h.opening := by
  have hplain : ∀ h ∈ all, '>' ∉ h.opening ∧ ',' ∉ h.opening := by decide
  rcases hc with rfl | rfl
  · exact (hplain h hmem).1
  · exact (hplain h hmem).2

end Head

/-- What stands between the two texts in a map's brackets. -/
def separator : List Char := [',', ' ']

/-- Words and texts with brackets, where no word looks like a text with brackets or like two texts
with a separator. -/
inductive Phrase : List Char → Prop
  | word {cs : List Char} (hopening : ∀ h ∈ Head.all, ¬ h.opening <+: cs)
      (hseparator : ¬ separator <:+: cs) : Phrase cs
  | apply {h : Head} {cs : List Char} (hmem : h ∈ Head.all) (hne : h ≠ .hashMap)
      (hcs : Phrase cs) : Phrase (h.opening ++ (cs ++ ['>']))
  | pair {cs ds : List Char} (hcs : Phrase cs) (hds : Phrase ds) :
      Phrase (Head.opening .hashMap ++ (cs ++ separator ++ ds ++ ['>']))

variable {α : Type} {p a b r s : List α} {c : α}

/-- Where a list goes on with an element that the beginning `p` of a longer one does not have, the
list has this beginning itself. -/
theorem prefix_of_not_mem (hc : c ∉ p) (h : a ++ c :: s <+: p ++ r) : p <+: a := by
  induction p generalizing a with
  | nil => exact List.nil_prefix
  | cons x p ih =>
      cases a with
      | nil =>
          obtain ⟨rfl, -⟩ := List.cons_prefix_cons.mp h
          exact absurd List.mem_cons_self hc
      | cons y a =>
          obtain ⟨rfl, hrest⟩ := List.cons_prefix_cons.mp h
          have hp := ih (fun hmem => hc (List.mem_cons_of_mem _ hmem)) hrest
          exact List.cons_prefix_cons.mpr ⟨rfl, hp⟩

theorem eq_and_prefix_of_not_mem (ha : c ∉ a) (hb : c ∉ b) (h : a ++ c :: s <+: b ++ c :: r) :
    a = b ∧ s <+: r := by
  obtain ⟨t, ht⟩ := h
  rw [List.append_assoc, List.cons_append] at ht
  obtain ⟨hab, hst⟩ := Text.eq_and_eq_of_not_mem ha hb ht
  exact ⟨hab, t, hst⟩

namespace Head

variable {h h' : Head} {cs ds : List Char}

theorem eq_and_prefix_of_opening (hmem : h ∈ all) (hmem' : h' ∈ all)
    (hbegins : h.opening ++ cs <+: h'.opening ++ ds) : h = h' ∧ cs <+: ds := by
  simp only [opening, List.append_assoc, List.singleton_append] at hbegins
  obtain ⟨hname, hrest⟩ := eq_and_prefix_of_not_mem (bracket_not_mem_name hmem)
    (bracket_not_mem_name hmem') hbegins
  exact ⟨name_inj hmem hmem' (String.toList_inj.mp hname), hrest⟩

end Head

/-! ## Where a separator stands -/

variable {cs ds us vs : List Char} {n : Nat}

/-- A text that a separator follows in another one is this one or is followed there too. -/
theorem eq_or_prefix_of_separator (h : cs ++ separator <+: ds ++ separator) :
    cs = ds ∨ cs ++ separator <+: ds := by
  have hsplit : ds ++ separator = (ds ++ [',']) ++ [' '] := by simp [separator]
  rw [hsplit, List.prefix_concat_iff] at h
  rcases h with heq | h
  · left
    rw [← hsplit] at heq
    exact List.append_cancel_right heq
  · right
    rcases List.prefix_concat_iff.mp h with heq | h
    · have hlast := congrArg List.getLast? heq
      simp [separator] at hlast
    · exact h

/-- Two texts with a separator agree on the first of them, unless the separator stands within it
in one of the two. -/
theorem eq_and_prefix_of_separator (h : cs ++ separator ++ us <+: ds ++ separator ++ vs)
    (hcs : ¬ cs ++ separator <+: ds) (hds : ¬ ds ++ separator <+: cs) :
    cs = ds ∧ us <+: vs := by
  have hfirst : cs ++ separator <+: ds ++ separator ++ vs := (List.prefix_append _ us).trans h
  have heq : cs = ds := by
    rcases List.prefix_or_prefix_of_prefix hfirst (List.prefix_append _ vs) with h | h
    · exact (eq_or_prefix_of_separator h).resolve_right hcs
    · exact ((eq_or_prefix_of_separator h).resolve_right hds).symm
  subst heq
  exact ⟨rfl, (List.prefix_append_right_inj _).mp h⟩

/-- What follows closed brackets. -/
def closing (n : Nat) : List Char := List.replicate n '>' ++ separator

theorem getLast?_append_closing (cs : List Char) (n : Nat) :
    (cs ++ closing n).getLast? = some ' ' := by
  simp [closing, separator]

theorem exists_closing_eq_cons (n : Nat) :
    ∃ c rest, closing n = c :: rest ∧ (c = '>' ∨ c = ',') := by
  cases n with
  | zero => exact ⟨',', [' '], rfl, .inr rfl⟩
  | succ n => exact ⟨'>', closing n, rfl, .inl rfl⟩

/-- The last closed bracket of the longer text is not part of what follows the shorter one. -/
theorem prefix_of_prefix_closed (h : cs ++ ['>'] ++ closing n <+: ds ++ ['>']) :
    cs ++ closing (n + 1) <+: ds := by
  have hclosing : cs ++ ['>'] ++ closing n = cs ++ closing (n + 1) := by
    simp [closing, List.replicate_succ]
  rw [hclosing] at h
  rcases List.prefix_concat_iff.mp h with heq | h
  · have hlast := congrArg List.getLast? heq
    rw [getLast?_append_closing, List.getLast?_concat] at hlast
    cases hlast
  · exact h

theorem not_continued_word (hopening : ∀ h ∈ Head.all, ¬ h.opening <+: cs) {h : Head}
    (hmem : h ∈ Head.all) : ¬ cs ++ closing n <+: h.opening ++ ds := by
  intro hbegins
  obtain ⟨c, rest, hclosing, hc⟩ := exists_closing_eq_cons n
  rw [hclosing] at hbegins
  exact hopening h hmem (prefix_of_not_mem (Head.not_mem_opening hmem hc) hbegins)

/-- No text goes on with a separator in another one, nor with brackets that are closed first. -/
theorem Phrase.not_continued (hds : Phrase ds) (hcs : Phrase cs) (n : Nat) :
    ¬ cs ++ closing n <+: ds := by
  induction hlength : ds.length using Nat.strong_induction_on generalizing cs ds n with
  | _ length ih =>
    intro hbegins
    cases hds with
    | word _ hseparator =>
        have hsuffix : separator <:+ cs ++ closing n :=
          (List.suffix_append _ separator).trans (List.suffix_append cs _)
        exact hseparator (hsuffix.isInfix.trans hbegins.isInfix)
    | @apply h' ds' hmem' hne' hds' =>
      have hshorter : ds'.length < length := by simp [← hlength]; omega
      cases hcs with
      | word hopening _ => exact not_continued_word hopening hmem' hbegins
      | @apply h cs' hmem hne hcs' =>
          rw [List.append_assoc] at hbegins
          obtain ⟨-, hbegins⟩ := Head.eq_and_prefix_of_opening hmem hmem' hbegins
          exact ih _ hshorter hds' hcs' (n + 1) rfl (prefix_of_prefix_closed hbegins)
      | pair hcs' hus' =>
          rw [List.append_assoc] at hbegins
          exact hne' (Head.eq_and_prefix_of_opening (by decide) hmem' hbegins).1.symm
    | @pair ds' vs' hds' hvs' =>
      have hshorter : ds'.length < length := by simp [← hlength]; omega
      have hshorter' : vs'.length < length := by simp [← hlength]; omega
      cases hcs with
      | word hopening _ => exact not_continued_word hopening (by decide) hbegins
      | apply hmem hne hcs' =>
          rw [List.append_assoc] at hbegins
          exact hne (Head.eq_and_prefix_of_opening hmem (by decide) hbegins).1
      | @pair cs' us' hcs' hus' =>
          have hlonger : cs'.length < length := by
            have hle := hbegins.length_le
            rw [hlength] at hle
            simp at hle
            omega
          rw [List.append_assoc] at hbegins
          obtain ⟨-, hbegins⟩ :=
            Head.eq_and_prefix_of_opening (by decide) (by decide) hbegins
          simp only [List.append_assoc] at hbegins
          -- The first texts are the same, since neither goes on with a separator in the other.
          rw [← List.append_assoc cs', ← List.append_assoc ds'] at hbegins
          obtain ⟨-, hbegins⟩ := eq_and_prefix_of_separator hbegins
            (ih _ hshorter hds' hcs' 0 rfl) (ih _ hlonger hcs' hds' 0 rfl)
          rw [← List.append_assoc us'] at hbegins
          exact ih _ hshorter' hvs' hus' (n + 1) rfl (prefix_of_prefix_closed hbegins)

theorem Phrase.pair_inj (hcs : Phrase cs) (hds : Phrase ds)
    (h : cs ++ separator ++ us = ds ++ separator ++ vs) : cs = ds ∧ us = vs := by
  have hbegins : cs ++ separator ++ us <+: ds ++ separator ++ vs := h ▸ List.prefix_refl _
  obtain ⟨rfl, -⟩ := eq_and_prefix_of_separator hbegins
    (hds.not_continued hcs 0) (hcs.not_continued hds 0)
  exact ⟨rfl, List.append_cancel_left h⟩

/-! ## Legible names -/

/-- The types that are written as a word and are not declared. -/
def builtins : List TypeExpr :=
  [.string, .bool, .u8, .i16, .i32, .u32, .i64, .f32, .f64].map .scalar ++
    [.timestamp, .json, .param]

/-- The word of a type that is not declared, or the name of one that is applied to others. -/
def builtinNames : List String := builtins.map TypeExpr.text ++ Head.wrappers.map Head.name

/-- The name cannot be taken for another type, as a whole or at its beginning, nor for two
types. -/
structure Legible (ident : String) : Prop where
  not_builtin : ident ∉ builtins.map TypeExpr.text
  not_opening {h : Head} : h ∈ Head.all → ¬ h.opening <+: ident.toList
  not_separator : ¬ separator <:+: ident.toList

theorem Legible.phrase {ident : String} (h : Legible ident) : Phrase ident.toList :=
  .word (fun _ => h.not_opening) h.not_separator

/-- Neither a bracket nor a blank stands in the text. -/
def Plain (cs : List Char) : Prop := '<' ∉ cs ∧ ' ' ∉ cs

instance (cs : List Char) : Decidable (Plain cs) := inferInstanceAs (Decidable (_ ∧ _))

theorem Plain.not_opening {cs : List Char} (hcs : Plain cs) (h : Head) : ¬ h.opening <+: cs :=
  fun hbegins => hcs.1 (hbegins.subset (by simp [Head.opening]))

theorem Plain.not_separator {cs : List Char} (hcs : Plain cs) : ¬ separator <:+: cs :=
  fun hwithin => hcs.2 (hwithin.subset (by simp [separator]))

/-- Without brackets and blanks, a name is legible unless it is the word of another type. -/
theorem Plain.legible {ident : String} (hplain : Plain ident.toList)
    (hbuiltin : ident ∉ builtins.map TypeExpr.text) : Legible ident :=
  ⟨hbuiltin, fun {h} _ => hplain.not_opening h, hplain.not_separator⟩

end Emission

namespace TypeExpr

open Emission

variable {t t' c : TypeExpr} {h : Head}

/-- All declared names in the type are legible, and only families are applied to types. -/
structure IsLegible (t : TypeExpr) : Prop where
  legible {i : String} : i ∈ t.dependencies → Legible i
  family {f : String} {arg : TypeExpr} : .generic f arg ∈ t.parts → .family f ∈ Head.all

theorem IsLegible.child (ht : t.IsLegible) (hc : c ∈ t.children) : c.IsLegible where
  legible hi := ht.legible (dependencies_subset (mem_parts_of_child hc (mem_parts_self c)) hi)
  family hmem := ht.family (mem_parts_of_child hc hmem)

/-- What stands before the brackets in the text of a type. -/
def head? : TypeExpr → Option Head
  | .generic f _ => some (.family f)
  | .list _ => some .vec
  | .map _ _ => some .hashMap
  | .nullable _ => some .nullable
  | .hashRef _ => some .hashRef
  | .bitmask _ => some .bitmaskSet
  | .scalar _ | .timestamp | .json | .named _ | .param => none

/-- What stands between the brackets. -/
def inside : TypeExpr → List Char
  | .generic _ t | .list t | .nullable t => t.text.toList
  | .map k v => k.text.toList ++ separator ++ v.text.toList
  | .hashRef i | .bitmask i => i.toList
  | .scalar _ | .timestamp | .json | .named _ | .param => []

theorem toList_text_of_head? (hhead : t.head? = some h) :
    t.text.toList = h.opening ++ (t.inside ++ ['>']) := by
  cases t <;> cases hhead <;>
    simp [text, inside, separator, Head.opening, Head.name, String.toList_append]

theorem IsLegible.head_mem (ht : t.IsLegible) (hhead : t.head? = some h) : h ∈ Head.all := by
  cases t with
  | generic f arg =>
      cases hhead
      exact ht.family (mem_parts_self _)
  | list | map | nullable | hashRef | bitmask =>
      cases hhead
      decide
  | scalar | timestamp | json | named | param => cases hhead

/-- Where nothing stands in brackets, the type is declared or a word. -/
theorem named_or_mem_builtins (hhead : t.head? = none) :
    (∃ i, t = .named i) ∨ t ∈ builtins := by
  cases t with
  | named i => exact .inl ⟨i, rfl⟩
  | scalar k => cases k <;> exact .inr (by decide)
  | timestamp | json | param => exact .inr (by decide)
  | generic | list | map | nullable | hashRef | bitmask => cases hhead

theorem text_builtins_inj (ht : t ∈ builtins) (ht' : t' ∈ builtins) (h : t.text = t'.text) :
    t = t' := by
  have hinj : ∀ t ∈ builtins, ∀ t' ∈ builtins, t.text = t'.text → t = t' := by decide
  exact hinj t ht t' ht' h

theorem plain_of_mem_builtins (ht : t ∈ builtins) : Plain t.text.toList := by
  have hplain : ∀ t ∈ builtins, Plain t.text.toList := by decide
  exact hplain t ht

theorem IsLegible.phrase (ht : t.IsLegible) : Phrase t.text.toList := by
  induction t using children_induction with
  | node t ih =>
    cases hhead : t.head? with
    | none =>
        rcases named_or_mem_builtins hhead with ⟨i, rfl⟩ | hmem
        · exact (ht.legible (List.mem_singleton_self i)).phrase
        · have hplain := plain_of_mem_builtins hmem
          exact .word (fun h _ => hplain.not_opening h) hplain.not_separator
    | some h =>
        have hmem := ht.head_mem hhead
        have hchild (c : TypeExpr) (hc : c ∈ t.children) : Phrase c.text.toList :=
          ih c hc (ht.child hc)
        rw [toList_text_of_head? hhead]
        cases t with
        | map k v =>
            cases hhead
            exact .pair (hchild k (by simp [children])) (hchild v (by simp [children]))
        | generic _ c | list c | nullable c =>
            cases hhead
            exact .apply hmem Head.noConfusion (hchild c List.mem_cons_self)
        | hashRef i | bitmask i =>
            cases hhead
            exact .apply hmem Head.noConfusion (ht.legible (List.mem_singleton_self i)).phrase
        | scalar | timestamp | json | named | param => cases hhead

theorem IsLegible.not_opening (ht : t.IsLegible) (hhead : t.head? = none) (hmem : h ∈ Head.all) :
    ¬ h.opening <+: t.text.toList := by
  rcases named_or_mem_builtins hhead with ⟨i, rfl⟩ | hbuiltin
  · exact (ht.legible (List.mem_singleton_self i)).not_opening hmem
  · exact (plain_of_mem_builtins hbuiltin).not_opening h

/-- Equal texts have the same head. -/
theorem head?_eq_of_text_eq (ht : t.IsLegible) (ht' : t'.IsLegible) (htext : t.text = t'.text) :
    t.head? = t'.head? := by
  cases hhead : t.head? with
  | none =>
    cases hhead' : t'.head? with
    | none => rfl
    | some h' =>
        refine absurd ?_ (ht.not_opening hhead (ht'.head_mem hhead'))
        rw [htext, toList_text_of_head? hhead']
        exact List.prefix_append _ _
  | some h =>
    cases hhead' : t'.head? with
    | none =>
        refine absurd ?_ (ht'.not_opening hhead' (ht.head_mem hhead))
        rw [← htext, toList_text_of_head? hhead]
        exact List.prefix_append _ _
    | some h' =>
        have hbegins : t.text.toList <+: t'.text.toList := htext ▸ List.prefix_refl _
        rw [toList_text_of_head? hhead, toList_text_of_head? hhead'] at hbegins
        exact congrArg some
          (Head.eq_and_prefix_of_opening (ht.head_mem hhead) (ht'.head_mem hhead') hbegins).1

theorem inside_eq_of_text_eq (hhead : t.head? = some h) (hhead' : t'.head? = some h)
    (htext : t.text = t'.text) : t.inside = t'.inside := by
  have hchars := congrArg String.toList htext
  rw [toList_text_of_head? hhead, toList_text_of_head? hhead'] at hchars
  exact List.append_cancel_right (List.append_cancel_left hchars)

theorem eq_of_text_eq_of_head?_none (ht : t.IsLegible) (ht' : t'.IsLegible)
    (hhead : t.head? = none) (hhead' : t'.head? = none) (htext : t.text = t'.text) : t = t' := by
  rcases named_or_mem_builtins hhead with ⟨i, rfl⟩ | hmem
  · rcases named_or_mem_builtins hhead' with ⟨i', rfl⟩ | hmem'
    · exact congrArg named htext
    · refine absurd (List.mem_map.mpr ⟨t', hmem', htext.symm⟩) ?_
      exact (ht.legible (List.mem_singleton_self i)).not_builtin
  · rcases named_or_mem_builtins hhead' with ⟨i', rfl⟩ | hmem'
    · refine absurd (List.mem_map.mpr ⟨t, hmem, htext⟩) ?_
      exact (ht'.legible (List.mem_singleton_self i')).not_builtin
    · exact text_builtins_inj hmem hmem' htext

/-- The text of a type tells the type, where the names in it are legible. -/
theorem eq_of_text_eq (ht : t.IsLegible) (ht' : t'.IsLegible) (htext : t.text = t'.text) :
    t = t' := by
  induction t using children_induction generalizing t' with
  | node t ih =>
    have hheads := head?_eq_of_text_eq ht ht' htext
    cases hhead : t.head? with
    | none => exact eq_of_text_eq_of_head?_none ht ht' hhead (hheads ▸ hhead) htext
    | some h =>
      have hinside := inside_eq_of_text_eq hhead (hheads ▸ hhead) htext
      have hchild {c c' : TypeExpr} (hc : c ∈ t.children) (hc' : c' ∈ t'.children)
          (hchars : c.text.toList = c'.text.toList) : c = c' :=
        ih c hc (ht.child hc) (ht'.child hc') (String.toList_inj.mp hchars)
      cases t with
      | generic f c =>
        cases t' with
        | generic f' c' =>
            cases hheads
            exact congrArg (generic f) (hchild List.mem_cons_self List.mem_cons_self hinside)
        | _ => cases hheads
      | list c =>
        cases t' with
        | list c' => exact congrArg list (hchild List.mem_cons_self List.mem_cons_self hinside)
        | _ => cases hheads
      | nullable c =>
        cases t' with
        | nullable c' =>
            exact congrArg nullable (hchild List.mem_cons_self List.mem_cons_self hinside)
        | _ => cases hheads
      | map k v =>
        cases t' with
        | map k' v' =>
            have hk : k ∈ (map k v).children := List.mem_cons_self
            have hk' : k' ∈ (map k' v').children := List.mem_cons_self
            -- The separator of the two texts stands at the same place in both.
            obtain ⟨hkeys, hvalues⟩ :=
              (ht.child hk).phrase.pair_inj (ht'.child hk').phrase hinside
            exact congrArg₂ map (hchild hk hk' hkeys)
              (hchild (by simp [children]) (by simp [children]) hvalues)
        | _ => cases hheads
      | hashRef i =>
        cases t' with
        | hashRef i' => exact congrArg hashRef (String.toList_inj.mp hinside)
        | _ => cases hheads
      | bitmask i =>
        cases t' with
        | bitmask i' => exact congrArg bitmask (String.toList_inj.mp hinside)
        | _ => cases hheads
      | scalar | timestamp | json | named | param => cases hhead

end TypeExpr

namespace Bindings

open Emission

/-- The type is used, or is part of one that is. -/
def Occurs (b : Bindings) (t : TypeExpr) : Prop := ∃ u, b.Uses u ∧ t ∈ u.parts

/-- The builtin names that are not imported, so that a schema can be declared under them. -/
def unguarded : List String :=
  ["String", "bool", "u8", "i16", "i32", "u32", "f32", "f64", "T", "Vec"]

variable {b : Bindings} {scope : Scope} {t t' : TypeExpr}

section MadeFrom

variable (h : b.MadeFrom scope)
include h

theorem MadeFrom.declared_of_occurs (ht : b.Occurs t) {i : String} (hi : i ∈ t.dependencies) :
    ∃ d ∈ b.types, d.ident = i := by
  obtain ⟨u, hu, hmem⟩ := ht
  exact h.exists_declaration hu (TypeExpr.dependencies_subset hmem hi)

variable (hscope : scope.Indexed)
include hscope

theorem MadeFrom.isLegible (ht : b.Occurs t)
    (hlegible : ∀ i ∈ t.dependencies, Legible i) : t.IsLegible where
  legible hi := hlegible _ hi
  family hmem := by
    obtain ⟨u, hu, hpart⟩ := ht
    have hgeneric := TypeExpr.mem_parts_trans hmem hpart
    obtain ⟨f, hf⟩ := (h.founded hscope hu).family hgeneric
    obtain ⟨hall, rfl⟩ := Family.ofName?_eq_some_iff.mp hf
    exact List.mem_append_right _ (List.mem_map.mpr ⟨f, hall, rfl⟩)

theorem MadeFrom.eq_of_legible (ht : b.Occurs t) (ht' : b.Occurs t')
    (hlegible : ∀ i ∈ t.dependencies ++ t'.dependencies, Legible i) (htext : t.text = t'.text) :
    t = t' :=
  TypeExpr.eq_of_text_eq (h.isLegible hscope ht fun i hi => hlegible i (List.mem_append_left _ hi))
    (h.isLegible hscope ht' fun i hi => hlegible i (List.mem_append_right _ hi)) htext

end MadeFrom

/-- A builtin name that is declared is not imported. -/
theorem ident_mem_unguarded (hscope : scope.Indexed)
    (hindexable : NameIndex.Indexable scope.document.components.schemas.keys) {d : Declaration}
    (hd : scope.Declares d) (hbuiltin : d.ident ∈ builtinNames) : d.ident ∈ unguarded := by
  have hunguarded : ∀ name ∈ builtinNames, name ∉ importedNames → name ∈ unguarded := by decide
  exact hunguarded _ hbuiltin (hd.not_imported hscope hindexable)

/-- Where the declared names have neither brackets nor blanks, types that are written alike are the
same, or they mention an unguarded name. -/
theorem eq_or_unguarded {doc : Document} (h : ofDocument doc = .ok b)
    (hplain : ∀ d ∈ b.types, Plain d.ident.toList) (ht : b.Occurs t) (ht' : b.Occurs t')
    (htext : t.text = t'.text) :
    t = t' ∨ ∃ i ∈ t.dependencies ++ t'.dependencies, i ∈ unguarded := by
  obtain ⟨scope, hscope, hmade⟩ := madeFrom_of_ofDocument h
  have hindexable := Scope.indexable_of_ofDocument hscope
  obtain ⟨rfl, hindexed⟩ := Scope.indexed_of_ofDocument hscope
  refine or_iff_not_imp_right.mpr fun hnone => ?_
  refine hmade.eq_of_legible hindexed ht ht' (fun i hi => ?_) htext
  obtain ⟨d, hd, rfl⟩ : ∃ d ∈ b.types, d.ident = i :=
    (List.mem_append.mp hi).elim (hmade.declared_of_occurs ht) (hmade.declared_of_occurs ht')
  refine (hplain d hd).legible fun hbuiltin => hnone ⟨_, hi, ?_⟩
  exact ident_mem_unguarded hindexed hindexable (hmade.declares hd)
    (List.mem_append_left _ hbuiltin)

/-- Types of one module that are written alike are the same, unless a name in them is illegible;
and the builtin names that a module can declare are the unguarded ones. -/
theorem eq_or_illegible {doc : Document} (h : ofDocument doc = .ok b) :
    (∀ t t', b.Occurs t → b.Occurs t' → t.text = t'.text →
      t = t' ∨ ∃ i ∈ t.dependencies ++ t'.dependencies, ¬ Legible i) ∧
      ∀ d ∈ b.types, d.ident ∈ builtinNames → d.ident ∈ unguarded := by
  obtain ⟨scope, hscope, hmade⟩ := madeFrom_of_ofDocument h
  have hindexable := Scope.indexable_of_ofDocument hscope
  obtain ⟨rfl, hindexed⟩ := Scope.indexed_of_ofDocument hscope
  constructor
  · intro t t' ht ht' htext
    by_cases hlegible : ∀ i ∈ t.dependencies ++ t'.dependencies, Legible i
    · exact .inl (hmade.eq_of_legible hindexed ht ht' hlegible htext)
    · exact .inr (by simpa only [not_forall, exists_prop] using hlegible)
  · exact fun d hd => ident_mem_unguarded hindexed hindexable (hmade.declares hd)

/-- In the forest all names are legible. -/
theorem eq_or_illegible_forest :
    ofDocument forest = .ok forestBindings ∧
      ∀ t t', forestBindings.Occurs t → forestBindings.Occurs t' → t.text = t'.text → t = t' := by
  refine ⟨ofDocument_forest, fun t t' ht ht' htext => ?_⟩
  refine ((eq_or_illegible ofDocument_forest).1 t t' ht ht' htext).resolve_right ?_
  rintro ⟨i, hi, hillegible⟩
  obtain ⟨scope, -, hmade⟩ := madeFrom_of_ofDocument ofDocument_forest
  obtain ⟨d, hd, rfl⟩ : ∃ d ∈ forestBindings.types, d.ident = i :=
    (List.mem_append.mp hi).elim (hmade.declared_of_occurs ht) (hmade.declared_of_occurs ht')
  have hplain : ∀ d ∈ forestBindings.types,
      Plain d.ident.toList ∧ d.ident ∉ builtins.map TypeExpr.text := by decide
  exact hillegible ((hplain d hd).1.legible (hplain d hd).2)

/-! ## A schema that is called like a scalar -/

/-- An operation that is asked with a text and answers with a schema called `String`. -/
def namesake : Document where
  paths := Dict.ofList [("/A/", {
    summary := some "A"
    get := some { answering "#/components/schemas/String" with
      parameters := [{
        name := "q", location := "query", schema := some { type := some "string" } }] } })]
  components.schemas := Dict.ofList [("String", { type := some "object" })]

def namesakeBindings : Bindings where
  types := [⟨"String", "String", none, .openMap, none⟩]
  operations :=
    [{ name := "A"
       operationId := "A"
       method := .get
       path := "/A/"
       description := none
       deprecated := false
       scopes := []
       params := [⟨"q", "q", .query, .scalar .string, false, false, none⟩]
       body := none
       response := .named "String" }]

theorem ofDocument_namesake : ofDocument namesake = .ok namesakeBindings :=
  ofDocument_of_unsorted (by decide +kernel) (by decide)

theorem occurs_namesake :
    namesakeBindings.Occurs (.scalar .string) ∧ namesakeBindings.Occurs (.named "String") := by
  have hop : ∃ op ∈ namesakeBindings.operations, op.types = [.scalar .string, .named "String"] :=
    ⟨_, List.mem_singleton_self _, rfl⟩
  obtain ⟨op, hmem, htypes⟩ := hop
  have huses {t : TypeExpr} (ht : t ∈ op.types) : namesakeBindings.Occurs t :=
    ⟨t, .inl ⟨op, hmem, ht⟩, TypeExpr.mem_parts_self t⟩
  exact ⟨huses (by simp [htypes]), huses (by simp [htypes])⟩

/-- The parameter and the response are written alike and are not the same, since the schema is
called like a scalar. -/
theorem not_text_injective_namesake :
    ofDocument namesake = .ok namesakeBindings ∧
      (¬ ∀ t t', namesakeBindings.Occurs t → namesakeBindings.Occurs t' → t.text = t'.text →
        t = t') ∧
      ¬ ∀ d ∈ namesakeBindings.types, d.ident ∉ builtinNames := by
  refine ⟨ofDocument_namesake, fun hinj => ?_, by decide⟩
  have heq := hinj _ _ occurs_namesake.1 occurs_namesake.2 rfl
  cases heq

end Bindings
end Bindery
