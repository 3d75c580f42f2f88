import Bindery.Emission.DeclarationText
import Bindery.Proofs.Json.Numerals
import Bindery.Proofs.Quotation

/-! # The name lookup of an enumeration

The name of a number is looked up by a match over numerals, which tries its arms in their order.  Of the
values with one text only the first has an arm, but numbers have many texts, so that a later arm can be for
the number of an earlier one.  An enumeration's source is read as one list of arms only
(`Emission.Arms.unique`), with one arm for each text, and the first arm for a number names the first value
that has it, as no property of the texts alone tells the arms from the values
(`Emission.find?_distinctLiterals`, `Declaration.nameLookup_exact`). -/

namespace Bindery

open Naming Text

namespace Emission

/-! ## The arms of a match -/

/-- What a match gives for the number of a numeral. -/
@[ext]
structure Arm where
  literal : String
  identifier : String
deriving DecidableEq, Repr

/-- How the function begins that looks a name up. -/
def lookupHead : String :=
  "    pub fn name(self) -> Option<&'static str> \x7b\n        match self.0 \x7b\n"

/-- The arm for all numbers that no other arm has. -/
def otherwiseText : String := "            _ => None,\n"

def armIndent : List Char := "            ".toList

/-- The characters are an arm, from a numeral to an identifier between quotes. -/
def IsArm (a : Arm) (cs : List Char) : Prop :=
  ∃ i raw, IsNumeral a.literal.toList i ∧ Escapes raw a.identifier.toList ∧
    cs = armIndent ++ (a.literal.toList ++ (" => Some(".toList ++ ('"' :: raw ++ '"' :: "),\n".toList)))

/-- The text of a match goes on with the arms, and with the one for all other numbers behind them. -/
inductive Arms : List Char → List Arm → Prop
  | otherwise (rest) : Arms (otherwiseText.toList ++ rest) []
  | arm {a cs text arms} (ha : IsArm a cs) (h : Arms text arms) : Arms (cs ++ text) (a :: arms)

variable {a b : Arm} {cs ds x y text : List Char} {arms arms' : List Arm}

theorem IsArm.append_ne_otherwise (ha : IsArm a cs) : cs ++ x ≠ otherwiseText.toList ++ y := by
  obtain ⟨i, raw, hnumeral, hraw, rfl⟩ := ha
  intro heq
  have hsome : " => Some(".toList = ' ' :: "=> Some(".toList := rfl
  have hotherwise : otherwiseText.toList = armIndent ++ ['_'] ++ ' ' :: "=> None,\n".toList := rfl
  rw [hsome, hotherwise] at heq
  simp only [List.append_assoc, List.cons_append, List.append_cancel_left_eq] at heq
  -- The blank behind the underscore would be the one that ends the numeral.
  have hmark : '_' ∉ a.literal.toList := hnumeral.not_mem (by decide)
  have hblank : ' ' ∉ ['_'] := by decide
  obtain ⟨hliteral, -⟩ := eq_and_eq_of_not_mem (hnumeral.not_mem (by decide)) hblank heq
  exact hmark (hliteral ▸ List.mem_singleton_self _)

/-- Whatever follows, an arm is told by its characters. -/
theorem IsArm.eq_and_eq (ha : IsArm a cs) (hb : IsArm b ds) (heq : cs ++ x = ds ++ y) : a = b ∧ x = y := by
  obtain ⟨i, raw, hnumeral, hraw, rfl⟩ := ha
  obtain ⟨j, raw', hnumeral', hraw', rfl⟩ := hb
  have hsome : " => Some(".toList = ' ' :: "=> Some(".toList := rfl
  rw [hsome] at heq
  simp only [List.append_assoc, List.cons_append, List.append_cancel_left_eq] at heq
  obtain ⟨hliteral, heq⟩ :=
    eq_and_eq_of_not_mem (hnumeral.not_mem (by decide)) (hnumeral'.not_mem (by decide)) heq
  rw [List.append_cancel_left_eq, List.cons.injEq] at heq
  obtain ⟨hidentifier, heq⟩ := hraw.eq_and_eq hraw' heq.2
  exact ⟨Arm.ext (String.toList_inj.mp hliteral) (String.toList_inj.mp hidentifier),
    List.append_cancel_left heq⟩

/-- A text is read as one list of arms only. -/
theorem Arms.unique (h : Arms text arms) (h' : Arms text arms') : arms = arms' := by
  generalize htext : text = text' at h'
  induction h generalizing text' arms' with
  | otherwise rest =>
      cases h' with
      | otherwise _ => rfl
      | arm hb _ => exact absurd htext.symm hb.append_ne_otherwise
  | arm ha _ ih =>
      cases h' with
      | otherwise _ => exact absurd htext ha.append_ne_otherwise
      | arm hb h' =>
          obtain ⟨rfl, htext⟩ := ha.eq_and_eq hb htext
          rw [ih _ htext h']

/-! ## The arms of values -/

variable {v : NamedValue} {values : List NamedValue} {seen : List String}

def armOf (v : NamedValue) : Arm := ⟨v.literal, v.identifier⟩

theorem isArm_armText {i : Int} (h : IsNumeral v.literal.toList i) : IsArm (armOf v) (armText v).toList := by
  refine ⟨i, _, h, escapes_flatMap_quotedChar v.identifier.toList, ?_⟩
  have hquoted : (quoted v.identifier).toList = '"' :: v.identifier.toList.flatMap quotedChar ++ ['"'] := by
    rw [quoted, String.toList_ofList, quotedChars]
  unfold armText armIndent armOf
  simp only [String.toList_append, hquoted, List.append_assoc, List.cons_append, List.nil_append]

/-- What is emitted for values is read as their arms. -/
theorem arms_join_armText (values : List NamedValue)
    (h : ∀ v ∈ values, ∃ i, IsNumeral v.literal.toList i) (rest : List Char) :
    Arms ((String.join (values.map armText)).toList ++ (otherwiseText.toList ++ rest)) (values.map armOf) := by
  induction values with
  | nil => exact .otherwise rest
  | cons v values ih =>
      obtain ⟨⟨i, hi⟩, hvalues⟩ := List.forall_mem_cons.mp h
      rw [List.map_cons, List.map_cons, String.join_cons, String.toList_append, List.append_assoc]
      exact .arm (isArm_armText hi) (ih hvalues)

/-! ## The values that have arms -/

theorem distinctLiterals_sublist (seen : List String) (values : List NamedValue) :
    (distinctLiterals seen values).Sublist values := by
  induction values generalizing seen with
  | nil => exact .slnil
  | cons w values ih =>
      rw [distinctLiterals]
      split
      · exact (ih seen).cons w
      · exact (ih _).cons_cons w

theorem literal_not_mem_seen (h : v ∈ distinctLiterals seen values) : v.literal ∉ seen := by
  induction values generalizing seen with
  | nil => cases h
  | cons w values ih =>
      rw [distinctLiterals] at h
      split at h
      · exact ih h
      · rename_i hw
        rcases List.mem_cons.mp h with rfl | h
        · exact fun hv => hw (List.contains_iff_mem.mpr hv)
        · exact fun hv => ih h (List.mem_cons_of_mem _ hv)

/-- No text has two arms. -/
theorem nodup_distinctLiterals (seen : List String) (values : List NamedValue) :
    ((distinctLiterals seen values).map NamedValue.literal).Nodup := by
  induction values generalizing seen with
  | nil => exact List.nodup_nil
  | cons w values ih =>
      rw [distinctLiterals]
      split
      · exact ih seen
      · rw [List.map_cons, List.nodup_cons]
        refine ⟨fun hmem => ?_, ih _⟩
        obtain ⟨v, hv, hliteral⟩ := List.mem_map.mp hmem
        exact literal_not_mem_seen hv (hliteral ▸ List.mem_cons_self)

/-- What is searched for by the text alone is found where it first stands. -/
theorem find?_distinctLiterals {p : String → Bool} (h : ∀ s ∈ seen, p s = false) :
    (distinctLiterals seen values).find? (fun v => p v.literal) = values.find? fun v => p v.literal := by
  induction values generalizing seen with
  | nil => rfl
  | cons w values ih =>
      rw [distinctLiterals]
      split
      · -- The search has passed the text before.
        rename_i hw
        have hpassed : p w.literal = false := h _ (List.contains_iff_mem.mp hw)
        rw [ih h, List.find?_cons, hpassed]
      · rw [List.find?_cons, List.find?_cons]
        cases hw : p w.literal with
        | true => rfl
        | false => exact ih (List.forall_mem_cons.mpr ⟨hw, h⟩)

/-- Every text of a value has an arm, and no other text has one. -/
theorem mem_distinctLiterals_iff {s : String} :
    s ∈ (distinctLiterals [] values).map NamedValue.literal ↔ s ∈ values.map NamedValue.literal := by
  have hfound {l : List NamedValue} :
      s ∈ l.map NamedValue.literal ↔ (l.find? fun v => v.literal == s).isSome = true := by
    simp only [List.find?_isSome, List.mem_map, beq_iff_eq]
  rw [hfound, hfound, find?_distinctLiterals (p := (· == s)) (List.forall_mem_nil _)]

/-! ## Source -/

theorem exists_enumText_eq (ident : String) (number : Scalar) (values : List NamedValue) :
    ∃ front rest, enumText ident number values = front ++ (lookupHead ++
      (String.join ((distinctLiterals [] values).map armText) ++ (otherwiseText ++ rest))) := by
  have hhead : lookupHead =
      "    pub fn name(self) -> Option<&'static str> \x7b\n" ++ "        match self.0 \x7b\n" := rfl
  have hotherwise : "            _ => None,\n        \x7d\n    \x7d\n\x7d\n\n" =
      otherwiseText ++ "        \x7d\n    \x7d\n\x7d\n\n" := rfl
  unfold enumText
  rw [hhead, hotherwise]
  -- What stands before the function plays no part, constants included.
  generalize (_ ++ "    /// Identifier of a declared value.\n" : String) = front
  simp only [String.append_assoc]
  exact ⟨front, _, rfl⟩

end Emission

namespace Declaration

open Emission

variable {d : Declaration} {number : Scalar} {values : List NamedValue}

/-- The name lookup of an enumeration has one arm for each text of a value, and its first arm for a number
names the first value that has the number: there is none where no value has it.  Another arm for the number
may stand behind that one, with another text. -/
theorem nameLookup_exact (hshape : d.shape = .enumeration number values)
    (hnumeral : ∀ v ∈ values, ∃ i, IsNumeral v.literal.toList i) :
    ∃ front lookup arms, d.text = front ++ (lookupHead ++ lookup) ∧
      (∀ as, Arms lookup.toList as ↔ as = arms) ∧
      (arms.map Arm.literal).Nodup ∧
      (∀ s, s ∈ arms.map Arm.literal ↔ s ∈ values.map NamedValue.literal) ∧
      ∀ n, (arms.find? fun a => IsNumeral a.literal.toList n).map Arm.identifier =
        (values.find? fun v => IsNumeral v.literal.toList n).map NamedValue.identifier := by
  obtain ⟨front, rest, henum⟩ := exists_enumText_eq d.ident number values
  have htext : d.text = docComment d.description "" ++ enumText d.ident number values := by
    rw [text, hshape]
  have hread := arms_join_armText (distinctLiterals [] values)
    (fun v hv => hnumeral v ((distinctLiterals_sublist [] values).subset hv)) rest.toList
  rw [← String.toList_append, ← String.toList_append] at hread
  have hliterals : ((distinctLiterals [] values).map armOf).map Arm.literal =
      (distinctLiterals [] values).map NamedValue.literal := List.map_map
  refine ⟨docComment d.description "" ++ front, _, (distinctLiterals [] values).map armOf, ?_,
    fun as => ⟨fun h => h.unique hread, fun h => h ▸ hread⟩, ?_, fun s => ?_, fun n => ?_⟩
  · rw [htext, henum, String.append_assoc]
  · exact hliterals ▸ nodup_distinctLiterals [] values
  · rw [hliterals, mem_distinctLiterals_iff]
  · rw [List.find?_map, Option.map_map]
    exact congrArg _ (find?_distinctLiterals (p := fun s => IsNumeral s.toList n) (List.forall_mem_nil _))

/-! ## A dial

Two of its values have one text, and two more texts are for numbers that have one already. -/

def dialValues : List NamedValue :=
  [⟨"One", "ONE", "1", some "Once."⟩, ⟨"Uno", "UNO", "01", none⟩, ⟨"Alias", "ALIAS", "1", none⟩,
   ⟨"\"Off\"\n", "OFF", "-0", none⟩, ⟨"Zero", "ZERO", "0", none⟩]

def dial : Declaration where
  ident := "Dial"
  schema := "Dial"
  description := none
  shape := .enumeration .i32 dialValues
  table := none

theorem nameLookup_exact_dial :
    dial.shape = .enumeration .i32 dialValues ∧
      (∀ v ∈ dialValues, ∃ i, IsNumeral v.literal.toList i) ∧
      ∃ front lookup arms, dial.text = front ++ (lookupHead ++ lookup) ∧
        (∀ as, Arms lookup.toList as ↔ as = arms) ∧ (arms.map Arm.literal).Nodup ∧
        "1" ∈ arms.map Arm.literal ∧ "01" ∈ arms.map Arm.literal ∧
        (arms.find? fun a => IsNumeral a.literal.toList 1).map Arm.identifier = some "One" ∧
        (arms.find? fun a => IsNumeral a.literal.toList 0).map Arm.identifier = some "\"Off\"\n" ∧
        (arms.find? fun a => IsNumeral a.literal.toList 2).map Arm.identifier = none := by
  have hnumeral : ∀ v ∈ dialValues, ∃ i, IsNumeral v.literal.toList i := by
    have hnumbers : ∀ v ∈ dialValues, IsNumeral v.literal.toList 0 ∨ IsNumeral v.literal.toList 1 := by decide
    exact fun v hv => (hnumbers v hv).elim (⟨0, ·⟩) (⟨1, ·⟩)
  obtain ⟨front, lookup, arms, htext, hread, hnodup, hmem, hfind⟩ := nameLookup_exact (d := dial) rfl hnumeral
  refine ⟨rfl, hnumeral, front, lookup, arms, htext, hread, hnodup, ?_, ?_, ?_, ?_, ?_⟩
  · exact (hmem _).mpr (by decide)
  · exact (hmem _).mpr (by decide)
  · rw [hfind]; decide
  · rw [hfind]; decide
  · rw [hfind]; decide

end Declaration
end Bindery
