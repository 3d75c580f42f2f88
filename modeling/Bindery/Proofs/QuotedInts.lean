import Bindery.Proofs.Json.Tokens
import Bindery.Proofs.Wire

/-! # The texts of a 64-bit integer

A 64-bit integer is read from the texts that denote it and from no others: its token, and a string of a numeral
for it with any quotes around that (`QuotedInt.decode_run_iff`).  Of these texts one is written, the token
between quotes, and all that is written is read back, as a value and as a key (`QuotedInt.decode_exact`). -/

namespace Bindery

open Json Json.Decoder Text Utf8

/-! ## Characters around a text -/

namespace Text

theorem dropWhile_replicate_append (x : Char) (n : Nat) (cs : List Char) :
    (List.replicate n x ++ cs).dropWhile (· == x) = cs.dropWhile (· == x) :=
  List.dropWhile_append_of_pos fun _ h => beq_iff_eq.mpr (List.eq_of_mem_replicate h)

theorem trimChar_replicate_append {x : Char} {cs : List Char} (h : x ∉ cs) (m n : Nat) :
    trimChar x (List.replicate m x ++ (cs ++ List.replicate n x)) = cs := by
  rw [trimChar, dropWhile_replicate_append]
  rcases cs with _ | ⟨c, cs⟩
  · rw [List.nil_append, ← List.append_nil (List.replicate n x), dropWhile_replicate_append]
    rfl
  · have hc : ¬ (c == x) = true := fun heq => h (beq_iff_eq.mp heq ▸ List.mem_cons_self)
    rw [List.cons_append, List.dropWhile_cons_of_neg (p := (· == x)) hc, ← List.cons_append, List.reverse_append,
      List.reverse_replicate, dropWhile_replicate_append, dropWhile_of_not_mem (by rwa [List.mem_reverse]),
      List.reverse_reverse]

/-- What is stripped from a text stood at its ends. -/
theorem exists_of_trimChar (x : Char) (cs : List Char) :
    ∃ m n, cs = List.replicate m x ++ (trimChar x cs ++ List.replicate n x) := by
  have hsplit (ds : List Char) : ∃ k, ds = List.replicate k x ++ ds.dropWhile (· == x) := by
    have hfront : ds.takeWhile (· == x) = List.replicate (ds.takeWhile (· == x)).length x :=
      List.eq_replicate_of_mem fun d hd => beq_iff_eq.mp (List.mem_takeWhile_imp (p := (· == x)) hd)
    exact ⟨_, by rw [← hfront, List.takeWhile_append_dropWhile]⟩
  obtain ⟨m, hm⟩ := hsplit cs
  obtain ⟨n, hn⟩ := hsplit (cs.dropWhile (· == x)).reverse
  refine ⟨m, n, ?_⟩
  have hrev := congrArg List.reverse hn
  rw [List.reverse_reverse, List.reverse_append, List.reverse_replicate] at hrev
  exact hm.trans (congrArg _ hrev)

end Text

namespace QuotedInt

/-- The text is a numeral of the number, with any quotes around it. -/
def IsQuoted (cs : List Char) (i : Int) : Prop :=
  ∃ m n body, cs = List.replicate m '"' ++ (body ++ List.replicate n '"') ∧ IsNumeral body i

/-- The value of a JSON text denotes the number, as its token or in a string. -/
inductive Denotes (i : Int) : List Char → Prop
  | token {token} (h : IsIntegerToken token i) (hne : token ≠ ['-', '0']) : Denotes i token
  | string {raw cs} (hspells : Spells raw cs) (hquoted : IsQuoted cs i) : Denotes i ('"' :: (raw ++ ['"']))

/-! ## Decoding -/

theorem range_contains_iff {i : Int} : range.contains i = true ↔ -(2 ^ 63) ≤ i ∧ i < 2 ^ 63 := by
  rw [contains_iff]
  exact Iff.and .rfl Int.le_sub_one_iff

theorem isQuoted_iff {cs : List Char} {i : Int} : IsQuoted cs i ↔ IsNumeral (trimChar '"' cs) i := by
  constructor
  · rintro ⟨m, n, body, rfl, hbody⟩
    have hquote : '"' ∉ body := hbody.not_mem (by decide)
    rwa [trimChar_replicate_append hquote]
  · intro h
    obtain ⟨m, n, hcs⟩ := exists_of_trimChar '"' cs
    exact ⟨m, n, _, hcs, h⟩

theorem ofInt?_eq_some_iff {i : Int} {q : QuotedInt} : ofInt? i = some q ↔ q.val = i := by
  constructor
  · intro h
    rw [ofInt?] at h
    split at h
    · rw [← Option.some.inj h]
    · cases h
  · rintro rfl
    exact dif_pos q.inRange

theorem ofText_eq_ok_iff {s : String} {q : QuotedInt} : ofText s = .ok q ↔ IsQuoted s.toList q.val := by
  have hread {i : Int} : readInteger range (trimChar '"' s.toList) = .ok i ↔
      IsQuoted s.toList i ∧ range.contains i = true := by
    rw [isQuoted_iff]
    exact readInteger_eq_ok_iff (by decide) (by decide)
  rw [ofText]
  split
  · rename_i hfault
    refine iff_of_false (by rintro ⟨⟩) fun hquoted => ?_
    rw [hread.mpr ⟨hquoted, q.inRange⟩] at hfault
    cases hfault
  · rename_i i hi
    obtain ⟨hquoted, hrange⟩ := hread.mp hi
    have hint : ofInt? i = some ⟨i, hrange⟩ := dif_pos hrange
    simp only [hint, Except.ok.injEq]
    constructor
    · rintro rfl
      exact hquoted
    · intro hq
      have hval := Except.ok.inj (hi.symm.trans (hread.mpr ⟨hq, q.inRange⟩))
      cases q
      cases hval
      rfl

theorem ofString_eq_ok_iff {s : String} {q : QuotedInt} : ofString s = .ok q ↔ IsQuoted s.toList q.val := by
  rw [← ofText_eq_ok_iff, ofString]
  cases ofText s <;> simp [fail]

/-- A number is read from its own number text, or from a string of it. -/
theorem decode_eq_ok_iff {n : Nat} {t : Tree} {q : QuotedInt} : QuotedInt.decode n t = .ok q ↔
    (∃ text, t = .number text ∧ numberValue text = .ok (.whole q.val)) ∨
      ∃ content cs, t = .string content ∧ unescape content = some cs ∧ IsQuoted cs q.val := by
  cases t with
  | number text =>
      simp only [QuotedInt.decode, bind_eq_ok]
      constructor
      · rintro ⟨x, hx, h⟩
        cases x with
        | whole i =>
            dsimp only at h
            split at h
            · rename_i q' hq
              obtain rfl := Except.ok.inj h
              exact .inl ⟨text, rfl, by rw [hx, ofInt?_eq_some_iff.mp hq]⟩
            · cases h
        | double x => cases h
      · rintro (⟨_, heq, hx⟩ | ⟨_, _, ⟨⟩, -⟩)
        obtain rfl := Tree.number.inj heq
        exact ⟨_, hx, by simp only [ofInt?_eq_some_iff.mpr rfl]⟩
  | string content =>
      simp only [QuotedInt.decode, bind_eq_ok, stringText_eq_ok_iff, ofString_eq_ok_iff]
      constructor
      · rintro ⟨s, hs, hquoted⟩
        exact .inr ⟨content, _, rfl, hs, hquoted⟩
      · rintro (⟨_, ⟨⟩, -⟩ | ⟨_, cs, heq, hcs, hquoted⟩)
        obtain rfl := Tree.string.inj heq
        exact ⟨String.ofList cs, by rwa [String.toList_ofList], by rwa [String.toList_ofList]⟩
  | null | bool | broken => exact iff_of_false (by rintro ⟨⟩) (by rintro (⟨_, ⟨⟩, -⟩ | ⟨_, _, ⟨⟩, -⟩))
  | array | object =>
      refine iff_of_false ?_ (by rintro (⟨_, ⟨⟩, -⟩ | ⟨_, _, ⟨⟩, -⟩))
      cases n <;> rintro ⟨⟩

theorem decode_run_iff {s : Received} {q : QuotedInt} :
    (Wire.decode : Decoder QuotedInt).run s = .ok q ↔ ∃ text, Denotes q.val text ∧ HoldsOnly text s := by
  have hrange := range_contains_iff.mp q.inRange
  rw [run_eq_ok_iff]
  constructor
  · rintro ⟨t, hread, hdecode⟩
    rcases decode_eq_ok_iff.mp hdecode with ⟨text, rfl, hvalue⟩ | ⟨content, cs, rfl, hcs, hquoted⟩
    · obtain ⟨token, htoken, hne, -, -, hholds⟩ := read_number_iff.mp ⟨text, hread, hvalue⟩
      exact ⟨token, .token htoken hne, hholds⟩
    · obtain ⟨raw, hspells, hholds⟩ := read_string_iff.mp ⟨content, hread, hcs⟩
      exact ⟨_, .string hspells hquoted, hholds⟩
  · rintro ⟨text, hdenotes, hholds⟩
    cases hdenotes with
    | token htoken hne =>
        obtain ⟨text, hread, hvalue⟩ :=
          read_number_iff.mpr ⟨text, htoken, hne, hrange.1, by omega, hholds⟩
        exact ⟨_, hread, decode_eq_ok_iff.mpr (.inl ⟨text, rfl, hvalue⟩)⟩
    | @string raw cs hspells hquoted =>
        obtain ⟨content, hread, hcs⟩ := read_string_iff.mpr ⟨raw, hspells, hholds⟩
        exact ⟨_, hread, decode_eq_ok_iff.mpr (.inr ⟨content, cs, rfl, hcs, hquoted⟩)⟩

/-! ## Encoding -/

theorem text_encode (q : QuotedInt) : (Wire.encode q).text = "\"" ++ decimal q.val ++ "\"" := by
  refine String.toList_inj.mp ?_
  have hsource : (Wire.encode q).source = ('"' :: (decimalChars q.val ++ ['"'])).map some := by
    rw [show (Wire.encode q).source = some '"' :: (escape (decimal q.val) ++ [some '"']) by rfl,
      escape_decimal]
    simp
  rw [Tree.text, hsource]
  simp [decimal]

theorem depth_ofMembers {es : List (String × Tree)} (h : ∀ e ∈ es, e.2.depth = 0) :
    (Tree.ofMembers es).depth = 0 := by
  induction es with
  | nil => rfl
  | cons e es ih =>
      rw [Tree.ofMembers, Members.depth, h e List.mem_cons_self, ih fun e' he' => h e' (List.mem_cons_of_mem _ he')]
      rfl

theorem runText_encode (q : QuotedInt) :
    (Wire.decode : Decoder QuotedInt).runText (Wire.encode q).text = .ok q := by
  rw [runText, run_eq_runWithin, undoes.runWithin_text]
  exact within_zero _ _

theorem runText_encode_dict (d : Dict QuotedInt QuotedInt) :
    (Wire.decode : Decoder (Dict QuotedInt QuotedInt)).runText (Wire.encode d).text = .ok d := by
  have hdepth : (Wire.encode d).depth = 1 := by
    refine congrArg (· + 1) (depth_ofMembers fun e he => ?_)
    obtain ⟨_, -, rfl⟩ := List.mem_map.mp he
    rfl
  rw [runText, run_eq_runWithin, (undoes_dict undoes).runWithin_text, hdepth, Dict.mapValues_id]
  rfl

/-- A number of 64 bits is read from exactly the texts that denote it, and from no other text is anything read.
It is written in quotes as its one token, and read back from that, as a value and as a key. -/
theorem decode_exact :
    (∀ (s : Received) (i : Int),
      (∃ q : QuotedInt, (Wire.decode : Decoder QuotedInt).run s = .ok q ∧ q.val = i) ↔
        -(2 ^ 63) ≤ i ∧ i < 2 ^ 63 ∧ ∃ text, Denotes i text ∧ HoldsOnly text s) ∧
    (∀ q : QuotedInt, (Wire.encode q).text = "\"" ++ decimal q.val ++ "\"" ∧
      ∀ cs, cs = (decimal q.val).toList ↔ IsIntegerToken cs q.val ∧ cs ≠ ['-', '0']) ∧
    (∀ q : QuotedInt, (Wire.decode : Decoder QuotedInt).runText (Wire.encode q).text = .ok q ∧
      key (escape q.text) true = .ok q) ∧
    ∀ d : Dict QuotedInt QuotedInt,
      (Wire.decode : Decoder (Dict QuotedInt QuotedInt)).runText (Wire.encode d).text = .ok d := by
  refine ⟨fun s i => ⟨?_, ?_⟩, fun q => ⟨text_encode q, fun cs => ?_⟩,
    fun q => ⟨runText_encode q, key_escape q⟩, runText_encode_dict⟩
  · rintro ⟨q, hrun, rfl⟩
    obtain ⟨hleast, hgreatest⟩ := range_contains_iff.mp q.inRange
    exact ⟨hleast, hgreatest, decode_run_iff.mp hrun⟩
  · rintro ⟨hleast, hgreatest, htext⟩
    exact ⟨⟨i, range_contains_iff.mpr ⟨hleast, hgreatest⟩⟩, decode_run_iff.mpr htext, rfl⟩
  · rw [decimal, String.toList_ofList]
    constructor
    · rintro rfl
      exact ⟨isIntegerToken_decimalChars _, decimalChars_ne_minus_zero _⟩
    · rintro ⟨htoken, hne⟩
      exact htoken.eq_decimalChars hne

example : ((Wire.decode : Decoder QuotedInt).runText " \"\\\"+007\\u0022\"").map val = .ok 7 := rfl

end QuotedInt
end Bindery
