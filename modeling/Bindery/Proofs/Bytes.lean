import Bindery.Text.Utf8
import Mathlib.Data.String.Basic
import Mathlib.Tactic.Common

/-! # The bytes of a text

A text is read back from its bytes (`Utf8.decode?_encode`), and texts stand in the order of their bytes
(`Utf8.encode_lt_encode`): of two characters the greater one is the one that has the greater byte where
their bytes first differ (`Utf8.precedes_utf8EncodeChar`). -/

namespace Bindery.Utf8

variable {a b e f x y : UInt8} {as bs rest : List UInt8} {c d : Char} {m n : Nat}

theorem toNat_ofNat_of_lt (h : n < 256) : (UInt8.ofNat n).toNat = n := by
  rw [UInt8.toNat_ofNat']
  exact Nat.mod_eq_of_lt h

theorem toNat_val_lt (c : Char) : c.val.toNat < 0x110000 := by
  have h := c.valid
  simp only [UInt32.isValidChar, Nat.isValidChar] at h
  omega

theorem encodeChars_cons (c : Char) (cs : List Char) :
    encodeChars (c :: cs) = String.utf8EncodeChar c ++ encodeChars cs := List.flatMap_cons

/-! ## Reading back -/

theorem scalar?_toNat (c : Char) : scalar? c.val.toNat = some c := by
  rw [scalar?, dif_pos c.valid]
  rfl

theorem isTail_ofNat (h : n < 64) : isTail (UInt8.ofNat (n + 128)) = true := by
  have hn : (UInt8.ofNat (n + 128)).toNat = n + 128 := toNat_ofNat_of_lt (by omega)
  have hmax : n + 128 ≤ 191 := by omega
  simp only [isTail, Bool.and_eq_true, decide_eq_true_eq, UInt8.le_iff_toNat_le, hn]
  exact ⟨Nat.le_add_left 128 n, hmax⟩

theorem tailBits_ofNat (h : n < 64) : tailBits (UInt8.ofNat (n + 128)) = n := by
  unfold tailBits
  exact Nat.sub_eq_of_eq_add (toNat_ofNat_of_lt (by omega))

theorem first?_of_one (ha : a.toNat < 0x80) :
    first? (a :: rest) = (scalar? a.toNat).map (·, 0) := by
  have hone : a < 0x80 := by simpa [UInt8.lt_iff_toNat_lt] using ha
  dsimp only [first?]
  rw [if_pos hone]

theorem first?_of_two (ha : 0xc2 ≤ a.toNat ∧ a.toNat ≤ 0xdf) (hb : isTail b = true) :
    first? (a :: b :: rest) = (scalar? ((a.toNat - 0xc0) * 0x40 + tailBits b)).map (·, 1) := by
  have hone : ¬ a < 0x80 := by
    simp [UInt8.lt_iff_toNat_lt]
    omega
  have htwo : (0xc2 ≤ a && a ≤ 0xdf) = true := by
    simpa [UInt8.le_iff_toNat_le] using ha
  dsimp only [first?]
  rw [if_neg hone, if_pos htwo, if_pos hb]

theorem first?_of_three (ha : 0xe0 ≤ a.toNat ∧ a.toNat ≤ 0xef) (hb : isTail b = true)
    (he : isTail e = true) (hn : (a.toNat - 0xe0) * 0x1000 + tailBits b * 0x40 + tailBits e = n)
    (hmin : 0x800 ≤ n) : first? (a :: b :: e :: rest) = (scalar? n).map (·, 2) := by
  have hone : ¬ a < 0x80 := by
    simp [UInt8.lt_iff_toNat_lt]
    omega
  have htwo : ¬ (0xc2 ≤ a && a ≤ 0xdf) = true := by
    simp [UInt8.le_iff_toNat_le]
    omega
  have hthree : (0xe0 ≤ a && a ≤ 0xef) = true := by
    simpa [UInt8.le_iff_toNat_le] using ha
  dsimp only [first?]
  rw [if_neg hone, if_neg htwo, if_pos hthree]
  simp [hb, he, hn, hmin]

theorem first?_of_four (ha : 0xf0 ≤ a.toNat ∧ a.toNat ≤ 0xf4) (hb : isTail b = true)
    (he : isTail e = true) (hf : isTail f = true)
    (hn : (a.toNat - 0xf0) * 0x40000 + tailBits b * 0x1000 + tailBits e * 0x40 + tailBits f = n)
    (hmin : 0x10000 ≤ n) : first? (a :: b :: e :: f :: rest) = (scalar? n).map (·, 3) := by
  have hone : ¬ a < 0x80 := by
    simp [UInt8.lt_iff_toNat_lt]
    omega
  have htwo : ¬ (0xc2 ≤ a && a ≤ 0xdf) = true := by
    simp [UInt8.le_iff_toNat_le]
    omega
  have hthree : ¬ (0xe0 ≤ a && a ≤ 0xef) = true := by
    simp [UInt8.le_iff_toNat_le]
    omega
  have hfour : (0xf0 ≤ a && a ≤ 0xf4) = true := by
    simpa [UInt8.le_iff_toNat_le] using ha
  dsimp only [first?]
  rw [if_neg hone, if_neg htwo, if_neg hthree, if_pos hfour]
  simp [hb, he, hf, hn, hmin]

/-- A character is recognized by its bytes, whatever stands behind them. -/
theorem first?_utf8EncodeChar (c : Char) (rest : List UInt8) : ∃ a t,
    String.utf8EncodeChar c = a :: t ∧ first? (a :: (t ++ rest)) = some (c, t.length) := by
  have hc := scalar?_toNat c
  have hmax := toNat_val_lt c
  generalize hv : c.val.toNat = v at hc hmax
  -- The bits that a byte carries are a digit to the base of 64.
  have hdigit (k : Nat) : v / k % 64 < 64 := Nat.mod_lt _ (by omega)
  have hlast : v % 64 < 64 := Nat.mod_lt _ (by omega)
  simp only [String.utf8EncodeChar, hv]
  split
  · have ha : (UInt8.ofNat v).toNat = v := toNat_ofNat_of_lt (by omega)
    refine ⟨_, _, rfl, ?_⟩
    rw [first?_of_one (by omega), ha, hc]
    rfl
  · split
    · have ha : (UInt8.ofNat (v / 64 % 32 + 192)).toNat = v / 64 % 32 + 192 :=
        toNat_ofNat_of_lt (by omega)
      have hn : (v / 64 % 32 + 192 - 192) * 64 + v % 64 = v := by omega
      refine ⟨_, _, rfl, ?_⟩
      rw [List.singleton_append, first?_of_two (by omega) (isTail_ofNat hlast), ha,
        tailBits_ofNat hlast, hn, hc]
      rfl
    · split
      · have ha : (UInt8.ofNat (v / 4096 % 16 + 224)).toNat = v / 4096 % 16 + 224 :=
          toNat_ofNat_of_lt (by omega)
        have hn : (v / 4096 % 16 + 224 - 224) * 4096 + v / 64 % 64 * 64 + v % 64 = v := by omega
        refine ⟨_, _, rfl, ?_⟩
        rw [List.cons_append, List.singleton_append, first?_of_three (by omega)
          (isTail_ofNat (hdigit 64)) (isTail_ofNat hlast)
          (by rw [ha, tailBits_ofNat (hdigit 64), tailBits_ofNat hlast, hn]) (by omega), hc]
        rfl
      · have ha : (UInt8.ofNat (v / 262144 % 8 + 240)).toNat = v / 262144 % 8 + 240 :=
          toNat_ofNat_of_lt (by omega)
        have hn : (v / 262144 % 8 + 240 - 240) * 262144 + v / 4096 % 64 * 4096 + v / 64 % 64 * 64 +
            v % 64 = v := by omega
        refine ⟨_, _, rfl, ?_⟩
        rw [List.cons_append, List.cons_append, List.singleton_append, first?_of_four (by omega)
          (isTail_ofNat (hdigit 4096)) (isTail_ofNat (hdigit 64)) (isTail_ofNat hlast)
          (by rw [ha, tailBits_ofNat (hdigit 4096), tailBits_ofNat (hdigit 64), tailBits_ofNat hlast,
            hn]) (by omega), hc]
        rfl

theorem receivedAfter_append (t rest : List UInt8) :
    receivedAfter t.length (t ++ rest) = receivedAfter 0 rest := by
  induction t with
  | nil => rfl
  | cons a t ih => exact ih

theorem received_encodeChars (cs : List Char) : received (encodeChars cs) = cs.map some := by
  induction cs with
  | nil => rfl
  | cons c cs ih =>
      obtain ⟨a, t, hbytes, hfirst⟩ := first?_utf8EncodeChar c (encodeChars cs)
      rw [encodeChars_cons, hbytes, List.cons_append, received, receivedAfter, hfirst]
      simp only [receivedAfter_append]
      exact congrArg (some c :: ·) ih

theorem decode?_encode (s : String) : decode? (encode s) = some s := by
  rw [decode?, encode, received_encodeChars, whole?_map_some, Option.map_some, String.ofList_toList]

/-! ## The order of bytes -/

/-- The bytes differ at some place, and the first ones have the lesser byte there. -/
inductive Precedes : List UInt8 → List UInt8 → Prop
  | here {a b : UInt8} (as bs : List UInt8) (h : a < b) : Precedes (a :: as) (b :: bs)
  | later {as bs : List UInt8} (a : UInt8) (h : Precedes as bs) : Precedes (a :: as) (a :: bs)

/-- What stands behind the place does not matter. -/
theorem Precedes.append_lt (h : Precedes as bs) (t u : List UInt8) : as ++ t < bs ++ u := by
  induction h with
  | here as bs hlt => exact List.cons_lt_cons_iff.mpr (.inl hlt)
  | later a _ ih => exact List.cons_lt_cons_iff.mpr (.inr ⟨rfl, ih⟩)

theorem precedes_ofNat (hle : m ≤ n) (hn : n < 256) (h : m = n → Precedes as bs) :
    Precedes (UInt8.ofNat m :: as) (UInt8.ofNat n :: bs) := by
  rcases Nat.eq_or_lt_of_le hle with heq | hlt
  · rw [heq]
    exact .later _ (h heq)
  · refine .here as bs (UInt8.lt_iff_toNat_lt.mpr ?_)
    rw [toNat_ofNat_of_lt (hlt.trans hn), toNat_ofNat_of_lt hn]
    exact hlt

section Digits

variable {v w : Nat}

/-! Numbers are compared by their digits to the base of 64, from the first one on. -/

theorem precedes_last (h : v % 64 < w % 64) :
    Precedes [UInt8.ofNat (v % 64 + 128)] [UInt8.ofNat (w % 64 + 128)] :=
  precedes_ofNat (by omega) (by omega) fun _ => by omega

theorem precedes_last_two (h : v % 4096 < w % 4096) :
    Precedes [UInt8.ofNat (v / 64 % 64 + 128), UInt8.ofNat (v % 64 + 128)]
      [UInt8.ofNat (w / 64 % 64 + 128), UInt8.ofNat (w % 64 + 128)] :=
  precedes_ofNat (by omega) (by omega) fun _ => precedes_last (by omega)

theorem precedes_last_three (h : v % 262144 < w % 262144) :
    Precedes [UInt8.ofNat (v / 4096 % 64 + 128), UInt8.ofNat (v / 64 % 64 + 128),
        UInt8.ofNat (v % 64 + 128)]
      [UInt8.ofNat (w / 4096 % 64 + 128), UInt8.ofNat (w / 64 % 64 + 128),
        UInt8.ofNat (w % 64 + 128)] :=
  precedes_ofNat (by omega) (by omega) fun _ => precedes_last_two (by omega)

end Digits

theorem precedes_utf8EncodeChar (h : c < d) :
    Precedes (String.utf8EncodeChar c) (String.utf8EncodeChar d) := by
  have hlt : c.val.toNat < d.val.toNat := UInt32.lt_iff_toNat_lt.mp (Char.lt_def.mp h)
  have hmax := toNat_val_lt d
  simp only [String.utf8EncodeChar]
  generalize c.val.toNat = v at hlt
  generalize d.val.toNat = w at hlt hmax
  -- The first byte tells how many there are, and the greater character has no fewer.
  split
  · split
    · exact precedes_ofNat (by omega) (by omega) fun _ => by omega
    · split
      · exact precedes_ofNat (by omega) (by omega) fun _ => by omega
      · split
        · exact precedes_ofNat (by omega) (by omega) fun _ => by omega
        · exact precedes_ofNat (by omega) (by omega) fun _ => by omega
  · rw [if_neg (by omega : ¬ w ≤ 127)]
    split
    · split
      · exact precedes_ofNat (by omega) (by omega) fun _ => precedes_last (by omega)
      · split
        · exact precedes_ofNat (by omega) (by omega) fun _ => by omega
        · exact precedes_ofNat (by omega) (by omega) fun _ => by omega
    · rw [if_neg (by omega : ¬ w ≤ 2047)]
      split
      · split
        · exact precedes_ofNat (by omega) (by omega) fun _ => precedes_last_two (by omega)
        · exact precedes_ofNat (by omega) (by omega) fun _ => by omega
      · rw [if_neg (by omega : ¬ w ≤ 65535)]
        exact precedes_ofNat (by omega) (by omega) fun _ => precedes_last_three (by omega)

theorem encodeChars_lt {cs ds : List Char} (h : cs < ds) : encodeChars cs < encodeChars ds := by
  induction cs generalizing ds with
  | nil =>
      cases ds with
      | nil => exact absurd h (List.lt_irrefl _)
      | cons d ds =>
          obtain ⟨a, t, hbytes, -⟩ := first?_utf8EncodeChar d []
          rw [encodeChars_cons, hbytes]
          exact List.nil_lt_cons _ _
  | cons c cs ih =>
      cases ds with
      | nil => exact absurd h (List.not_lt_nil _)
      | cons d ds =>
          rw [encodeChars_cons, encodeChars_cons]
          rcases List.cons_lt_cons_iff.mp h with hlt | ⟨rfl, hlt⟩
          · exact (precedes_utf8EncodeChar hlt).append_lt _ _
          · exact List.append_left_lt (ih hlt)

/-- Texts stand in the order of their bytes. -/
theorem encode_lt_encode {s t : String} : encode s < encode t ↔ s < t := by
  have hmono {s t : String} (h : s < t) : encode s < encode t :=
    encodeChars_lt (String.lt_iff_toList_lt.mp h)
  refine ⟨fun h => ?_, hmono⟩
  rcases lt_trichotomy s t with hlt | rfl | hgt
  · exact hlt
  · exact absurd h (List.lt_irrefl _)
  · exact absurd h (List.lt_asymm (hmono hgt))

theorem encode_le_encode {s t : String} : encode s ≤ encode t ↔ s ≤ t := by
  rw [← not_lt, ← encode_lt_encode]
  rfl

end Bindery.Utf8
