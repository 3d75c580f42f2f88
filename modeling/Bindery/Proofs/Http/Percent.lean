import Bindery.Http.Form
import Bindery.Json.Tree
import Mathlib.Tactic.IntervalCases

/-! # Percent encoding is undone by decoding

Decoding gives back the bytes of every text that was encoded, whatever characters are kept, as long as
the percent sign is not among them (`percentDecode_percentEncode`).  An encoded text has no other
characters than the kept ones, percent signs and digits (`mem_percentEncode`). -/

namespace Bindery

theorem Utf8.encodeChars_injective : Function.Injective Utf8.encodeChars := by
  intro cs ds h
  have hbytes : cs.utf8Encode = ds.utf8Encode := congrArg List.toByteArray h
  have hsome := congrArg ByteArray.utf8Decode? hbytes
  rw [List.utf8Decode?_utf8Encode, List.utf8Decode?_utf8Encode] at hsome
  exact Array.toList_inj.mpr (Option.some.inj hsome)

namespace Http

theorem hexDigit?_upperHexDigit {n : Nat} (h : n < 16) : hexDigit? (upperHexDigit n) = some n := by
  interval_cases n <;> decide

theorem isHexDigit_upperHexDigit {n : Nat} (h : n < 16) :
    Json.isHexDigit (upperHexDigit n) = true := by
  interval_cases n <;> decide

theorem percentDecode_percentByte (b : UInt8) (rest : List Char) :
    percentDecode (percentByte b ++ rest) = b :: percentDecode rest := by
  have hhigh : b.toNat / 16 < 16 := by have := b.toNat_lt; omega
  have hlow : b.toNat % 16 < 16 := Nat.mod_lt _ (by omega)
  rw [percentByte, List.cons_append, List.cons_append, List.cons_append, List.nil_append,
    percentDecode, hexDigit?_upperHexDigit hhigh, hexDigit?_upperHexDigit hlow]
  simp only [Nat.div_add_mod', UInt8.ofNat_toNat]

theorem percentDecode_bytes (bs : List UInt8) (rest : List Char) :
    percentDecode (bs.flatMap percentByte ++ rest) = bs ++ percentDecode rest := by
  induction bs with
  | nil => rfl
  | cons b bs ih =>
      rw [List.flatMap_cons, List.append_assoc, percentDecode_percentByte, ih, List.cons_append]

theorem percentDecode_cons {c : Char} (hc : c ≠ '%') (rest : List Char) :
    percentDecode (c :: rest) = Utf8.encodeChars [c] ++ percentDecode rest := by
  rw [percentDecode]
  exact fun a b rest' heq _ => hc heq

theorem percentDecode_percentEncode_append {kept : Char → Bool} (h : kept '%' = false)
    (cs rest : List Char) :
    percentDecode (percentEncode kept cs ++ rest) = Utf8.encodeChars cs ++ percentDecode rest := by
  induction cs with
  | nil => rfl
  | cons c cs ih =>
      have hsplit : Utf8.encodeChars (c :: cs) = Utf8.encodeChars [c] ++ Utf8.encodeChars cs := by
        simp [Utf8.encodeChars]
      rw [percentEncode, List.flatMap_cons, List.append_assoc, hsplit, List.append_assoc, ← ih]
      split
      · rename_i hc
        exact percentDecode_cons (fun heq => by rw [heq, h] at hc; cases hc) _
      · exact percentDecode_bytes _ _

theorem percentDecode_percentEncode {kept : Char → Bool} (h : kept '%' = false) (cs : List Char) :
    percentDecode (percentEncode kept cs) = Utf8.encodeChars cs := by
  have hnil := percentDecode_percentEncode_append h cs []
  rwa [List.append_nil, percentDecode, List.append_nil] at hnil

theorem mem_percentEncode {kept : Char → Bool} {cs : List Char} {c : Char}
    (h : c ∈ percentEncode kept cs) : kept c = true ∨ c = '%' ∨ Json.isHexDigit c = true := by
  obtain ⟨d, -, hd⟩ := List.mem_flatMap.mp h
  split at hd
  · rename_i hkept
    rw [List.mem_singleton.mp hd]
    exact .inl hkept
  · obtain ⟨b, -, hb⟩ := List.mem_flatMap.mp hd
    have hhigh : b.toNat / 16 < 16 := by have := b.toNat_lt; omega
    have hlow : b.toNat % 16 < 16 := Nat.mod_lt _ (by omega)
    simp only [percentByte, List.mem_cons, List.not_mem_nil, or_false] at hb
    rcases hb with rfl | rfl | rfl
    · exact .inr (.inl rfl)
    · exact .inr (.inr (isHexDigit_upperHexDigit hhigh))
    · exact .inr (.inr (isHexDigit_upperHexDigit hlow))

end Http
end Bindery
