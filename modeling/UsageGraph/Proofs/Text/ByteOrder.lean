import UsageGraph.Table
import UsageGraph.Text.Utf8
import Mathlib.Data.List.Basic

/-! # Texts in the order of their bytes

* `Text.encode_eq`: a text is encoded character by character.
* `Text.encodeChar_lt`: where two texts first differ, so do their bytes, and in the same order.
* `Text.encode_lt_iff`: texts and their bytes are ordered alike.
-/

namespace UsageGraph.Text
set_option autoImplicit false

/-! ## Bytes of a text -/

theorem toList_loop (bs : ByteArray) (n : Nat) (read : Bytes) :
    ByteArray.toList.loop bs n read = read.reverse ++ bs.data.toList.drop n := by
  fun_induction ByteArray.toList.loop bs n read with
  | case1 n read hlt ih =>
    have hlength : n < bs.data.toList.length := hlt
    have hget : bs.get! n = bs.data.toList[n] := by
      change bs.data[n]! = _
      rw [getElem!_pos bs.data n hlt, Array.getElem_toList]
    rw [ih, List.reverse_cons, List.append_assoc, List.drop_eq_getElem_cons hlength, hget]
    rfl
  | case2 n read hge => rw [List.drop_eq_nil_of_le (Nat.not_lt.mp hge), List.append_nil]

theorem encode_eq (s : String) : encode s = s.toList.flatMap String.utf8EncodeChar := by
  have hbytes : s.toUTF8.data.toList = s.toList.flatMap String.utf8EncodeChar := by
    rw [String.toUTF8_eq_toByteArray, ← String.utf8Encode_toList, List.utf8Encode,
      List.data_toByteArray]
  rw [encode, ByteArray.toList, toList_loop, hbytes]
  rfl

/-! ## Order -/

/-- Longer encodings start with greater bytes, and encodings of one length are ordered by the digits
of the code points to the base 64. -/
theorem encodeChar_lt {c d : Char} (h : c < d) (s t : Bytes) :
    String.utf8EncodeChar c ++ s < String.utf8EncodeChar d ++ t := by
  have hlt : c.val.toNat < d.val.toNat := h
  have hbound : d.val.toNat < 0x110000 := by
    rcases d.valid with hd | hd <;> omega
  have hless : ∀ m n : Nat, m < 256 → n < 256 → (UInt8.ofNat m < UInt8.ofNat n ↔ m < n) := by
    intro m n hm hn
    rw [UInt8.lt_iff_toNat_lt, UInt8.toNat_ofNat', UInt8.toNat_ofNat', Nat.mod_eq_of_lt hm,
      Nat.mod_eq_of_lt hn]
  have hsame : ∀ m n : Nat, m < 256 → n < 256 → (UInt8.ofNat m = UInt8.ofNat n ↔ m = n) := by
    intro m n hm hn
    rw [← UInt8.toNat_inj, UInt8.toNat_ofNat', UInt8.toNat_ofNat', Nat.mod_eq_of_lt hm,
      Nat.mod_eq_of_lt hn]
  have hdigits : ∀ v : Nat, v / 4096 = v / 64 / 64 ∧ v / 262144 = v / 64 / 64 / 64 := by omega
  simp only [String.utf8EncodeChar, hdigits]
  -- One case for each pair of lengths.
  split_ifs <;> simp only [List.cons_append, List.nil_append, List.cons_lt_cons_iff]
  all_goals simp (disch := omega) only [hless, hsame]
  all_goals omega

theorem flatMap_encodeChar_lt {cs ds : List Char} (h : cs < ds) :
    cs.flatMap String.utf8EncodeChar < ds.flatMap String.utf8EncodeChar := by
  induction cs generalizing ds with
  | nil =>
    cases ds with
    | nil => exact absurd h (List.not_lt_nil _)
    | cons d ds =>
      obtain ⟨b, bs, hd⟩ := List.exists_cons_of_ne_nil (@String.utf8EncodeChar_ne_nil d)
      rw [List.flatMap_nil, List.flatMap_cons, hd]
      exact List.nil_lt_cons _ _
  | cons c cs ih =>
    cases ds with
    | nil => exact absurd h (List.not_lt_nil _)
    | cons d ds =>
      rw [List.flatMap_cons, List.flatMap_cons]
      rcases List.cons_lt_cons_iff.mp h with hlt | ⟨rfl, hrest⟩
      · exact encodeChar_lt hlt _ _
      · exact List.append_left_lt (ih hrest)

theorem encode_lt {s t : String} (h : s < t) : encode s < encode t := by
  rw [encode_eq, encode_eq]
  exact flatMap_encodeChar_lt h

/-- Texts and their bytes are ordered alike. -/
theorem encode_lt_iff {s t : String} : encode s < encode t ↔ s < t := by
  refine ⟨fun h => ?_, encode_lt⟩
  by_cases hsame : s = t
  · rw [hsame] at h
    exact absurd h (List.lt_irrefl _)
  · refine (Table.lt_or_lt_of_ne hsame).resolve_right fun hgt => ?_
    exact List.lt_asymm h (encode_lt hgt)

end UsageGraph.Text
