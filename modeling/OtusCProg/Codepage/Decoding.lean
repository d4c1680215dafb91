import OtusCProg.Codepage.Model
import Mathlib.Data.List.GetD
import Mathlib.Data.List.Nodup

/-!
# What the converter writes is UTF-8

The entries of every table are scalar values, so the encoder agrees with the
standard one on them, and a decoder gets the code points back. The entries of one
table differ from each other and, but for one zero, from the lower half, so the
code points tell the input bytes.
-/

namespace OtusCProg.Codepage
open Library

/-- The code point of an input byte. -/
def code_point (table : List UInt32) (c : UInt8) : UInt32 :=
  if c < 0x80 then c.toUInt32 else table.getD (c.toNat - 0x80) 0

/-- The character of an input byte. -/
def code_char (table : List UInt32) (c : UInt8) : Char := Char.ofNat (code_point table c).toNat

/-- The standard encoding of the characters of a byte string. -/
def encoded (table : List UInt32) (xs : List UInt8) : List UInt8 :=
  xs.flatMap fun c => String.utf8EncodeChar (code_char table c)

/-- The encoded string is the standard encoding of the characters. -/
theorem toByteArray_encoded (table : List UInt32) (xs : List UInt8) :
    (encoded table xs).toByteArray = (xs.map (code_char table)).utf8Encode := by
  rw [List.utf8Encode, List.flatMap_map, encoded]

/-- What the conversion needs of a table. -/
structure TableOk (table : List UInt32) : Prop where
  length : table.length = 128
  scalar : ∀ e ∈ table, e.isValidChar
  apart : ∀ e ∈ table, e = 0 ∨ 0x80 ≤ e
  nodup : table.Nodup

/-- A property of all entries is checked by going through the list. -/
theorem forall_mem_of_all {table : List UInt32} {p : UInt32 → Prop} [DecidablePred p]
    (h : table.all (fun e => p e) = true) : ∀ e ∈ table, p e := by
  intro e he
  exact of_decide_eq_true (List.all_eq_true.mp h e he)

theorem cp1251_ok : TableOk cp1251_to_utf8_table :=
  ⟨rfl, forall_mem_of_all (by decide +kernel), forall_mem_of_all (by decide +kernel),
    List.Nodup.of_map UInt32.toNat (by decide +kernel)⟩

theorem koi8r_ok : TableOk koi8r_to_utf_table :=
  ⟨rfl, forall_mem_of_all (by decide +kernel), forall_mem_of_all (by decide +kernel),
    List.Nodup.of_map UInt32.toNat (by decide +kernel)⟩

theorem iso_8859_5_ok : TableOk iso_8859_5_to_utf_table :=
  ⟨rfl, forall_mem_of_all (by decide +kernel), forall_mem_of_all (by decide +kernel),
    List.Nodup.of_map UInt32.toNat (by decide +kernel)⟩

theorem code_table_ok {codepage : Text} {table : List UInt32}
    (h : code_table codepage = some table) : TableOk table := by
  unfold code_table at h
  split at h
  · exact Option.some.inj h ▸ cp1251_ok
  · split at h
    · exact Option.some.inj h ▸ koi8r_ok
    · split at h
      · exact Option.some.inj h ▸ iso_8859_5_ok
      · cases h

theorem utf8_encode_length (utf : UInt32) : (utf8_encode utf).2 ≤ (utf8_encode utf).1.length := by
  unfold utf8_encode
  repeat' split
  all_goals simp

/-- The encoder of the source is the standard one on every character. -/
theorem utf8_encode_eq (c : Char) :
    (utf8_encode c.val).1.take (utf8_encode c.val).2 = String.utf8EncodeChar c := by
  have hmax : c.val ≤ 0x10FFFF := by
    have hvalid := c.valid
    rw [UInt32.le_iff_toNat_le]
    rcases hvalid with h | h
    · exact (Nat.lt_trans h (by decide)).le
    · exact Nat.le_of_lt_succ h.2
  rw [String.utf8EncodeChar_eq_utf8EncodeCharFast]
  unfold utf8_encode String.utf8EncodeCharFast
  by_cases h1 : c.val ≤ 0x7F
  · simp [h1]
  · by_cases h2 : c.val ≤ 0x07FF
    · simp [h1, h2]
    · by_cases h3 : c.val ≤ 0xFFFF
      · simp [h1, h2, h3]
      · simp [h1, h2, h3, hmax]

/-- The mask of the source tells the upper half, and the other mask gives the index. -/
theorem high_bit (c : UInt8) :
    (c &&& 0x80 ≠ 0 ↔ ¬c < 0x80) ∧ (¬c < 0x80 → (0x7f &&& c).toNat = c.toNat - 0x80) := by
  have hall : ∀ n < 256, (UInt8.ofNat n &&& 0x80 ≠ 0 ↔ ¬UInt8.ofNat n < 0x80) ∧
      (¬UInt8.ofNat n < 0x80 → (0x7f &&& UInt8.ofNat n).toNat = n - 0x80) := by
    decide +kernel
  have hc := hall c.toNat c.toNat_lt
  rwa [UInt8.ofNat_toNat] at hc

section Table
variable {table : List UInt32} (ok : TableOk table)

include ok

/-- A byte of the upper half has its code point in the table. -/
theorem code_point_mem {c : UInt8} (hc : ¬c < 0x80) : code_point table c ∈ table := by
  have hlt : c.toNat - 0x80 < table.length := by
    have hbyte := c.toNat_lt
    rw [ok.length]
    omega
  rw [code_point, if_neg hc, List.getD_eq_getElem _ _ hlt]
  exact List.getElem_mem hlt

theorem code_point_valid (c : UInt8) : (code_point table c).isValidChar := by
  by_cases hc : c < 0x80
  · left
    rw [code_point, if_pos hc, UInt8.toNat_toUInt32]
    exact Nat.lt_trans c.toNat_lt (by decide)
  · exact ok.scalar _ (code_point_mem ok hc)

/-- The character has the code point as its value. -/
theorem val_code_char (c : UInt8) : (code_char table c).val = code_point table c := by
  have hvalid : (code_point table c).toNat.isValidChar := code_point_valid ok c
  rw [code_char, Char.ofNat, dif_pos hvalid]
  exact UInt32.toNat_inj.mp rfl

/-- What the loop stores for one byte is the standard encoding of its character. -/
theorem convert_loop_cons {c : UInt8} (hc : c ≠ 0) (rest out : List UInt8) (n : Nat) :
    convert_loop table (c :: rest) out n =
      convert_loop table rest (out ++ String.utf8EncodeChar (code_char table c))
        (n + (String.utf8EncodeChar (code_char table c)).length) := by
  obtain ⟨hhigh, hindex⟩ := high_bit c
  have hval := val_code_char ok c
  rw [convert_loop, if_neg hc]
  by_cases hlow : c < 0x80
  · have hsize : (code_char table c).utf8Size = 1 := by
      rw [Char.utf8Size_eq_one_iff, hval, code_point, if_pos hlow, UInt32.le_iff_toNat_le,
        UInt8.toNat_toUInt32]
      exact Nat.le_of_lt_succ (UInt8.lt_iff_toNat_lt.mp hlow)
    have hsame : (code_char table c).val.toUInt8 = c := by
      rw [hval, code_point, if_pos hlow, UInt8.toUInt8_toUInt32]
    rw [if_neg (fun h => hhigh.mp h hlow), String.utf8EncodeChar_eq_singleton hsize, hsame]
    rfl
  · have hentry : table.getD (0x7f &&& c).toNat 0 = (code_char table c).val := by
      rw [hindex hlow, hval, code_point, if_neg hlow]
    have hlen : (utf8_encode (code_char table c).val).2 =
        (String.utf8EncodeChar (code_char table c)).length := by
      rw [← utf8_encode_eq, List.length_take]
      exact (Nat.min_eq_left (utf8_encode_length _)).symm
    rw [if_pos (hhigh.mpr hlow), hentry, ← hlen, ← utf8_encode_eq]

/-- The loop over bytes without a terminator. -/
theorem convert_loop_append {xs : List UInt8} (hxs : 0 ∉ xs) (rest out : List UInt8) (n : Nat) :
    convert_loop table (xs ++ rest) out n =
      convert_loop table rest (out ++ encoded table xs) (n + (encoded table xs).length) := by
  induction xs generalizing out n with
  | nil => simp [encoded]
  | cons c xs ih =>
      rw [List.mem_cons, not_or] at hxs
      obtain ⟨hc, hrest⟩ := hxs
      rw [List.cons_append, convert_loop_cons ok (Ne.symm hc), ih hrest]
      simp only [encoded, List.flatMap_cons, List.append_assoc, List.length_append, Nat.add_assoc]

/-- A byte of the lower half has no code point in the table, the terminator apart. -/
theorem code_point_ne {c d : UInt8} (hc : c ≠ 0) (hlow : c < 0x80) (hhigh : ¬d < 0x80) :
    code_point table c ≠ code_point table d := by
  intro h
  have hc' : code_point table c = c.toUInt32 := if_pos hlow
  rcases ok.apart _ (code_point_mem ok hhigh) with hzero | hlarge
  · rw [← h, hc'] at hzero
    exact hc (UInt8.toUInt32_inj.mp hzero)
  · rw [← h, hc', UInt32.le_iff_toNat_le, UInt8.toNat_toUInt32] at hlarge
    exact absurd (UInt8.lt_iff_toNat_lt.mp hlow) (Nat.not_lt.mpr hlarge)

/-- Different bytes have different code points, the terminator apart. -/
theorem code_point_injective {c d : UInt8} (hc : c ≠ 0) (hd : d ≠ 0)
    (h : code_point table c = code_point table d) : c = d := by
  by_cases hlow : c < 0x80
  · by_cases hlow' : d < 0x80
    · rw [code_point, code_point, if_pos hlow, if_pos hlow'] at h
      exact UInt8.toUInt32_inj.mp h
    · exact absurd h (code_point_ne ok hc hlow hlow')
  · by_cases hlow' : d < 0x80
    · exact absurd h.symm (code_point_ne ok hd hlow' hlow)
    · have hclt : c.toNat - 0x80 < table.length := by
        have hbyte := c.toNat_lt
        rw [ok.length]
        omega
      have hdlt : d.toNat - 0x80 < table.length := by
        have hbyte := d.toNat_lt
        rw [ok.length]
        omega
      rw [code_point, code_point, if_neg hlow, if_neg hlow', List.getD_eq_getElem _ _ hclt,
        List.getD_eq_getElem _ _ hdlt, ok.nodup.getElem_inj_iff] at h
      have hc' := UInt8.le_iff_toNat_le.mp (UInt8.not_lt.mp hlow)
      have hd' := UInt8.le_iff_toNat_le.mp (UInt8.not_lt.mp hlow')
      apply UInt8.toNat_inj.mp
      change 0x80 ≤ c.toNat at hc'
      change 0x80 ≤ d.toNat at hd'
      omega

/-- Strings without terminator are told apart by what they are converted to. -/
theorem encoded_injective {xs ys : List UInt8} (hxs : 0 ∉ xs) (hys : 0 ∉ ys)
    (h : encoded table xs = encoded table ys) : xs = ys := by
  have hchars : xs.map (code_char table) = ys.map (code_char table) := by
    have hdecode := congrArg (fun bytes => bytes.toByteArray.utf8Decode?) h
    simp only [toByteArray_encoded, List.utf8Decode?_utf8Encode, Option.some.injEq] at hdecode
    exact congrArg Array.toList hdecode
  clear h
  induction xs generalizing ys with
  | nil => exact (List.map_eq_nil_iff.mp hchars.symm).symm
  | cons c xs ih =>
      cases ys with
      | nil => simp at hchars
      | cons d ys =>
          rw [List.mem_cons, not_or] at hxs hys
          obtain ⟨hchar, hrest⟩ := List.cons.inj hchars
          have hpoint : code_point table c = code_point table d := by
            rw [← val_code_char ok, ← val_code_char ok, hchar]
          rw [code_point_injective ok (Ne.symm hxs.1) (Ne.symm hys.1) hpoint,
            ih hxs.2 hys.2 hrest]

end Table

section Codepage
variable {codepage : Text} {table : List UInt32} (h : code_table codepage = some table)

include h

/-- The converter on a terminated string: the standard encoding, a terminator,
and the length in front of it. -/
theorem codepage_to_utf8_terminated {xs : List UInt8} (hxs : 0 ∉ xs) (rest : List UInt8) :
    codepage_to_utf8 (xs ++ 0 :: rest) codepage =
      .ok (encoded table xs ++ [0], (encoded table xs).length) := by
  rw [codepage_to_utf8, h]
  show convert_loop table (xs ++ 0 :: rest) [] 0 = _
  rw [convert_loop_append (code_table_ok h) hxs, convert_loop, if_pos rfl]
  simp

end Codepage

/-- For each codepage and every terminated string the converter stores valid
UTF-8, a terminator behind its `utf8_bytes` bytes, and nothing more; a decoder gets
exactly the code points of the input bytes. Different strings are converted to
different bytes. -/
theorem codepage_to_utf8_decodes {codepage : Text} {table : List UInt32}
    (h : code_table codepage = some table) :
    (∀ xs rest, 0 ∉ xs → ∃ out utf8_bytes chars,
      codepage_to_utf8 (xs ++ 0 :: rest) codepage = .ok (out, utf8_bytes) ∧
      out.length = utf8_bytes + 1 ∧ out[utf8_bytes]? = some 0 ∧
      (out.take utf8_bytes).toByteArray.IsValidUTF8 ∧
      (out.take utf8_bytes).toByteArray.utf8Decode? = some chars ∧
      chars.toList.map Char.val = xs.map (code_point table)) ∧
    ∀ xs ys rest rest' out out' utf8_bytes utf8_bytes', 0 ∉ xs → 0 ∉ ys →
      codepage_to_utf8 (xs ++ 0 :: rest) codepage = .ok (out, utf8_bytes) →
      codepage_to_utf8 (ys ++ 0 :: rest') codepage = .ok (out', utf8_bytes') →
      out.take utf8_bytes = out'.take utf8_bytes' → xs = ys := by
  have ok := code_table_ok h
  constructor
  · intro xs rest hxs
    refine ⟨_, _, (xs.map (code_char table)).toArray, codepage_to_utf8_terminated h hxs rest,
      by simp, by simp, ?_, ?_, ?_⟩
    · rw [List.take_left, toByteArray_encoded]
      exact ByteArray.isValidUTF8_utf8Encode
    · rw [List.take_left, toByteArray_encoded, List.utf8Decode?_utf8Encode]
    · rw [List.map_map]
      exact List.map_congr_left fun c _ => val_code_char ok c
  · intro xs ys rest rest' out out' n n' hxs hys hout hout' hsame
    obtain ⟨rfl, rfl⟩ :=
      Prod.mk.inj (Except.ok.inj ((codepage_to_utf8_terminated h hxs rest).symm.trans hout))
    obtain ⟨rfl, rfl⟩ :=
      Prod.mk.inj (Except.ok.inj ((codepage_to_utf8_terminated h hys rest').symm.trans hout'))
    rw [List.take_left, List.take_left] at hsame
    exact encoded_injective ok hxs hys hsame

/-- Three bytes of cp1251 in front of a terminator, one of them below `0x80`. -/
theorem codepage_to_utf8_decodes_cp1251 : ∃ out utf8_bytes chars,
    codepage_to_utf8 ([0xd0, 0x82, 0x41] ++ 0 :: [0x42]) (text "cp1251") = .ok (out, utf8_bytes) ∧
    out.length = utf8_bytes + 1 ∧ out[utf8_bytes]? = some 0 ∧
    (out.take utf8_bytes).toByteArray.IsValidUTF8 ∧
    (out.take utf8_bytes).toByteArray.utf8Decode? = some chars ∧
    chars.toList.map Char.val =
      [0xd0, 0x82, 0x41].map (code_point cp1251_to_utf8_table) := by
  have h : code_table (text "cp1251") = some cp1251_to_utf8_table := rfl
  exact (codepage_to_utf8_decodes h).1 [0xd0, 0x82, 0x41] [0x42] (by decide)

end OtusCProg.Codepage
