import OtusCProg.Codepage.Conversion
import OtusCProg.Library.CBuffer
import Mathlib.Data.List.TakeWhile

/-!
# Whether the output block is large enough

`convert` allocates two bytes for each byte of the file. A character of three bytes
and the terminator need one more, which the characters of one byte and the bytes
that are not reached have to leave.
-/

namespace OtusCProg.Codepage
open Library

/-- The bytes of the file that the converter reaches. -/
def reached (file : List UInt8) : List UInt8 := cstr file

/-- The number of bytes that become one byte of UTF-8. -/
def ones (table : List UInt32) (xs : List UInt8) : Nat :=
  xs.countP fun c => code_point table c ≤ 0x7F

/-- The number of bytes that become three bytes of UTF-8. -/
def threes (table : List UInt32) (xs : List UInt8) : Nat :=
  xs.countP fun c => 0x7FF < code_point table c

theorem code_table_le {codepage : Text} {table : List UInt32}
    (h : code_table codepage = some table) : ∀ e ∈ table, e ≤ 0xFFFF := by
  unfold code_table at h
  split at h
  · rw [← Option.some.inj h]
    exact forall_mem_of_all (by decide +kernel)
  · split at h
    · rw [← Option.some.inj h]
      exact forall_mem_of_all (by decide +kernel)
    · rw [Option.ite_none_right_eq_some] at h
      rw [← Option.some.inj h.2]
      exact forall_mem_of_all (by decide +kernel)

section Table
variable {codepage : Text} {table : List UInt32} (h : code_table codepage = some table)

include h

/-- No character of the tables needs four bytes. -/
theorem code_point_le (c : UInt8) : code_point table c ≤ 0xFFFF := by
  by_cases hc : c < 0x80
  · have hbyte := UInt8.lt_iff_toNat_lt.mp hc
    rw [code_point, if_pos hc, UInt32.le_iff_toNat_le, UInt8.toNat_toUInt32]
    exact (Nat.le_of_lt hbyte).trans (by decide)
  · exact code_table_le h _ (code_point_mem (code_table_ok h) hc)

theorem utf8Size_code_char (c : UInt8) :
    (code_char table c).utf8Size + (if code_point table c ≤ 0x7F then 1 else 0) =
      2 + (if 0x7FF < code_point table c then 1 else 0) := by
  have hmax := code_point_le h c
  have hval := val_code_char (code_table_ok h) c
  rw [← hval] at hmax ⊢
  by_cases hone : (code_char table c).val ≤ 0x7F
  · have hthree : ¬0x7FF < (code_char table c).val :=
      UInt32.not_lt.mpr (UInt32.le_trans hone (by decide))
    rw [Char.utf8Size_eq_one_iff.mpr hone, if_pos hone, if_neg hthree]
  · by_cases htwo : (code_char table c).val ≤ 0x7FF
    · rw [Char.utf8Size_eq_two_iff.mpr ⟨UInt32.not_le.mp hone, htwo⟩, if_neg hone,
        if_neg (UInt32.not_lt.mpr htwo)]
    · have hthree := UInt32.not_le.mp htwo
      rw [Char.utf8Size_eq_three_iff.mpr ⟨hthree, hmax⟩, if_neg hone, if_pos hthree]

/-- The encoding has two bytes for each byte, but for the shorter and the longer ones. -/
theorem length_encoded_add_ones (xs : List UInt8) :
    (encoded table xs).length + ones table xs = 2 * xs.length + threes table xs := by
  induction xs with
  | nil => rfl
  | cons c xs ih =>
      have hc := utf8Size_code_char h c
      rw [encoded, List.flatMap_cons, ← encoded, List.length_append, String.length_utf8EncodeChar]
      simp only [ones, threes, List.countP_cons, decide_eq_true_eq, List.length_cons] at ih ⊢
      omega

end Table

/-- The reached bytes are the string at the start of a terminated buffer. -/
theorem exists_reached (file behind : List UInt8) :
    ∃ rest, file ++ 0 :: behind = reached file ++ 0 :: rest := by
  rcases terminated_cases file with hnone | ⟨front, rest, hfront, rfl⟩
  · exact ⟨behind, by rw [reached, cstr_eq_self hnone]⟩
  · refine ⟨rest ++ 0 :: behind, ?_⟩
    rw [reached, cstr_append_zero, cstr_eq_self hfront, List.append_assoc, List.cons_append]

theorem zero_notMem_reached (file : List UInt8) : 0 ∉ reached file := by
  intro hmem
  simpa using List.mem_takeWhile_imp hmem

/-- What the converter stores for a terminated file, the final zero with it, fits into
twice the size of the file if and only if the bytes that are reached have fewer
characters of three bytes than characters of one, where each byte that is not reached
counts as two of the latter. -/
theorem output_fits_iff {codepage : Text} {table : List UInt32}
    (h : code_table codepage = some table) (file behind : List UInt8) :
    ∃ out utf8_bytes, codepage_to_utf8 (file ++ 0 :: behind) codepage = .ok (out, utf8_bytes) ∧
      (out.length ≤ file.length * 2 ↔
        threes table (reached file) <
          ones table (reached file) + 2 * (file.length - (reached file).length)) := by
  obtain ⟨rest, hrest⟩ := exists_reached file behind
  rw [hrest]
  refine ⟨_, _, codepage_to_utf8_terminated h (zero_notMem_reached file) rest, ?_⟩
  have hlen := length_encoded_add_ones h (reached file)
  have hle : (reached file).length ≤ file.length := ( List.takeWhile_prefix _).length_le
  rw [List.length_append, List.length_singleton]
  omega

/-- A letter and two Latin letters of cp1251. -/
theorem output_fits_iff_letters : ∃ out utf8_bytes,
    codepage_to_utf8 ([0xD0, 0x41, 0x42] ++ 0 :: []) (text "cp1251") = .ok (out, utf8_bytes) ∧
      (out.length ≤ [0xD0, 0x41, 0x42].length * 2 ↔
        threes cp1251_to_utf8_table (reached [0xD0, 0x41, 0x42]) <
          ones cp1251_to_utf8_table (reached [0xD0, 0x41, 0x42]) +
            2 * ([0xD0, 0x41, 0x42].length - (reached [0xD0, 0x41, 0x42]).length)) := by
  have h : code_table (text "cp1251") = some cp1251_to_utf8_table := rfl
  exact output_fits_iff h [0xD0, 0x41, 0x42] []

/-- One Cyrillic letter leaves no room for the terminator. -/
theorem output_overflows : ¬∀ (codepage : Text) (table : List UInt32) (file behind : List UInt8),
    code_table codepage = some table → 1 ≤ file.length → ∃ out utf8_bytes,
      codepage_to_utf8 (file ++ 0 :: behind) codepage = .ok (out, utf8_bytes) ∧
        out.length ≤ file.length * 2 := by
  intro hall
  have h : code_table (text "cp1251") = some cp1251_to_utf8_table := rfl
  obtain ⟨out, utf8_bytes, hrun, hfits⟩ := hall (text "cp1251") _ [0xD0] [] h le_rfl
  have hstored : codepage_to_utf8 ([0xD0] ++ 0 :: []) (text "cp1251") = .ok ([0xD0, 0xA0, 0], 2) := rfl
  obtain ⟨rfl, -⟩ := Prod.mk.inj (Except.ok.inj (hstored.symm.trans hrun))
  exact absurd hfits (by decide)

end OtusCProg.Codepage
