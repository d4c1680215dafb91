import OtusCProg.Library.CText

/-!
# A number printed and read back

What `%d` prints of a natural number is its digits, and `strtol` reads the same
number from them, whatever stands behind them that is no digit. It reads any
digits up to such a byte, and what stands behind that byte does not matter.
-/

namespace OtusCProg.Library

/-- The byte of a digit. -/
theorem utf8EncodeChar_digit {c : Char} (h : c.isDigit) :
    String.utf8EncodeChar c = [UInt8.ofNat c.toNat] := by
  have hle : c.toNat ≤ 57 := (Char.isDigit_iff_toNat.mp h).2
  have hsize : c.utf8Size = 1 := by
    rw [Char.utf8Size, if_pos]
    exact UInt32.le_iff_toNat_le.mpr (hle.trans (by decide))
  rw [String.utf8EncodeChar_eq_singleton hsize]
  rfl

/-- A digit is neither white space nor a sign. -/
theorem not_sign_of_isdigit {c : UInt8} (h : isdigit c = true) :
    isspace c = false ∧ c ≠ 45 ∧ c ≠ 43 := by
  have hlow : 48 ≤ c.toNat := by
    simpa [isdigit, UInt8.le_iff_toNat_le] using (Bool.and_eq_true_iff.mp h).1
  simp only [isspace, Bool.or_eq_false_iff, Bool.and_eq_false_iff, decide_eq_false_iff_not,
    UInt8.le_iff_toNat_le, ← UInt8.toNat_inj, ne_eq, UInt8.reduceToNat]
  omega

/-- The byte of a digit is a digit of the same value. -/
theorem isdigit_ofNat {c : Char} (h : c.isDigit) :
    isdigit (UInt8.ofNat c.toNat) = true ∧ (UInt8.ofNat c.toNat).toNat = c.toNat := by
  obtain ⟨hlow, hhigh⟩ : 48 ≤ c.toNat ∧ c.toNat ≤ 57 := Char.isDigit_iff_toNat.mp h
  have hbyte : (UInt8.ofNat c.toNat).toNat = c.toNat := by
    rw [UInt8.toNat_ofNat']
    omega
  constructor
  · simp [isdigit, UInt8.le_iff_toNat_le, hbyte, hlow, hhigh]
  · exact hbyte

/-- `%d` prints a natural number as its digits. -/
theorem decimal_natCast (n : Nat) :
    decimal n = (Nat.toDigits 10 n).map fun c => UInt8.ofNat c.toNat := by
  have hbytes : ∀ cs : List Char, (∀ c ∈ cs, c.isDigit) →
      cs.flatMap String.utf8EncodeChar = cs.map fun c => UInt8.ofNat c.toNat := by
    intro cs h
    induction cs with
    | nil => rfl
    | cons c cs ih =>
        rw [List.flatMap_cons, List.map_cons, utf8EncodeChar_digit (h c List.mem_cons_self),
          ih fun d hd => h d (List.mem_cons_of_mem c hd)]
        rfl
  calc
    decimal n = (Nat.repr n).toList.flatMap String.utf8EncodeChar := rfl
    _ = (Nat.toDigits 10 n).flatMap String.utf8EncodeChar := by rw [Nat.toList_repr]
    _ = _ := by
      apply hbytes
      intro c hc
      exact Nat.isDigit_of_mem_toDigits (by decide) le_rfl hc

theorem isdigit_of_mem_decimal {n : Nat} {b : UInt8} (h : b ∈ decimal n) : isdigit b = true := by
  rw [decimal_natCast] at h
  obtain ⟨c, hc, rfl⟩ := List.mem_map.mp h
  exact (isdigit_ofNat (Nat.isDigit_of_mem_toDigits (by decide) le_rfl hc)).1

theorem length_decimal_natCast_le {n k : Nat} (h : 0 < k) :
    (decimal n).length ≤ k ↔ n < 10 ^ k := by
  rw [decimal_natCast, List.length_map]
  exact Nat.length_toDigits_le_iff (by decide) h

/-- Digits in front are read as the number they show. -/
theorem digits_append {cs : List Char} (h : ∀ c ∈ cs, c.isDigit) (acc : Nat) (rest : Text) :
    digits acc (cs.map (fun c => UInt8.ofNat c.toNat) ++ rest) =
      digits (Nat.ofDigitChars 10 cs acc) rest := by
  induction cs generalizing acc with
  | nil => rfl
  | cons c cs ih =>
      have hbyte := isdigit_ofNat (h c List.mem_cons_self)
      rw [List.map_cons, List.cons_append, digits, if_pos hbyte.1, hbyte.2,
        ih fun d hd => h d (List.mem_cons_of_mem c hd), Nat.ofDigitChars_cons]
      rfl

/-- `strtol` reads back what `%d` prints, up to the first byte that is no digit. -/
theorem strtol_decimal {n : Nat} (hn : n < 2 ^ 63) {rest : Text}
    (hrest : rest.head?.any isdigit = false) : strtol (decimal n ++ rest) = ((n : Int), rest) := by
  have hdigits : digits 0 (decimal n ++ rest) = (n, rest) := by
    rw [decimal_natCast, digits_append, Nat.ofDigitChars_ten_toDigits]
    · cases rest with
      | nil => rfl
      | cons c rest => exact if_neg (by simpa using hrest)
    · intro c hc
      exact Nat.isDigit_of_mem_toDigits (by decide) le_rfl hc
  obtain ⟨c, body, hbody, hc⟩ : ∃ c body, decimal n ++ rest = c :: body ∧ isdigit c = true := by
    rw [decimal_natCast]
    cases hcs : Nat.toDigits 10 n with
    | nil => exact absurd hcs Nat.toDigits_ne_nil
    | cons c cs =>
        refine ⟨_, _, rfl, (isdigit_ofNat ?_).1⟩
        exact Nat.isDigit_of_mem_toDigits (by decide) le_rfl (hcs ▸ List.mem_cons_self)
  have hclamp : clampLong n = n := by
    unfold clampLong
    omega
  have hplain : isspace c = false ∧ c ≠ 45 ∧ c ≠ 43 := not_sign_of_isdigit hc
  rw [hbody] at hdigits ⊢
  rw [strtol]
  simp [hplain, hdigits, hclamp, hc]

/-- One digit or more. -/
structure IsDecimal (s : Text) : Prop where
  ne_nil : s ≠ []
  digits : ∀ c ∈ s, isdigit c = true

/-- A number begins with a digit. -/
theorem IsDecimal.head?_any {s : Text} (h : IsDecimal s) : s.head?.any isdigit = true := by
  obtain ⟨c, tail, rfl⟩ := List.exists_cons_of_ne_nil h.ne_nil
  exact h.digits c List.mem_cons_self

/-- What is no digit does not stand in a number. -/
theorem IsDecimal.notMem {s : Text} (h : IsDecimal s) {c : UInt8} (hc : isdigit c = false) : c ∉ s := by
  intro hmem
  rw [h.digits c hmem] at hc
  cases hc

/-- The number that digits show. -/
def decimalValue (s : Text) : Nat := (digits 0 s).1

/-- The value that `strtol` returns, with no case for a string that shows no number. -/
theorem strtol_fst (s : Text) :
    (strtol s).1 =
      let body := s.dropWhile isspace
      let unsigned := if body.head? = some 45 ∨ body.head? = some 43 then body.drop 1 else body
      clampLong (if body.head? = some 45 then -((digits 0 unsigned).1 : Int)
        else (digits 0 unsigned).1) := by
  simp only [strtol]
  split
  · rename_i hnil
    rw [hnil]
    simp [digits, clampLong]
  · rename_i c rest hcons
    rw [hcons]
    by_cases hc : isdigit c = true
    · rw [if_pos hc]
    · rw [if_neg hc, digits, if_neg hc]
      simp [clampLong]

section Stop
variable {c : UInt8}

/-- The value of the digits in front ends where a byte is no digit. -/
theorem digits_append_cons (hc : isdigit c = false) (acc : Nat) (s rest : Text) :
    (digits acc (s ++ c :: rest)).1 = (digits acc s).1 := by
  induction s generalizing acc with
  | nil => simp [digits, hc]
  | cons d s ih =>
      rw [List.cons_append, digits, digits]
      split
      · exact ih _
      · rfl

/-- A byte that is no part of a number ends what `strtol` looks at. -/
theorem strtol_append_cons (hdigit : isdigit c = false) (hspace : isspace c = false)
    (hminus : c ≠ 45) (hplus : c ≠ 43) (s rest : Text) :
    (strtol (s ++ c :: rest)).1 = (strtol s).1 := by
  have hbody : (s ++ c :: rest).dropWhile isspace = s.dropWhile isspace ++ c :: rest := by
    rw [List.dropWhile_append, List.dropWhile_cons_of_neg (by simp [hspace])]
    split
    · rename_i hnil
      rw [List.isEmpty_iff.mp hnil]
      rfl
    · rfl
  rw [strtol_fst, strtol_fst, hbody]
  cases s.dropWhile isspace with
  | nil => simp [hminus, hplus, hdigit, digits]
  | cons d body =>
      simp only [List.cons_append, List.head?_cons, List.drop_one, List.tail_cons]
      by_cases hsign : some d = some 45 ∨ some d = some 43
      · simp only [if_pos hsign, digits_append_cons hdigit]
      · simp only [if_neg hsign, ← List.cons_append, digits_append_cons hdigit]

/-- Digits are read as the number they show, or as the greatest `long`. -/
theorem strtol_isDecimal_append {s rest : Text} (h : IsDecimal s)
    (hrest : rest.head?.any isdigit = false) : (strtol (s ++ rest)).1 = clampLong (decimalValue s) := by
  have hvalue : (digits 0 (s ++ rest)).1 = decimalValue s := by
    cases rest with
    | nil => rw [List.append_nil, decimalValue]
    | cons c rest => exact digits_append_cons hrest 0 s rest
  obtain ⟨c, tail, rfl⟩ := List.exists_cons_of_ne_nil h.ne_nil
  obtain ⟨hspace, hminus, hplus⟩ := not_sign_of_isdigit (h.digits c List.mem_cons_self)
  rw [strtol_fst, List.cons_append, List.dropWhile_cons_of_neg (by simp [hspace])]
  rw [List.cons_append] at hvalue
  simp only [hvalue, List.head?_cons, Option.some.injEq, hminus, hplus, or_self,
    if_false]

end Stop

end OtusCProg.Library
