import OtusCProg.HttpServer.Model
import OtusCProg.Library.PercentCoding

/-!
# What `url_decode` takes for an escape

`strtol` skips white space and takes a sign, so `url_decode` also replaces a `%`
with such a byte and one digit behind it. Up to the first of these the bytes that it
stores are those of the decoding.
-/

namespace OtusCProg.HttpServer
open Library

/-- Two bytes that `strtol` reads to their end, one of which is no digit. -/
def LooseEscape (a b : UInt8) : Prop :=
  (isspace a = true ∨ a = 43) ∧ (hexDigit b).isSome ∨ a = 45 ∧ b = 48

section Recognize
variable {a b : UInt8}

theorem hexDigit_zero_iff : hexDigit b = some 0 ↔ b = 48 := by
  have hall : ∀ n < 256, hexDigit (UInt8.ofNat n) = some 0 ↔ UInt8.ofNat n = 48 := by
    decide +kernel
  have hb := hall b.toNat b.toNat_lt
  rwa [UInt8.ofNat_toNat] at hb

theorem skip0x_singleton (b : UInt8) : skip0x [b] = [b] := by
  unfold skip0x
  split
  · rename_i heq
    cases heq
  · rfl

/-- The two tests on what `strtol` returns, as one. -/
theorem hex_byte_eq (a b : UInt8) :
    hex_byte a b =
      if (strtolHex [a, b]).2 = [] ∧ 0 ≤ (strtolHex [a, b]).1 ∧ (strtolHex [a, b]).1 ≤ 255 then
        some (UInt8.ofNat (strtolHex [a, b]).1.toNat)
      else none := by
  delta hex_byte
  generalize strtolHex [a, b] = read
  obtain ⟨val, rest⟩ := read
  cases rest with
  | nil => simp only [true_and]
  | cons c rest => simp

/-- Two hexadecimal digits are read. -/
theorem hex_byte_of_digits {x y : Nat} (ha : hexDigit a = some x) (hb : hexDigit b = some y) :
    hex_byte a b = some (UInt8.ofNat (16 * x + y)) := by
  have hx := (hexDigit_eq_some ha).1
  have hy := (hexDigit_eq_some hb).1
  have hrange : 0 ≤ ((16 * x + y : Nat) : Int) ∧ ((16 * x + y : Nat) : Int) ≤ 255 := by omega
  rw [hex_byte_eq, strtolHex_pair ha hb, if_pos ⟨rfl, hrange⟩, Int.toNat_natCast]

/-- A digit with something else behind it is not read to the end. -/
theorem hex_byte_of_digit_left {x : Nat} (ha : hexDigit a = some x) (hb : hexDigit b = none) :
    hex_byte a b = none := by
  obtain ⟨-, hspace, hminus, hplus⟩ := hexDigit_eq_some ha
  simp [hex_byte_eq, strtolHex, hspace, hminus, hplus, skip0x_pair, hexDigits, ha, hb]

/-- Behind white space or a plus only a digit is read. -/
theorem hex_byte_of_skipped (ha : isspace a = true ∨ a = 43) :
    hex_byte a b = (hexDigit b).map UInt8.ofNat := by
  cases hb : hexDigit b with
  | some y =>
      obtain ⟨hy, hspace, hminus, hplus⟩ := hexDigit_eq_some hb
      have hclamp : clampLong (y : Int) = y := by
        rw [clampLong]
        omega
      have hle : (y : Int) ≤ 255 := by omega
      rcases ha with ha | rfl
      · simp [hex_byte_eq, strtolHex, ha, hspace, hminus, hplus, skip0x_singleton, hexDigits, hb, hclamp, hle]
      · simp [hex_byte_eq, strtolHex, show isspace 43 = false from rfl, skip0x_singleton, hexDigits, hb,
          hclamp, hle]
  | none =>
      have hnil : skip0x [] = [] := rfl
      rcases ha with ha | rfl
      · by_cases hspace : isspace b = true
        · simp [hex_byte_eq, strtolHex, ha, hspace, hnil]
        · by_cases hsign : b = 45 ∨ b = 43
          · simp [hex_byte_eq, strtolHex, ha, hspace, hsign, hnil]
          · simp [hex_byte_eq, strtolHex, ha, hspace, hsign, skip0x_singleton, hb]
      · simp [hex_byte_eq, strtolHex, show isspace 43 = false from rfl, skip0x_singleton, hb]

/-- Behind a minus only a zero is read. -/
theorem hex_byte_of_minus : hex_byte 45 b = if b = 48 then some 0 else none := by
  cases hb : hexDigit b with
  | some y =>
      have hy := (hexDigit_eq_some hb).1
      have hclamp : clampLong (-(y : Int)) = -y := by
        rw [clampLong]
        omega
      have hread : hex_byte 45 b = if 0 ≤ -(y : Int) ∧ -(y : Int) ≤ 255 then
          some (UInt8.ofNat (-(y : Int)).toNat) else none := by
        simp [hex_byte_eq, strtolHex, show isspace 45 = false from rfl, skip0x_singleton, hexDigits, hb,
          hclamp]
      rw [hread]
      by_cases hzero : y = 0
      · subst hzero
        rw [if_pos (by decide), if_pos (hexDigit_zero_iff.mp hb)]
        rfl
      · have hne : b ≠ 48 := by
          rintro rfl
          exact hzero (Option.some.inj (hb.symm.trans (hexDigit_zero_iff.mpr rfl)))
        rw [if_neg (by omega), if_neg hne]
  | none =>
      have hne : b ≠ 48 := by
        rintro rfl
        cases hb
      simp [hex_byte_eq, strtolHex, show isspace 45 = false from rfl, skip0x_singleton, hb, hne]

/-- Nothing else is read. -/
theorem hex_byte_of_other (hdigit : hexDigit a = none) (hspace : isspace a = false) (hplus : a ≠ 43)
    (hminus : a ≠ 45) : hex_byte a b = none := by
  simp [hex_byte_eq, strtolHex, hspace, hminus, hplus, skip0x_pair, hdigit]

/-- What is no pair of digits is a loose escape, with a value below 16, or is not read. -/
theorem hex_byte_cases (hpair : hexPair a b = none) :
    LooseEscape a b ∧ (∃ y < 16, hex_byte a b = some (UInt8.ofNat y)) ∨
      ¬LooseEscape a b ∧ hex_byte a b = none := by
  cases ha : hexDigit a with
  | some x =>
      obtain ⟨-, hspace, hminus, hplus⟩ := hexDigit_eq_some ha
      have hb : hexDigit b = none := by
        cases hb : hexDigit b with
        | none => rfl
        | some y => simp [hexPair, ha, hb] at hpair
      exact .inr ⟨by simp [LooseEscape, hspace, hplus, hminus], hex_byte_of_digit_left ha hb⟩
  | none =>
      by_cases hskip : isspace a = true ∨ a = 43
      · have hminus : a ≠ 45 := by
          rintro rfl
          exact absurd hskip (by decide)
        cases hb : hexDigit b with
        | some y =>
            refine .inl ⟨.inl ⟨hskip, by rw [hb]; rfl⟩, y, (hexDigit_eq_some hb).1, ?_⟩
            rw [hex_byte_of_skipped hskip, hb]
            rfl
        | none =>
            refine .inr ⟨by simp [LooseEscape, hb, hminus], ?_⟩
            rw [hex_byte_of_skipped hskip, hb]
            rfl
      · by_cases hminus : a = 45
        · subst hminus
          by_cases hb : b = 48
          · exact .inl ⟨.inr ⟨rfl, hb⟩, 0, by decide, by rw [hex_byte_of_minus, if_pos hb]; rfl⟩
          · refine .inr ⟨?_, by rw [hex_byte_of_minus, if_neg hb]⟩
            rintro (⟨hskip', -⟩ | ⟨-, hb'⟩)
            · exact hskip hskip'
            · exact hb hb'
        · obtain ⟨hspace, hplus⟩ := not_or.mp hskip
          refine .inr ⟨by simp [LooseEscape, hspace, hplus, hminus], ?_⟩
          exact hex_byte_of_other ha (Bool.eq_false_iff.mpr hspace) hplus hminus

/-- What `strtol` takes besides two digits. -/
theorem hex_byte_isSome_iff (hpair : hexPair a b = none) :
    (hex_byte a b).isSome ↔ LooseEscape a b := by
  rcases hex_byte_cases hpair with ⟨hloose, y, -, hread⟩ | ⟨hloose, hread⟩
  · simp [hloose, hread]
  · simp [hloose, hread]

/-- `url_decode` takes every escape, and never `%` for anything else. -/
theorem extends_hex_byte : Extends hex_byte hexPair where
  keeps a b d hpair := by
    cases ha : hexDigit a with
    | none => simp [hexPair, ha] at hpair
    | some x =>
        cases hb : hexDigit b with
        | none => simp [hexPair, ha, hb] at hpair
        | some y =>
            rw [hexPair, ha, hb] at hpair
            rw [hex_byte_of_digits ha hb]
            exact hpair
  other a b hpair := by
    rcases hex_byte_cases hpair with ⟨-, y, hy, hread⟩ | ⟨-, hread⟩
    · rw [hread]
      intro heq
      have hvalue := congrArg UInt8.toNat (Option.some.inj heq)
      rw [UInt8.toNat_ofNat', Nat.mod_eq_of_lt (by omega)] at hvalue
      have h37 : y = 37 := hvalue
      omega
    · rw [hread]
      simp

end Recognize

section Decode

/-- One turn of the loop of `url_decode`. -/
theorem url_decode_loop_cons (room : Nat) (c : UInt8) (rest : Text) :
    url_decode_loop (room + 1) (c :: rest) =
      match rest with
      | a :: b :: tail =>
          match if c = 37 then hex_byte a b else none with
          | some d => d :: url_decode_loop room tail
          | none => unplus c :: url_decode_loop room (a :: b :: tail)
      | _ => unplus c :: url_decode_loop room rest := by
  conv_lhs => unfold url_decode_loop
  split
  · trivial
  · trivial
  · grind [unplus]
  · grind [unplus]

/-- The loop decodes with `strtol` for a recognizer, as far as there is room. -/
theorem url_decode_loop_eq_take (room : Nat) (s : Text) :
    url_decode_loop room s = (decodeWith hex_byte s).take room := by
  induction room generalizing s with
  | zero => rfl
  | succ room ih =>
      match s with
      | [] => rfl
      | [c] =>
          rw [url_decode_loop_cons]
          exact congrArg (_ :: ·) (ih [])
      | [c, a] =>
          rw [url_decode_loop_cons]
          exact congrArg (_ :: ·) (ih [a])
      | c :: a :: b :: tail =>
          rw [url_decode_loop_cons, decodeWith]
          dsimp only
          cases if c = 37 then hex_byte a b else none with
          | some d => exact congrArg (d :: ·) (ih tail)
          | none => exact congrArg (unplus c :: ·) (ih (a :: b :: tail))

/-- A source that is shorter than the buffer is decoded as a whole, up to a NUL. -/
theorem url_decode_eq_cstr {src : Text} {dst_size : Nat} (hlen : src.length < dst_size) :
    url_decode src dst_size = cstr (decodeWith hex_byte src) := by
  have hfit := (length_decodeWith_le hex_byte src).trans (Nat.le_sub_one_of_lt hlen)
  rw [url_decode, url_decode_loop_eq_take, List.take_of_length_le hfit]

end Decode

/-- A text that begins with a loose escape. -/
def BeginsLoose (s : Text) : Prop :=
  ∃ a b rest, s = 37 :: a :: b :: rest ∧ LooseEscape a b

/-- The scan of the decoding meets no loose escape. -/
def NoLooseEscape (s : Text) : Prop := ∀ k, ¬BeginsLoose ((behindUnit hexPair)^[k] s)

/-- A loose escape is no pair of digits. -/
theorem LooseEscape.hexPair_eq_none {a b : UInt8} (h : LooseEscape a b) : hexPair a b = none := by
  cases ha : hexDigit a with
  | none => rw [hexPair, ha]
  | some x =>
      obtain ⟨-, hspace, hminus, hplus⟩ := hexDigit_eq_some ha
      rcases h with ⟨hskip | heq, -⟩ | ⟨heq, -⟩
      · rw [hspace] at hskip
        cases hskip
      · exact absurd heq hplus
      · exact absurd heq hminus

theorem looseAt_iff (s : Text) : LooseAt hex_byte hexPair s ↔ BeginsLoose s := by
  constructor
  · rintro ⟨hnone, hsome⟩
    match s with
    | c :: a :: b :: rest =>
        by_cases hc : c = 37
        · rw [escapeAt, if_pos hc] at hnone hsome
          rw [Option.isNone_iff_eq_none] at hnone
          exact ⟨a, b, rest, by rw [hc], (hex_byte_isSome_iff hnone).mp hsome⟩
        · rw [escapeAt, if_neg hc] at hsome
          cases hsome
  · rintro ⟨a, b, rest, rfl, hloose⟩
    have hpair := hloose.hexPair_eq_none
    constructor
    · rw [escapeAt, if_pos rfl, hpair]
      rfl
    · rw [escapeAt, if_pos rfl]
      exact (hex_byte_isSome_iff hpair).mpr hloose

/-- A source that fits is decoded as the reference does it exactly where it has no loose escape
and no NUL in its decoding. -/
theorem url_decode_eq_iff {src : Text} {dst_size : Nat} (hlen : src.length < dst_size) :
    url_decode src dst_size = decodeWith hexPair src ↔
      0 ∉ decodeWith hexPair src ∧ NoLooseEscape src := by
  have hprefix := extends_hex_byte.isPrefix_iff src
  simp only [looseAt_iff] at hprefix
  rw [url_decode_eq_cstr hlen]
  constructor
  · intro heq
    have hbegins : decodeWith hexPair src <+: decodeWith hex_byte src := by
      rw [← heq]
      exact List.takeWhile_prefix _
    refine ⟨?_, hprefix.mp hbegins⟩
    rw [← heq]
    exact zero_notMem_cstr (decodeWith hex_byte src)
  · rintro ⟨hzero, hstrict⟩
    have hnone : ∀ k, ¬LooseAt hex_byte hexPair ((behindUnit hexPair)^[k] src) := by
      simpa only [looseAt_iff, NoLooseEscape] using hstrict
    rw [extends_hex_byte.decodeWith_eq hnone, cstr_eq_self hzero]

/-- The bytes that `url_decode` stores and its terminator are inside the buffer. They are
the first `dst_size - 1` bytes of the decoding, if and only if the scan of the decoding
meets no loose escape in front of its first `dst_size - 1` bytes. -/
theorem url_decode_loop_eq_iff (src : Text) {dst_size : Nat} (hsize : 1 ≤ dst_size) :
    (url_decode_loop (dst_size - 1) src).length < dst_size ∧
      (url_decode_loop (dst_size - 1) src = (decodeWith hexPair src).take (dst_size - 1) ↔
        ∀ k < dst_size - 1, ¬BeginsLoose ((behindUnit hexPair)^[k] src)) := by
  rw [url_decode_loop_eq_take]
  constructor
  · have hlen := List.length_take_le (dst_size - 1) (decodeWith hex_byte src)
    omega
  · rw [extends_hex_byte.take_decodeWith_eq_iff]
    simp only [looseAt_iff]

/-- A byte and an escape in a buffer of eight. -/
theorem url_decode_loop_eq_iff_escape :
    (url_decode_loop (8 - 1) (text "a%41")).length < 8 ∧
      (url_decode_loop (8 - 1) (text "a%41") = (decodeWith hexPair (text "a%41")).take (8 - 1) ↔
        ∀ k < 8 - 1, ¬BeginsLoose ((behindUnit hexPair)^[k] (text "a%41"))) :=
  url_decode_loop_eq_iff (text "a%41") (by decide)

/-- A plus between `%` and a digit is taken for a sign. -/
theorem url_decode_loop_takes_sign : ¬∀ (src : Text) (dst_size : Nat), 0 ∉ src → 1 ≤ dst_size →
    (url_decode_loop (dst_size - 1) src).length < dst_size ∧
      url_decode_loop (dst_size - 1) src = (decodeWith hexPair src).take (dst_size - 1) := by
  intro hall
  exact absurd (hall (text "%+5") 8 (by decide) (by decide)).2 (by decide)

end OtusCProg.HttpServer
