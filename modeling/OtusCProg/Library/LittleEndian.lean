import Mathlib.Data.List.Basic
import Mathlib.Tactic.NormNum

/-!
# Little-endian fields in a byte string

Fields of 16 and 32 bits as bytes, and their values read back at an offset. A
read is `none` where it would leave the string. Reading commutes with a prefix
put in front of the string.
-/

namespace OtusCProg.Library.LittleEndian

/-- The two bytes of a 16-bit field. -/
def encode16 (n : Nat) : List UInt8 := [UInt8.ofNat n, UInt8.ofNat (n / 2 ^ 8)]

/-- The four bytes of a 32-bit field. -/
def encode32 (n : Nat) : List UInt8 :=
  [UInt8.ofNat n, UInt8.ofNat (n / 2 ^ 8), UInt8.ofNat (n / 2 ^ 16), UInt8.ofNat (n / 2 ^ 24)]

/-- The 16-bit value at the front. -/
def decode16 : List UInt8 → Option Nat
  | a :: b :: _ => some (a.toNat + 2 ^ 8 * b.toNat)
  | _ => none

/-- The 32-bit value at the front. -/
def decode32 : List UInt8 → Option Nat
  | a :: b :: c :: d :: _ =>
      some (a.toNat + 2 ^ 8 * b.toNat + 2 ^ 16 * c.toNat + 2 ^ 24 * d.toNat)
  | _ => none

/-- The value of the 16-bit field at offset `p`. -/
def read16 (src : List UInt8) (p : Nat) : Option Nat := decode16 (src.drop p)

/-- The value of the 32-bit field at offset `p`. -/
def read32 (src : List UInt8) (p : Nat) : Option Nat := decode32 (src.drop p)

/-- The `n` bytes from offset `p` on. -/
def slice (src : List UInt8) (p n : Nat) : List UInt8 := (src.drop p).take n

@[simp] theorem length_encode16 (n : Nat) : (encode16 n).length = 2 := rfl

@[simp] theorem length_encode32 (n : Nat) : (encode32 n).length = 4 := rfl

theorem decode16_encode16 {n : Nat} (h : n < 2 ^ 16) (rest : List UInt8) :
    decode16 (encode16 n ++ rest) = some n := by
  simp only [encode16, List.cons_append, decode16, UInt8.toNat_ofNat', Option.some.injEq]
  omega

theorem decode32_encode32 {n : Nat} (h : n < 2 ^ 32) (rest : List UInt8) :
    decode32 (encode32 n ++ rest) = some n := by
  simp only [encode32, List.cons_append, decode32, UInt8.toNat_ofNat', Option.some.injEq]
  omega

section Fields
variable {src rest : List UInt8} {p n : Nat}

/-- A 16-bit field in front, and the string behind it. -/
theorem read16_field (h : src.drop p = encode16 n ++ rest) (hn : n < 2 ^ 16) :
    read16 src p = some n ∧ src.drop (p + 2) = rest := by
  constructor
  · rw [read16, h, decode16_encode16 hn]
  · rw [← List.drop_drop, h]
    rfl

/-- A 32-bit field in front, and the string behind it. -/
theorem read32_field (h : src.drop p = encode32 n ++ rest) (hn : n < 2 ^ 32) :
    read32 src p = some n ∧ src.drop (p + 4) = rest := by
  constructor
  · rw [read32, h, decode32_encode32 hn]
  · rw [← List.drop_drop, h]
    rfl

/-- A 32-bit field has a value of 32 bits. -/
theorem read32_lt (h : read32 src p = some n) : n < 2 ^ 32 := by
  unfold read32 at h
  match hdrop : src.drop p with
  | [] | [_] | [_, _] | [_, _, _] =>
      rw [hdrop] at h
      cases h
  | a :: b :: c :: d :: _ =>
      rw [hdrop] at h
      obtain rfl := Option.some.inj h
      have ha := a.toNat_lt
      have hb := b.toNat_lt
      have hc := c.toNat_lt
      have hd := d.toNat_lt
      omega

/-- Bytes in front, and the string behind them. -/
theorem slice_field {bytes : List UInt8} (h : src.drop p = bytes ++ rest) :
    slice src p bytes.length = bytes ∧ src.drop (p + bytes.length) = rest := by
  constructor
  · rw [slice, h, List.take_left]
  · rw [← List.drop_drop, h, List.drop_left]

end Fields

section Prefix
variable (front src : List UInt8) (p n : Nat)

theorem drop_front : (front ++ src).drop (front.length + p) = src.drop p := by
  rw [← List.drop_drop, List.drop_left]

@[simp] theorem read16_front : read16 (front ++ src) (front.length + p) = read16 src p := by
  rw [read16, read16, drop_front]

@[simp] theorem read32_front : read32 (front ++ src) (front.length + p) = read32 src p := by
  rw [read32, read32, drop_front]

@[simp] theorem slice_front : slice (front ++ src) (front.length + p) n = slice src p n := by
  rw [slice, slice, drop_front]

end Prefix

end OtusCProg.Library.LittleEndian
