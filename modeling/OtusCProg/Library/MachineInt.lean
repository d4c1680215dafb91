import Mathlib.Data.Int.ModEq
import Mathlib.Tactic.NormNum
import Mathlib.Tactic.Positivity
import Mathlib.Tactic.Ring

/-!
# Fixed-width integers as integers with explicit wrap-around

A conversion to an unsigned type of `w` bits keeps the value modulo `2 ^ w`.
A conversion to a signed type of `w` bits keeps the representative of that
class between `-2 ^ (w - 1)` and `2 ^ (w - 1)`. A number is given by its digits.
-/

namespace OtusCProg.Library.MachineInt

/-- Conversion to an unsigned integer type of `w` bits. -/
def toUnsigned (w : Nat) (x : Int) : Nat := (x % 2 ^ w).toNat

/-- Conversion to a signed integer type of `w` bits. -/
def toSigned (w : Nat) (x : Int) : Int := Int.bmod x (2 ^ w)

theorem toUnsigned_lt (w : Nat) (x : Int) : toUnsigned w x < 2 ^ w := by
  have hpos : (0 : Int) < 2 ^ w := by positivity
  have hlt := Int.emod_lt_of_pos x hpos
  have hnonneg := Int.emod_nonneg x hpos.ne'
  unfold toUnsigned
  have : ((2 ^ w : Nat) : Int) = 2 ^ w := by push_cast; rfl
  omega

@[simp] theorem toUnsigned_natCast (w n : Nat) : toUnsigned w (n : Int) = n % 2 ^ w := by
  have h : ((n : Int) % 2 ^ w) = ((n % 2 ^ w : Nat) : Int) := by push_cast; rfl
  rw [toUnsigned, h, Int.toNat_natCast]

/-- In range the unsigned conversion keeps the value. -/
theorem toUnsigned_of_range {w : Nat} {x : Int} (hnonneg : 0 ≤ x) (hlt : x < 2 ^ w) :
    (toUnsigned w x : Int) = x := by
  rw [toUnsigned, Int.emod_eq_of_lt hnonneg hlt, Int.toNat_of_nonneg hnonneg]

/-- In range the signed conversion keeps the value. -/
theorem toSigned_of_range {w : Nat} {x : Int} (hlow : -2 ^ w ≤ x) (hhigh : x < 2 ^ w) :
    toSigned (w + 1) x = x := by
  have hpow : ((2 ^ (w + 1) : Nat) : Int) = 2 * 2 ^ w := by push_cast; ring
  apply Int.bmod_eq_of_le
  · omega
  · omega

/-- Numbers of at most `k` digits are equal when their digits are. -/
theorem eq_of_digits (base k : Nat) {a b : Nat} (ha : a < base ^ k)
    (hb : b < base ^ k) (hdigit : ∀ i < k, a / base ^ i % base = b / base ^ i % base) : a = b := by
  induction k generalizing a b with
  | zero =>
      rw [Nat.pow_zero] at ha hb
      omega
  | succ k ih =>
      have hlow : a % base = b % base := by
        simpa using hdigit 0 (Nat.succ_pos k)
      have hhigh : a / base = b / base := by
        apply ih
        · exact Nat.div_lt_of_lt_mul (by rwa [Nat.pow_succ, Nat.mul_comm] at ha)
        · exact Nat.div_lt_of_lt_mul (by rwa [Nat.pow_succ, Nat.mul_comm] at hb)
        · intro i hi
          rw [Nat.div_div_eq_div_mul, Nat.div_div_eq_div_mul, ← Nat.pow_succ']
          exact hdigit (i + 1) (Nat.succ_lt_succ hi)
      rw [← Nat.div_add_mod a base, ← Nat.div_add_mod b base, hlow, hhigh]

end OtusCProg.Library.MachineInt
