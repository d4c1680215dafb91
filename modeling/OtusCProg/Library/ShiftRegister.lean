import Mathlib.Data.List.Basic

/-!
# Reflected shift registers over the two-element field

A reflected CRC keeps its remainder in a register that moves towards bit zero.
One step drops the low bit and adds the polynomial when that bit was set. The
step is additive for exclusive or, so a whole byte splits into the part that
only moves and the part that only depends on the low eight bits. The second
part is what a lookup table stores.
-/

namespace OtusCProg.Library.ShiftRegister

variable {w : Nat}

/-- One division step: drop the low bit, and add the polynomial if it was set. -/
def shiftStep (poly r : BitVec w) : BitVec w :=
  if r.getLsbD 0 then (r >>> 1) ^^^ poly else r >>> 1

/-- A fixed number of division steps. -/
def shiftSteps (poly : BitVec w) : Nat → BitVec w → BitVec w
  | 0, r => r
  | n + 1, r => shiftSteps poly n (shiftStep poly r)

@[simp] theorem shiftSteps_zero (poly r : BitVec w) : shiftSteps poly 0 r = r := rfl

@[simp] theorem shiftSteps_succ (poly r : BitVec w) (n : Nat) :
    shiftSteps poly (n + 1) r = shiftSteps poly n (shiftStep poly r) := rfl

/-- Steps taken in two parts. -/
theorem shiftSteps_add (poly : BitVec w) (m n : Nat) (r : BitVec w) :
    shiftSteps poly (m + n) r = shiftSteps poly n (shiftSteps poly m r) := by
  induction m generalizing r with
  | zero => rw [Nat.zero_add, shiftSteps_zero]
  | succ m ih => rw [Nat.succ_add, shiftSteps_succ, shiftSteps_succ, ih]

/-- A division step is additive in the register. -/
theorem shiftStep_xor (poly r s : BitVec w) :
    shiftStep poly (r ^^^ s) = shiftStep poly r ^^^ shiftStep poly s := by
  unfold shiftStep
  rw [BitVec.getLsbD_xor, BitVec.ushiftRight_xor_distrib]
  cases hr : r.getLsbD 0 <;> cases hs : s.getLsbD 0
  · simp
  · simp [BitVec.xor_assoc]
  · simp only [Bool.xor_false, if_true, Bool.false_eq_true, if_false]
    rw [BitVec.xor_assoc, BitVec.xor_comm (s >>> 1), ← BitVec.xor_assoc]
  · simp only [Bool.xor_true, Bool.not_true, Bool.false_eq_true, if_false, if_true]
    calc
      r >>> 1 ^^^ s >>> 1 = r >>> 1 ^^^ (poly ^^^ poly) ^^^ s >>> 1 := by simp
      _ = r >>> 1 ^^^ poly ^^^ (s >>> 1 ^^^ poly) := by
        rw [BitVec.xor_comm (s >>> 1) poly]
        simp only [BitVec.xor_assoc]

/-- Any number of division steps is additive in the register. -/
theorem shiftSteps_xor (poly : BitVec w) (n : Nat) (r s : BitVec w) :
    shiftSteps poly n (r ^^^ s) = shiftSteps poly n r ^^^ shiftSteps poly n s := by
  induction n generalizing r s with
  | zero => rfl
  | succ n ih => simp only [shiftSteps_succ, shiftStep_xor, ih]

/-- While only zero bits leave the register, the steps are a plain shift. -/
theorem shiftSteps_of_low_zero (poly : BitVec w) (n : Nat) (r : BitVec w)
    (hlow : ∀ i < n, r.getLsbD i = false) :
    shiftSteps poly n r = r >>> n := by
  induction n generalizing r with
  | zero => simp
  | succ n ih =>
      have hstep : shiftStep poly r = r >>> 1 := by
        simp [shiftStep, hlow 0 (by omega)]
      rw [shiftSteps_succ, hstep, ih, ← BitVec.shiftRight_add, Nat.add_comm 1 n]
      intro i hi
      rw [BitVec.getLsbD_ushiftRight]
      exact hlow (1 + i) (by omega)

/-- The steps split into a shift of the high part and a function of the low bits. -/
theorem shiftSteps_split (poly : BitVec w) (n : Nat) (r low : BitVec w)
    (hlow : ∀ i < n, low.getLsbD i = r.getLsbD i)
    (hhigh : ∀ i, n ≤ i → low.getLsbD i = false) :
    shiftSteps poly n r = shiftSteps poly n low ^^^ (r >>> n) := by
  have hsplit : r = low ^^^ (r ^^^ low) := by
    rw [BitVec.xor_comm r low, ← BitVec.xor_assoc]
    simp
  have hshift : (r ^^^ low) >>> n = r >>> n := by
    apply BitVec.eq_of_getLsbD_eq
    intro i _
    simp [BitVec.getLsbD_ushiftRight, hhigh (n + i) (by omega)]
  calc
    shiftSteps poly n r = shiftSteps poly n low ^^^ shiftSteps poly n (r ^^^ low) := by
      conv_lhs => rw [hsplit, shiftSteps_xor]
    _ = shiftSteps poly n low ^^^ (r >>> n) := by
      rw [shiftSteps_of_low_zero poly n (r ^^^ low), hshift]
      intro i hi
      simp [hlow i hi]

end OtusCProg.Library.ShiftRegister
