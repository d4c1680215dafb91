import OtusCProg.Library.ShiftRegister

/-!
# Burst errors under a reflected shift register

When the polynomial has its top bit, a division step is injective: the top bit
after the step tells whether the polynomial was added. A string of bytes that
fits into the register acts on it as one word, so two such strings leave
different registers. Every later byte keeps the difference.
-/

namespace OtusCProg.Library.BurstDetection
open ShiftRegister

variable {w : Nat} {poly : BitVec w}

/-- With the top bit in the polynomial, only the zero register steps to zero. -/
theorem eq_zero_of_shiftStep (hpoly : poly.getLsbD (w - 1) = true) {r : BitVec w}
    (hr : shiftStep poly r = 0#w) : r = 0#w := by
  have hw : 0 < w := by
    apply Nat.pos_of_ne_zero
    rintro rfl
    simp at hpoly
  cases hlow : r.getLsbD 0 with
  | true =>
      have htop := congrArg (fun x => x.getLsbD (w - 1)) hr
      have hout : r.getLsbD (1 + (w - 1)) = false := BitVec.getLsbD_of_ge r _ (by omega)
      simp [shiftStep, hlow, hpoly, BitVec.getLsbD_ushiftRight, hout] at htop
  | false =>
      have hshift : r >>> 1 = 0#w := by simpa [shiftStep, hlow] using hr
      apply BitVec.eq_of_getLsbD_eq
      intro i _
      cases i with
      | zero => simp [hlow]
      | succ i =>
          have hbit := congrArg (fun x => x.getLsbD i) hshift
          simpa [BitVec.getLsbD_ushiftRight, Nat.add_comm] using hbit

/-- Any number of steps is injective in the register. -/
theorem shiftSteps_injective (hpoly : poly.getLsbD (w - 1) = true) (n : Nat) :
    Function.Injective (shiftSteps poly n) := by
  induction n with
  | zero => exact fun r s h => h
  | succ n ih =>
      intro r s h
      have hstep : shiftStep poly r = shiftStep poly s := ih h
      have hzero : shiftStep poly (r ^^^ s) = 0#w := by
        rw [shiftStep_xor, hstep, BitVec.xor_self]
      exact BitVec.xor_eq_zero_iff.mp (eq_zero_of_shiftStep hpoly hzero)

/-- Division of a byte string: every byte is added to the low end of the
register and moved out by eight steps. -/
def feed (poly : BitVec w) (r : BitVec w) (bytes : List UInt8) : BitVec w :=
  bytes.foldl (fun r b => shiftSteps poly 8 (r ^^^ b.toBitVec.setWidth w)) r

theorem feed_append (poly : BitVec w) (r : BitVec w) (xs ys : List UInt8) :
    feed poly r (xs ++ ys) = feed poly (feed poly r xs) ys := by
  simp [feed, List.foldl_append]

/-- Two registers stay apart under the same bytes. -/
theorem feed_injective (hpoly : poly.getLsbD (w - 1) = true) (bytes : List UInt8) :
    Function.Injective fun r => feed poly r bytes := by
  induction bytes with
  | nil => exact fun r s h => h
  | cons b bytes ih =>
      intro r s h
      have hbyte : r ^^^ b.toBitVec.setWidth w = s ^^^ b.toBitVec.setWidth w :=
        shiftSteps_injective hpoly 8 (ih h)
      exact (BitVec.xor_left_inj _).mp hbyte

/-- A byte string as one word, the first byte lowest. -/
def word (w : Nat) : List UInt8 → BitVec w
  | [] => 0#w
  | b :: bytes => b.toBitVec.setWidth w ^^^ (word w bytes <<< 8)

theorem getLsbD_byte (b : UInt8) {i : Nat} (hi : 8 ≤ i) :
    (b.toBitVec.setWidth w).getLsbD i = false := by
  rw [BitVec.getLsbD_setWidth, BitVec.getLsbD_of_ge _ _ hi, Bool.and_false]

/-- The word has no bit behind its bytes. -/
theorem word_high (bytes : List UInt8) {i : Nat} (hi : 8 * bytes.length ≤ i) :
    (word w bytes).getLsbD i = false := by
  induction bytes generalizing i with
  | nil => simp [word]
  | cons b bytes ih =>
      rw [List.length_cons] at hi
      have htail : (word w bytes).getLsbD (i - 8) = false := ih (by omega)
      rw [word, BitVec.getLsbD_xor, getLsbD_byte b (by omega), BitVec.getLsbD_shiftLeft, htail]
      simp

/-- A word that leaves room for a byte can be moved up by it and back. -/
theorem shiftLeft_shiftRight_word (bytes : List UInt8) (hlen : 8 * (bytes.length + 1) ≤ w) :
    (word w bytes <<< 8) >>> 8 = word w bytes := by
  apply BitVec.eq_of_getLsbD_eq
  intro i hi
  rw [BitVec.getLsbD_ushiftRight, BitVec.getLsbD_shiftLeft]
  by_cases hroom : 8 + i < w
  · simp [hroom]
  · rw [word_high bytes (i := i) (by omega)]
    simp only [hroom, decide_false, Bool.false_and]

/-- Bytes that fit into the register act as one word. -/
theorem feed_eq_shiftSteps (poly : BitVec w) (r : BitVec w) (bytes : List UInt8)
    (hlen : 8 * bytes.length ≤ w) :
    feed poly r bytes = shiftSteps poly (8 * bytes.length) (r ^^^ word w bytes) := by
  induction bytes generalizing r with
  | nil => simp [feed, word]
  | cons b bytes ih =>
      rw [List.length_cons] at hlen
      have hmove : shiftSteps poly 8 (word w bytes <<< 8) = word w bytes := by
        rw [shiftSteps_of_low_zero, shiftLeft_shiftRight_word bytes hlen]
        intro i hi
        simp [hi]
      calc
        feed poly r (b :: bytes)
            = feed poly (shiftSteps poly 8 (r ^^^ b.toBitVec.setWidth w)) bytes := rfl
        _ = shiftSteps poly (8 * bytes.length)
              (shiftSteps poly 8 (r ^^^ b.toBitVec.setWidth w) ^^^
                shiftSteps poly 8 (word w bytes <<< 8)) := by
          rw [ih _ (by omega), hmove]
        _ = shiftSteps poly (8 * (bytes.length + 1)) (r ^^^ word w (b :: bytes)) := by
          rw [← shiftSteps_xor, BitVec.xor_assoc, ← shiftSteps_add, word]
          congr 1
          omega

/-- Strings of one length that fit into the register are told apart by their words. -/
theorem word_injective {xs ys : List UInt8} (hlen : xs.length = ys.length)
    (hfit : 8 * xs.length ≤ w) (h : word w xs = word w ys) : xs = ys := by
  induction xs generalizing ys with
  | nil => exact (List.length_eq_zero_iff.mp hlen.symm).symm
  | cons x xs ih =>
      cases ys with
      | nil => simp at hlen
      | cons y ys =>
          rw [List.length_cons] at hfit
          simp only [List.length_cons, Nat.add_right_cancel_iff] at hlen
          have hbyte : x = y := by
            apply UInt8.toBitVec_inj.mp
            apply BitVec.eq_of_getLsbD_eq
            intro i hi
            have hbit := congrArg (fun v => v.getLsbD i) h
            simpa [word, BitVec.getLsbD_setWidth, hi, show i < w by omega] using hbit
          have htail : word w xs = word w ys := by
            have hshift : word w xs <<< 8 = word w ys <<< 8 := by
              simpa [word, hbyte] using h
            rw [← shiftLeft_shiftRight_word xs hfit, hshift,
              shiftLeft_shiftRight_word ys (by omega)]
          rw [hbyte, ih hlen (by omega) htail]

/-- Two strings that differ only inside a part that fits into the register
leave different registers. -/
theorem feed_ne_of_burst (hpoly : poly.getLsbD (w - 1) = true) (r : BitVec w)
    (before after : List UInt8) {xs ys : List UInt8} (hlen : xs.length = ys.length)
    (hfit : 8 * xs.length ≤ w) (hne : xs ≠ ys) :
    feed poly r (before ++ xs ++ after) ≠ feed poly r (before ++ ys ++ after) := by
  intro h
  simp only [feed_append] at h
  have hpart := feed_injective hpoly after h
  rw [feed_eq_shiftSteps poly _ xs hfit, feed_eq_shiftSteps poly _ ys (by omega), hlen] at hpart
  have hword := shiftSteps_injective hpoly _ hpart
  exact hne (word_injective hlen hfit ((BitVec.xor_right_inj _).mp hword))

end OtusCProg.Library.BurstDetection
