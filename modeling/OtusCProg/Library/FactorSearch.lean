import Mathlib.Algebra.Order.Field.Basic
import Mathlib.Tactic.Linarith
import Mathlib.Tactic.NormNum
import Mathlib.Tactic.Ring

/-!
# Searching a change of sign by factors

A search on the positive numbers multiplies its point while the function is
positive and divides it otherwise. From the first change of sign on its factor
goes half the way to 1 before each move, so that the factor squared is not less
than the factor before. Then an earlier point on the other side of the change
always lies within one factor.
-/

namespace OtusCProg.Library
variable {R : Type*} [Field R] [LinearOrder R] [IsStrictOrderedRing R] {f : R → R}
  {x d d' least tol : R}

/-- Where the function is not positive, it is not positive further up. -/
def ChangesOnce (f : R → R) : Prop := ∀ x y, 0 < x → x ≤ y → 0 < f y → 0 < f x

/-- The point behind a move: up where the function is positive, down elsewhere. -/
def move (f : R → R) (x d : R) : R := if 0 < f x then x * d else x / d

theorem move_pos (hx : 0 < x) (hd : 0 < d) : 0 < move f x d := by
  unfold move
  split
  · exact mul_pos hx hd
  · exact div_pos hx hd

/-- A point on the other side of the change lies within a factor, and outside the tolerance. -/
def Straddled (f : R → R) (tol x d : R) : Prop :=
  ∃ y, 0 < y ∧ tol ≤ |f y| ∧
    (0 < f x ∧ f y ≤ 0 ∧ x < y ∧ y ≤ x * d ∨ f x ≤ 0 ∧ 0 < f y ∧ y < x ∧ x ≤ y * d)

/-- A move by a factor whose square is not less keeps such a point within that factor. -/
theorem Straddled.next (h : Straddled f tol x d) (hf : ChangesOnce f) (hx : 0 < x)
    (htol : tol ≤ |f x|) (hd' : 1 < d') (hsquare : d ≤ d' * d') :
    Straddled f tol (move f x d') d' := by
  have hpos' : 0 < d' := one_pos.trans hd'
  obtain ⟨y, hy, hytol, ⟨hpos, hneg, hxy, hle⟩ | ⟨hneg, hpos, hyx, hle⟩⟩ := h
  · have hmove : move f x d' = x * d' := if_pos hpos
    rw [hmove]
    rcases lt_or_ge 0 (f (x * d')) with hstill | hover
    · have hshort : x * d' < y := by
        by_contra hpast
        exact absurd (hf y (x * d') hy (not_lt.mp hpast) hstill) (not_lt.mpr hneg)
      refine ⟨y, hy, hytol, Or.inl ⟨hstill, hneg, hshort, ?_⟩⟩
      calc
        y ≤ x * d := hle
        _ ≤ x * (d' * d') := mul_le_mul_of_nonneg_left hsquare hx.le
        _ = x * d' * d' := (mul_assoc ..).symm
    · exact ⟨x, hx, htol, Or.inr ⟨hover, hpos, lt_mul_of_one_lt_right hx hd', le_rfl⟩⟩
  · have hmove : move f x d' = x / d' := if_neg (not_lt.mpr hneg)
    rw [hmove]
    rcases lt_or_ge 0 (f (x / d')) with hover | hstill
    · refine ⟨x, hx, htol, Or.inl ⟨hover, hneg, div_lt_self hx hd', ?_⟩⟩
      exact (div_mul_cancel₀ x hpos'.ne').ge
    · have hshort : y < x / d' := by
        by_contra hpast
        exact absurd (hf (x / d') y (div_pos hx hpos') (not_lt.mp hpast) hpos) (not_lt.mpr hstill)
      refine ⟨y, hy, hytol, Or.inr ⟨hstill, hpos, hshort, ?_⟩⟩
      rw [div_le_iff₀ hpos']
      calc
        x ≤ y * d := hle
        _ ≤ y * (d' * d') := mul_le_mul_of_nonneg_left hsquare hy.le
        _ = y * d' * d' := (mul_assoc ..).symm

/-- Where the function does not fall through the whole tolerance within the factor, the point meets
the tolerance. -/
theorem Straddled.meets (h : Straddled f tol x d) (hx : 0 < x)
    (hflat : ∀ x y, 0 < x → x < y → y ≤ x * d → tol ≤ f x → -tol < f y) : |f x| < tol := by
  by_contra hmissed
  rw [not_lt] at hmissed
  obtain ⟨y, hy, hytol, ⟨hpos, hneg, hxy, hle⟩ | ⟨hneg, hpos, hyx, hle⟩⟩ := h
  · rw [abs_of_pos hpos] at hmissed
    rw [abs_of_nonpos hneg] at hytol
    have hfall := hflat x y hx hxy hle hmissed
    linarith
  · rw [abs_of_nonpos hneg] at hmissed
    rw [abs_of_pos hpos] at hytol
    have hfall := hflat y x hy hyx hle hytol
    linarith

/-- The factor after a step: the middle of 1 and the factor, but no less than the least one. -/
def halved (least d : R) : R := max (0.5 * (1.0 + d)) least

theorem halved_eq (d : R) : halved least d = max ((1 + d) / 2) least := by
  have hmiddle : 0.5 * (1.0 + d) = (1 + d) / 2 := by
    norm_num
    ring
  rw [halved, hmiddle]

theorem le_halved_mul_self (hd : 0 ≤ d) : d ≤ halved least d * halved least d := by
  have hmiddle : (1 + d) / 2 ≤ halved least d := by
    rw [halved_eq]
    exact le_max_left ..
  have hnonneg : 0 ≤ (1 + d) / 2 := by linarith
  calc
    d ≤ (1 + d) / 2 * ((1 + d) / 2) := by nlinarith [sq_nonneg (d - 1)]
    _ ≤ halved least d * halved least d := mul_le_mul hmiddle hmiddle hnonneg (hnonneg.trans hmiddle)

/-- The factors of a search that begins with 2. -/
theorem halved_iterate (hone : 1 ≤ least) (htwo : least ≤ 2) (n : ℕ) :
    (halved least)^[n] 2 = max (1 + (1 / 2) ^ n) least := by
  induction n with
  | zero =>
      have hfirst : (1 : R) + (1 / 2) ^ 0 = 2 := by norm_num
      rw [hfirst, max_eq_left htwo]
      rfl
  | succ n ih =>
      have hmiddle : (1 + max (1 + (1 / 2) ^ n) least) / 2
          = max (1 + (1 / 2) ^ (n + 1)) ((1 + least) / 2) := by
        rw [add_max, ← max_div_div_right (two_pos : (0 : R) < 2).le]
        congr 1
        rw [pow_succ]
        ring
      have hsmall : (1 + least) / 2 ≤ least := by linarith
      rw [Function.iterate_succ_apply', ih, halved_eq, hmiddle, max_assoc, max_eq_right hsmall]

/-- How far a search that begins with 2 has come down by `n` steps that shrink. -/
def descent (least : R) : ℕ → R
  | 0 => 1
  | n + 1 => descent least n * (halved least)^[n + 1] 2

theorem descent_pos (hone : 1 ≤ least) (htwo : least ≤ 2) (n : ℕ) : 0 < descent least n := by
  induction n with
  | zero => exact one_pos
  | succ n ih =>
      apply mul_pos ih
      rw [halved_iterate hone htwo]
      exact lt_max_of_lt_right (one_pos.trans_le hone)

end OtusCProg.Library
