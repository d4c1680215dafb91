import Mathlib.Algebra.BigOperators.Group.List.Lemmas
import Mathlib.Algebra.Order.Field.Basic
import Mathlib.Algebra.Order.BigOperators.Group.List
import Mathlib.Order.Bounds.Basic
import Mathlib.Tactic.FieldSimp
import Mathlib.Tactic.Ring

/-!
# Bounds, mean and variance of a list of numbers

The mean lies between bounds of the numbers. The variance is the mean of the
squared distances from the mean, and also the mean of the squares without the
square of the mean, which needs only two sums.
-/

namespace OtusCProg.Library

variable {F : Type*} [Field F] [LinearOrder F] [IsStrictOrderedRing F] {xs : List F}

def mean (xs : List F) : F := xs.sum / xs.length

def variance (xs : List F) : F := (xs.map fun x => (x - mean xs) ^ 2).sum / xs.length

theorem length_pos_of_ne_nil (h : xs ≠ []) : (0 : F) < xs.length :=
  Nat.cast_pos.mpr (List.length_pos_iff.mpr h)

theorem variance_nonneg (xs : List F) : 0 ≤ variance xs := by
  apply div_nonneg
  · apply List.sum_nonneg
    intro y hy
    obtain ⟨x, -, rfl⟩ := List.mem_map.mp hy
    exact sq_nonneg _
  · exact Nat.cast_nonneg _

theorem le_mean (h : xs ≠ []) {lo : F} (hlo : ∀ x ∈ xs, lo ≤ x) : lo ≤ mean xs := by
  rw [mean, le_div_iff₀ (length_pos_of_ne_nil h), mul_comm, ← nsmul_eq_mul]
  exact xs.card_nsmul_le_sum lo hlo

theorem mean_le (h : xs ≠ []) {hi : F} (hhi : ∀ x ∈ xs, x ≤ hi) : mean xs ≤ hi := by
  rw [mean, div_le_iff₀ (length_pos_of_ne_nil h), mul_comm, ← nsmul_eq_mul]
  exact xs.sum_le_card_nsmul hi hhi

omit [LinearOrder F] [IsStrictOrderedRing F] in
/-- The squared distances from any number, by two sums. -/
theorem sum_map_sub_sq (xs : List F) (c : F) :
    (xs.map fun x => (x - c) ^ 2).sum = (xs.map (· ^ 2)).sum - 2 * c * xs.sum + xs.length * c ^ 2 := by
  induction xs with
  | nil => simp
  | cons x xs ih =>
      simp only [List.map_cons, List.sum_cons, List.length_cons, Nat.cast_succ, ih]
      ring

/-- The variance in one pass. -/
theorem variance_eq (h : xs ≠ []) :
    variance xs = (xs.map (· ^ 2)).sum / xs.length - mean xs * mean xs := by
  have hlength : (xs.length : F) ≠ 0 := (length_pos_of_ne_nil h).ne'
  rw [variance, sum_map_sub_sq, mean]
  field_simp
  ring

omit [Field F] [IsStrictOrderedRing F] in
/-- One number more, and the least so far. -/
theorem isLeast_concat {lo : F} (h : IsLeast {x | x ∈ xs} lo) (d : F) :
    IsLeast {x | x ∈ xs ++ [d]} (if d < lo then d else lo) := by
  constructor
  · split
    · exact List.mem_append_right xs (List.mem_singleton_self d)
    · exact List.mem_append_left [d] h.1
  · intro x hx
    rcases List.mem_append.mp hx with hx | hx
    · split
      · rename_i hlt
        exact hlt.le.trans (h.2 hx)
      · exact h.2 hx
    · obtain rfl := List.mem_singleton.mp hx
      split
      · exact le_rfl
      · rename_i hle
        exact not_lt.mp hle

omit [Field F] [IsStrictOrderedRing F] in
/-- One number more, and the greatest so far. -/
theorem isGreatest_concat {hi : F} (h : IsGreatest {x | x ∈ xs} hi) (d : F) :
    IsGreatest {x | x ∈ xs ++ [d]} (if hi < d then d else hi) :=
  isLeast_concat (F := Fᵒᵈ) h d

end OtusCProg.Library
