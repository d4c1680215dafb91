import Mathlib.Data.List.GetD
import Mathlib.Data.Nat.ModEq

/-!
# Windows of a cyclic array

A cyclic array of `size` cells is read from a start position around its end.
The window of length `n` lists those `n` cells in reading order. Windows
compose by concatenation, and writes outside a window do not change it.
-/

namespace OtusCProg.Library.CyclicWindow

variable {α : Type*}

/-- The `n` cells read around the end of the array from `start` on. -/
def window (cells : Nat → α) (size start n : Nat) : List α :=
  (List.range n).map fun i => cells ((start + i) % size)

variable (cells : Nat → α) (size start : Nat)

@[simp] theorem window_zero : window cells size start 0 = [] := rfl

@[simp] theorem length_window (n : Nat) : (window cells size start n).length = n := by
  simp [window]

@[simp] theorem window_mod_start (n : Nat) :
    window cells size (start % size) n = window cells size start n := by
  simp [window]

/-- A window is the concatenation of its two parts. -/
theorem window_add (m n : Nat) :
    window cells size start (m + n) =
      window cells size start m ++ window cells size (start + m) n := by
  simp only [window, List.range_add, List.map_append, List.map_map]
  congr 1
  apply List.map_congr_left
  intro i _
  simp [Nat.add_assoc]

theorem take_window (k n : Nat) :
    (window cells size start n).take k = window cells size start (min k n) := by
  simp [window, ← List.map_take, List.take_range]

/-- Dropping from a window moves its start. -/
theorem drop_window {k n : Nat} (hk : k ≤ n) :
    (window cells size start n).drop k = window cells size (start + k) (n - k) := by
  have hsplit := window_add cells size start k (n - k)
  rw [Nat.add_sub_cancel' hk] at hsplit
  rw [hsplit, List.drop_left' (length_window cells size start k)]

variable {cells} {size} {start}

/-- Arrays that agree on the cells of a window have the same window. -/
theorem window_congr {cells' : Nat → α} {n : Nat}
    (h : ∀ i < n, cells ((start + i) % size) = cells' ((start + i) % size)) :
    window cells size start n = window cells' size start n := by
  apply List.map_congr_left
  intro i hi
  exact h i (List.mem_range.mp hi)

/-- A window whose cells are the entries of a list is that list. -/
theorem window_eq_of_cells {xs : List α}
    (h : ∀ i (hi : i < xs.length), cells ((start + i) % size) = xs[i]) :
    window cells size start xs.length = xs := by
  apply List.ext_getElem
  · simp
  · intro i hi hxs
    simpa [window] using h i hxs

/-- Positions less than one turn apart meet only when they are equal. -/
theorem add_mod_injective {i j : Nat} (hi : i < size) (hj : j < size)
    (h : (start + i) % size = (start + j) % size) : i = j := by
  have hmod : i ≡ j [MOD size] := Nat.ModEq.add_left_cancel' start h
  rw [Nat.ModEq, Nat.mod_eq_of_lt hi, Nat.mod_eq_of_lt hj] at hmod
  exact hmod

end OtusCProg.Library.CyclicWindow
