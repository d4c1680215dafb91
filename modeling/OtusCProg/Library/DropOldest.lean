import Mathlib.Data.List.Basic

/-!
# A bounded queue that drops its oldest entries

The queue holds at most `capacity` entries. A write appends its entries and
keeps the newest `capacity` of the result. A read takes entries from the front.
-/

namespace OtusCProg.Library

variable {α : Type*}

/-- The last `n` entries of a list, or all of it when it is shorter. -/
def lastN (n : Nat) (xs : List α) : List α := xs.drop (xs.length - n)

theorem length_lastN (n : Nat) (xs : List α) : (lastN n xs).length = min xs.length n := by
  rw [lastN, List.length_drop]
  omega

/-- When the second part fits, a suffix of the first part stays in front of it. -/
theorem lastN_append_of_le {n : Nat} (xs : List α) {ys : List α} (h : ys.length ≤ n) :
    lastN n (xs ++ ys) = xs.drop (xs.length + ys.length - n) ++ ys := by
  rw [lastN, List.length_append, List.drop_append_of_le_length (by omega)]

/-- When the second part alone reaches the bound, nothing of the first part stays. -/
theorem lastN_append_of_ge {n : Nat} (xs : List α) {ys : List α} (h : n ≤ ys.length) :
    lastN n (xs ++ ys) = lastN n ys := by
  have hlen : xs.length + ys.length - n = xs.length + (ys.length - n) := by omega
  rw [lastN, lastN, List.length_append, hlen, ← List.drop_drop, List.drop_left]

/-- A queue of bounded length; the bound is part of the value. -/
structure DropOldest (α : Type*) where
  capacity : Nat
  contents : List α
  bounded : contents.length ≤ capacity

namespace DropOldest

/-- What a client may ask of the queue. -/
inductive Op (α : Type*) where
  | write (xs : List α)
  | read (len : Nat)
  | seek
  | resize (capacity : Nat)

/-- What the queue answers: the number of accepted entries, or the entries read. -/
inductive Answer (α : Type*) where
  | accepted (n : Nat)
  | entries (xs : List α)
  | done

/-- The meaning of each operation. -/
def apply (q : DropOldest α) : Op α → DropOldest α × Answer α
  | .write xs =>
      (⟨q.capacity, lastN q.capacity (q.contents ++ xs), by rw [length_lastN]; omega⟩,
        .accepted (min xs.length q.capacity))
  | .read len =>
      (⟨q.capacity, q.contents.drop (min len q.contents.length),
          by rw [List.length_drop]; exact Nat.le_trans (Nat.sub_le _ _) q.bounded⟩,
        .entries (q.contents.take (min len q.contents.length)))
  | .seek => (q, .done)
  | .resize capacity => (⟨capacity, [], Nat.zero_le _⟩, .done)

/-- A sequence of operations with all its answers. -/
def applyAll (q : DropOldest α) : List (Op α) → DropOldest α × List (Answer α)
  | [] => (q, [])
  | op :: ops =>
      let (next, answer) := q.apply op
      let (last, answers) := next.applyAll ops
      (last, answer :: answers)

end DropOldest

end OtusCProg.Library
