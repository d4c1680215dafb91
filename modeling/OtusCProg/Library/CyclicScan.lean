import Mathlib.Data.List.Basic
import Mathlib.Data.Nat.ModEq

/-!
# Scanning a table around its end

Two loops walk a table of `size` cells from a start index, wrapping to zero.
`seek` runs until it hits, `search` also gives up when it is back at its
start. Both find the first hit in cyclic order.
-/

namespace OtusCProg.Library.CyclicScan

/-- `index++; if (index >= size) index = 0;` -/
def next (size index : Nat) : Nat := if index + 1 ≥ size then 0 else index + 1

/-- `while (!hit(index)) next`, for at most `fuel` tests. -/
def seek (hit : Nat → Bool) (size : Nat) : Nat → Nat → Option Nat
  | 0, _ => none
  | fuel + 1, index => if hit index then some index else seek hit size fuel (next size index)

/-- `while (!hit(index)) { next; if (index == init) give up; }`, for at most `fuel` tests. -/
def search (hit : Nat → Bool) (size init : Nat) : Nat → Nat → Option Nat
  | 0, _ => none
  | fuel + 1, index =>
      if hit index then some index
      else if next size index = init then none
      else search hit size init fuel (next size index)

variable {hit : Nat → Bool} {size init : Nat}

theorem next_mod (hpos : 0 < size) (i : Nat) : next size (i % size) = (i + 1) % size := by
  have hlt : i % size < size := Nat.mod_lt _ hpos
  have hmod : (i + 1) % size = (i % size + 1) % size := by rw [Nat.mod_add_mod]
  rw [hmod, next]
  split
  · have hend : i % size + 1 = size := by omega
    rw [hend, Nat.mod_self]
  · rw [Nat.mod_eq_of_lt (show i % size + 1 < size by omega)]

/-- What `seek` finds is hit and lies in the table. -/
theorem seek_sound (hpos : 0 < size) {fuel i j : Nat}
    (h : seek hit size fuel (i % size) = some j) : hit j = true ∧ j < size := by
  induction fuel generalizing i with
  | zero => simp [seek] at h
  | succ fuel ih =>
      rw [seek] at h
      split at h
      · rename_i hhit
        obtain rfl := Option.some.inj h
        exact ⟨hhit, Nat.mod_lt _ hpos⟩
      · rw [next_mod hpos] at h
        exact ih h

/-- What `seek` finds is the first hit behind its start. -/
theorem seek_first (hpos : 0 < size) {fuel i j : Nat}
    (h : seek hit size fuel (i % size) = some j) :
    ∃ t < fuel, (i + t) % size = j ∧ ∀ s < t, hit ((i + s) % size) = false := by
  induction fuel generalizing i with
  | zero => simp [seek] at h
  | succ fuel ih =>
      rw [seek] at h
      split at h
      · exact ⟨0, Nat.succ_pos fuel, Option.some.inj h, nofun⟩
      · rename_i hmiss
        rw [next_mod hpos] at h
        obtain ⟨t, ht, hj, hbefore⟩ := ih h
        refine ⟨t + 1, Nat.succ_lt_succ ht, ?_, ?_⟩
        · rwa [Nat.add_comm t 1, ← Nat.add_assoc]
        · intro s hs
          cases s with
          | zero => exact Bool.eq_false_iff.mpr hmiss
          | succ s =>
              rw [Nat.add_comm s 1, ← Nat.add_assoc]
              exact hbefore s (Nat.lt_of_succ_lt_succ hs)

/-- `seek` stops at a hit that has none before it. -/
theorem seek_eq_some (hpos : 0 < size) {fuel i t : Nat} (ht : t < fuel)
    (hhit : hit ((i + t) % size) = true) (hbefore : ∀ s < t, hit ((i + s) % size) = false) :
    seek hit size fuel (i % size) = some ((i + t) % size) := by
  induction fuel generalizing i t with
  | zero => omega
  | succ fuel ih =>
      rw [seek]
      cases t with
      | zero => exact if_pos hhit
      | succ t =>
          have hmiss : hit (i % size) = false := hbefore 0 (Nat.succ_pos t)
          rw [if_neg (Bool.eq_false_iff.mp hmiss), next_mod hpos]
          have hshift : i + (t + 1) = i + 1 + t := by omega
          rw [hshift] at hhit ⊢
          apply ih (Nat.lt_of_succ_lt_succ ht) hhit
          intro s hs
          have hmore := hbefore (s + 1) (Nat.succ_lt_succ hs)
          rwa [Nat.add_comm s 1, ← Nat.add_assoc] at hmore

/-- `seek` hits as soon as some cell among its first `fuel` ones is a hit. -/
theorem seek_isSome (hpos : 0 < size) {fuel i t : Nat} (ht : t < fuel)
    (hhit : hit ((i + t) % size) = true) : (seek hit size fuel (i % size)).isSome := by
  induction fuel generalizing i t with
  | zero => omega
  | succ fuel ih =>
      rw [seek]
      split
      · rfl
      · rename_i hmiss
        cases t with
        | zero => exact absurd hhit hmiss
        | succ t =>
            rw [next_mod hpos]
            apply ih (t := t) (by omega)
            rwa [Nat.add_assoc, Nat.add_comm 1 t]

/-- Every cell of the table is met within one turn. -/
theorem exists_offset (hpos : 0 < size) (i : Nat) {j : Nat} (hj : j < size) :
    ∃ t < size, (i + t) % size = j := by
  refine ⟨(j + size - i % size) % size, Nat.mod_lt _ hpos, ?_⟩
  have hlt : i % size < size := Nat.mod_lt _ hpos
  have hsum : i % size + (j + size - i % size) = j + size := by omega
  rw [Nat.add_mod_mod, ← Nat.mod_add_mod, hsum, Nat.add_mod_right, Nat.mod_eq_of_lt hj]

/-- One turn of `seek` finds a hit whenever the table holds one. -/
theorem seek_complete (i : Nat) {j : Nat} (hj : j < size) (hhit : hit j = true) :
    (seek hit size size (i % size)).isSome := by
  have hpos : 0 < size := by omega
  obtain ⟨t, ht, heq⟩ := exists_offset hpos i hj
  exact seek_isSome hpos ht (by rw [heq]; exact hhit)

/-- From `t` cells behind its start, `search` does what `seek` does in the rest of the turn. -/
theorem search_eq_seek_aux (hinit : init < size) {fuel t : Nat} (hsum : t + fuel = size) :
    search hit size init fuel ((init + t) % size) = seek hit size fuel ((init + t) % size) := by
  have hpos : 0 < size := by omega
  induction fuel generalizing t with
  | zero => rfl
  | succ fuel ih =>
      rw [search, seek, next_mod hpos]
      split
      · rfl
      · split
        · rename_i hback
          -- the index is back at its start only when the whole turn is done
          have hturn : fuel = 0 := by
            by_contra hmore
            have hmod : (init + (t + 1)) % size = (init + 0) % size :=
              hback.trans (Nat.mod_eq_of_lt hinit).symm
            have hcancel : (t + 1) % size = 0 % size := Nat.ModEq.add_left_cancel' init hmod
            rw [Nat.mod_eq_of_lt (by omega), Nat.zero_mod] at hcancel
            omega
          rw [hturn, seek]
        · exact ih (t := t + 1) (by omega)

/-- Over a whole turn the two loops agree. -/
theorem search_eq_seek (hinit : init < size) :
    search hit size init size init = seek hit size size init := by
  have h : search hit size init size ((init + 0) % size) = seek hit size size ((init + 0) % size) :=
    search_eq_seek_aux hinit (by omega)
  rwa [Nat.add_zero, Nat.mod_eq_of_lt hinit] at h

end OtusCProg.Library.CyclicScan
