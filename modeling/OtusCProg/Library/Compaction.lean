import Mathlib.Data.List.Range
import Mathlib.Logic.Function.Basic

/-!
# Compaction of an array in place

A loop that copies the elements to keep towards the front. The result is read
off from the list of the kept positions, and nothing moves exactly when the
kept elements are in front already.
-/

namespace OtusCProg.Library.Compaction

section Loop
variable {α : Type*} (p : α → Bool)

/-- One turn of the loop; the second component counts the elements kept. -/
def keep (s : (Nat → α) × Nat) (i : Nat) : (Nat → α) × Nat :=
  if p (s.1 i) then (if i ≠ s.2 then Function.update s.1 s.2 (s.1 i) else s.1, s.2 + 1) else s

/-- The array behind the loop over its first `n` elements, and how many are left. -/
def compact (a : Nat → α) (n : Nat) : (Nat → α) × Nat := (List.range n).foldl (keep p) (a, 0)

/-- The positions of the elements kept, in their order. -/
def kept (a : Nat → α) (n : Nat) : List Nat := (List.range n).filter fun i => p (a i)

/-- No element to drop stands in front of one to keep. -/
def Packed (a : Nat → α) (n : Nat) : Prop := ∀ i j, i ≤ j → j < n → p (a j) → p (a i)

variable {p} {a : Nat → α} {n : Nat}

theorem kept_succ (a : Nat → α) (n : Nat) :
    kept p a (n + 1) = kept p a n ++ if p (a n) then [n] else [] := by
  simp [kept, List.range_succ, List.filter_append, List.filter_singleton]

theorem length_kept_le (a : Nat → α) (n : Nat) : (kept p a n).length ≤ n := by
  calc
    (kept p a n).length ≤ (List.range n).length := List.length_filter_le ..
    _ = n := List.length_range

theorem mem_kept {i : Nat} : i ∈ kept p a n ↔ i < n ∧ p (a i) := by
  simp [kept]

theorem compact_succ (a : Nat → α) (n : Nat) :
    compact p a (n + 1) = keep p (compact p a n) n := by
  simp [compact, List.range_succ, List.foldl_append]

/-- Position `k` takes the element of the `k`-th kept position; behind them nothing changes. -/
theorem compact_eq (a : Nat → α) (n : Nat) :
    compact p a n = (fun k => a ((kept p a n)[k]?.getD k), (kept p a n).length) := by
  induction n with
  | zero => rfl
  | succ n ih =>
      have hle := length_kept_le (p := p) a n
      have hlast : (kept p a n)[n]?.getD n = n := by
        rw [List.getElem?_eq_none hle, Option.getD_none]
      rw [compact_succ, ih, kept_succ]
      cases hp : p (a n) with
      | false => simp [keep, hlast, hp]
      | true =>
          simp only [keep, hlast, hp, if_true]
          refine Prod.ext ?_ (by simp)
          funext k
          by_cases hk : k = (kept p a n).length
          · subst hk
            by_cases hn : n = (kept p a n).length
            · simp [← hn]
            · simp [hn]
          · have hget : (kept p a n ++ [n])[k]?.getD k = (kept p a n)[k]?.getD k := by
              rcases Nat.lt_or_gt_of_ne hk with h | h
              · rw [List.getElem?_append_left h]
              · rw [List.getElem?_eq_none (by simp; omega), List.getElem?_eq_none (by omega)]
            by_cases hn : n = (kept p a n).length
            · simp [← hn, hget]
            · simp [hn, Function.update_of_ne hk, hget]

theorem compact_snd : (compact p a n).2 = (kept p a n).length := by
  rw [compact_eq]

/-- The element at a new position comes from the kept position of that number. -/
theorem compact_fst {k i : Nat} (h : (kept p a n)[k]? = some i) : (compact p a n).1 k = a i := by
  rw [compact_eq]
  simp [h]

/-- Every element left is one to keep. -/
theorem keeps {k : Nat} (h : k < (compact p a n).2) : p ((compact p a n).1 k) := by
  rw [compact_snd] at h
  have hget := List.getElem?_eq_getElem h
  rw [compact_fst hget]
  exact (mem_kept.mp (List.mem_of_getElem? hget)).2

theorem Packed.of_succ (h : Packed p a (n + 1)) : Packed p a n :=
  fun i j hij hj => h i j hij (by omega)

theorem Packed.kept_eq (h : Packed p a n) : kept p a n = List.range (kept p a n).length := by
  induction n with
  | zero => rfl
  | succ n ih =>
      have ih := ih h.of_succ
      rw [kept_succ]
      cases hp : p (a n) with
      | false => simpa using ih
      | true =>
          have hall : kept p a n = List.range n := by
            apply List.filter_eq_self.mpr
            intro i hi
            exact h i n (by simp at hi; omega) (by omega) hp
          simp [hall, List.range_succ]

/-- A packed array keeps all its elements where they are. -/
theorem Packed.compact_fst (h : Packed p a n) : (compact p a n).1 = a := by
  rw [compact_eq, h.kept_eq]
  funext k
  by_cases hk : k < (kept p a n).length
  · simp [hk]
  · have hnone : (List.range (kept p a n).length)[k]? = none :=
      List.getElem?_eq_none (by simpa using hk)
    simp [hnone]

theorem Packed.lt_iff (h : Packed p a n) {i : Nat} : i < (compact p a n).2 ↔ i < n ∧ p (a i) := by
  rw [compact_snd, ← mem_kept, h.kept_eq, List.length_range, List.mem_range]

theorem kept_isPrefix {m : Nat} (h : m ≤ n) : kept p a m <+: kept p a n := by
  induction n, h using Nat.le_induction with
  | base => exact List.prefix_rfl
  | succ n _ ih =>
      rw [kept_succ]
      exact ih.trans (List.prefix_append ..)

theorem length_kept_lt {i : Nat} (hi : i < n) (hp : ¬ p (a i)) : (kept p a n).length < n := by
  have hlt : (kept p a n).length < (List.range n).length :=
    List.length_filter_lt_length_iff_exists.mpr ⟨i, List.mem_range.mpr hi, hp⟩
  simpa using hlt

/-- Where the array is not packed, some element moves. -/
theorem exists_move (h : ¬ Packed p a n) : ∃ k i : Nat, (kept p a n)[k]? = some i ∧ k < i := by
  simp only [Packed, not_forall] at h
  obtain ⟨i, j, hij, hj, hkeep, hdrop⟩ := h
  have hlt : i < j := by
    rcases Nat.lt_or_eq_of_le hij with hlt | rfl
    · exact hlt
    · exact absurd hkeep hdrop
  refine ⟨(kept p a j).length, j, ?_, length_kept_lt hlt hdrop⟩
  have hnext : kept p a (j + 1) = kept p a j ++ [j] := by
    rw [kept_succ, if_pos hkeep]
  obtain ⟨rest, hrest⟩ := kept_isPrefix (p := p) (a := a) (show j + 1 ≤ n from hj)
  rw [← hrest, hnext]
  simp

end Loop

end OtusCProg.Library.Compaction
