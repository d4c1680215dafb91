import Mathlib.Data.List.DropRight

/-!
# Pieces between separators

The runs of a list are its maximal parts without a separator. A scan that emits a
run when it meets the separator behind it misses a run at the end of the list.
-/

namespace OtusCProg.Library

variable {α : Type*}

/-- The maximal nonempty parts without a separator, in order. -/
def runs (p : α → Bool) (xs : List α) : List (List α) :=
  (xs.splitOnP p).filter fun run => !run.isEmpty

/-- The runs that a separator follows. -/
def closedRuns (p : α → Bool) (xs : List α) : List (List α) :=
  (xs.splitOnP p).dropLast.filter fun run => !run.isEmpty

variable {p : α → Bool} {xs run : List α}

/-- Behind the last separator stands the last piece. -/
theorem getLast_splitOnP (xs : List α) :
    (xs.splitOnP p).getLast (List.splitOnP_ne_nil p xs) = xs.rtakeWhile fun x => !p x := by
  have hparts : (xs.rdropWhile fun x => !p x) ++ (xs.rtakeWhile fun x => !p x) = xs :=
    List.rdropWhile_append_rtakeWhile
  have hfree : ∀ x ∈ xs.rtakeWhile fun x => !p x, p x = false := by
    intro x hx
    simpa using List.mem_rtakeWhile_imp hx
  rcases List.eq_nil_or_concat (xs.rdropWhile fun x => !p x) with hnil | ⟨front, c, hfront⟩
  · rw [hnil, List.nil_append] at hparts
    rw [hparts] at hfree
    simp only [List.splitOnP_eq_singleton hfree, List.getLast_singleton, hparts]
  · have hc : p c = true := by
      have hlast := List.rdropWhile_last_not (fun x => !p x) xs (by rw [hfront]; simp)
      simpa [hfront] using hlast
    have hsplit : xs.splitOnP p = front.splitOnP p ++ [xs.rtakeWhile fun x => !p x] := by
      calc
        xs.splitOnP p = (front ++ c :: xs.rtakeWhile fun x => !p x).splitOnP p := by
          rw [← List.concat_append, ← hfront, hparts]
        _ = front.splitOnP p ++ (xs.rtakeWhile fun x => !p x).splitOnP p :=
          List.splitOnP_append_cons _ _ hc
        _ = _ := by rw [List.splitOnP_eq_singleton hfree]
    simp only [hsplit, List.getLast_concat]

/-- Only a run at the end of the list is not closed. -/
theorem runs_eq_closedRuns_append (p : α → Bool) (xs : List α) :
    runs p xs = closedRuns p xs ++ [xs.rtakeWhile fun x => !p x].filter fun run => !run.isEmpty := by
  rw [runs, closedRuns, ← List.filter_append, ← getLast_splitOnP, List.dropLast_append_getLast]

/-- The closed runs are all runs exactly where no run ends the list. -/
theorem map_closedRuns_eq_iff {β : Type*} (f : List α → β) :
    (closedRuns p xs).map f = (runs p xs).map f ↔ ∀ x ∈ xs.getLast?, p x = true := by
  have hlast : (xs.rtakeWhile fun x => !p x) = [] ↔ ∀ x ∈ xs.getLast?, p x = true := by
    rw [List.rtakeWhile_eq_nil_iff]
    constructor
    · intro h x hx
      obtain ⟨front, rfl⟩ := List.getLast?_eq_some_iff.mp hx
      simpa using h (List.concat_ne_nil x front)
    · intro h hne
      simpa using h _ (List.getLast?_eq_some_getLast hne)
  rw [runs_eq_closedRuns_append, List.map_append, List.self_eq_append_right, List.map_eq_nil_iff,
    List.filter_eq_nil_iff, ← hlast]
  simp

theorem closedRuns_of_free (h : ∀ x ∈ xs, p x = false) : closedRuns p xs = [] := by
  rw [closedRuns, List.splitOnP_eq_singleton h]
  rfl

/-- The first separator closes what stands in front of it. -/
theorem closedRuns_append_cons (hrun : ∀ x ∈ run, p x = false) {c : α} (hc : p c = true)
    (xs : List α) : closedRuns p (run ++ c :: xs) =
      (if run = [] then [] else [run]) ++ closedRuns p xs := by
  rw [closedRuns, List.splitOnP_append_cons_of_forall_mem hrun c hc, List.dropLast_cons_of_ne_nil
    (List.splitOnP_ne_nil p xs), closedRuns]
  cases run with
  | nil => simp
  | cons d run => simp

end OtusCProg.Library
