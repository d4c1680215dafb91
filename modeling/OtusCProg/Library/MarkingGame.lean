import Mathlib.Data.Finset.Card
import Mathlib.Data.Fintype.Basic
import Mathlib.Data.Fintype.Card

/-!
# Games of marks on a board

Two players put their marks on the empty cells of a board in turn. Who owns
every cell of a line has completed it.
-/

namespace OtusCProg.Library
variable {Cell Mark : Type*} {board : Cell → Option Mark} {lines : List (List Cell)}
  {first second m n : Mark} {c d : Cell} {firstToMove : Bool}

/-- Some line is owned by the player. -/
def Completed (lines : List (List Cell)) (board : Cell → Option Mark) (m : Mark) : Prop :=
  ∃ line ∈ lines, ∀ c ∈ line, board c = some m

/-- No cell is empty. -/
def Full (board : Cell → Option Mark) : Prop := ∀ c, board c ≠ none

/-- Nothing more is put on a full board, or on one where a line is completed. -/
def Over (lines : List (List Cell)) (board : Cell → Option Mark) : Prop :=
  (∃ m, Completed lines board m) ∨ Full board

/-- At most one cell has changed, and only an empty one. -/
def OneFilled (board next : Cell → Option Mark) : Prop :=
  ∃ c, (∀ d ≠ c, next d = board d) ∧ (next c ≠ board c → board c = none)

theorem OneFilled.refl [Nonempty Cell] (board : Cell → Option Mark) : OneFilled board board := by
  obtain ⟨c⟩ := ‹Nonempty Cell›
  exact ⟨c, fun _ _ => rfl, fun h => absurd rfl h⟩

section Put
variable [DecidableEq Cell]

/-- The board after a mark is put on a cell. -/
def put (board : Cell → Option Mark) (c : Cell) (m : Mark) : Cell → Option Mark :=
  Function.update board c (some m)

@[simp] theorem put_self : put board c m c = some m :=
  Function.update_self ..

@[simp] theorem put_of_ne (hne : d ≠ c) : put board c m d = board d :=
  Function.update_of_ne hne ..

theorem OneFilled.put (hempty : board c = none) : OneFilled board (put board c m) :=
  ⟨c, fun _ hne => put_of_ne hne, fun _ => hempty⟩

/-- A mark completes no line of the other player. -/
theorem Completed.of_put (hne : n ≠ m) (h : Completed lines (put board c m) n) :
    Completed lines board n := by
  obtain ⟨line, hline, howns⟩ := h
  refine ⟨line, hline, ?_⟩
  intro d hd
  have hown := howns d hd
  by_cases hdc : d = c
  · subst hdc
    rw [put_self] at hown
    exact absurd (Option.some.inj hown).symm hne
  · rwa [put_of_ne hdc] at hown

end Put

section Marks
variable [Fintype Cell] [DecidableEq Mark]

/-- The number of cells with the mark. -/
def marks (board : Cell → Option Mark) (m : Mark) : Nat :=
  (Finset.univ.filter fun c => board c = some m).card

theorem marks_empty (m : Mark) : marks (fun _ : Cell => none) m = 0 := by
  simp [marks]

theorem marks_put_same [DecidableEq Cell] (hempty : board c = none) : marks (put board c m) m = marks board m + 1 := by
  have hcells : (Finset.univ.filter fun d => put board c m d = some m)
      = insert c (Finset.univ.filter fun d => board d = some m) := by
    ext d
    by_cases hdc : d = c <;> simp [hdc]
  rw [marks, hcells, Finset.card_insert_of_notMem (by simp [hempty]), marks]

theorem marks_put_other [DecidableEq Cell] (hempty : board c = none) (hne : n ≠ m) :
    marks (put board c m) n = marks board n := by
  have hcells : (Finset.univ.filter fun d => put board c m d = some n)
      = Finset.univ.filter fun d => board d = some n := by
    ext d
    by_cases hdc : d = c
    · simp [hdc, hempty, hne.symm]
    · simp [hdc]
  rw [marks, hcells, marks]

/-- What two players who move in turn, and stop at the first completed line, can reach: the first
has one mark more when it is the turn of the second, and a line belongs to who has just moved. -/
structure Legal (lines : List (List Cell)) (first second : Mark) (board : Cell → Option Mark)
    (firstToMove : Bool) : Prop where
  counts : marks board first = marks board second + if firstToMove then 0 else 1
  first_line : Completed lines board first → firstToMove = false
  second_line : Completed lines board second → firstToMove = true

namespace Legal

/-- The empty board, where no line is empty. -/
theorem empty (hlines : [] ∉ lines) : Legal lines first second (fun _ : Cell => none) true := by
  have hnone : ∀ m, ¬Completed lines (fun _ : Cell => none) (m : Mark) := by
    rintro m ⟨line, hline, howns⟩
    cases line with
    | nil => exact hlines hline
    | cons c rest => cases howns c List.mem_cons_self
  exact ⟨by simp [marks_empty], fun h => absurd h (hnone _), fun h => absurd h (hnone _)⟩

/-- The player whose turn it is marks an empty cell of a board without completed lines. -/
theorem move [DecidableEq Cell] (h : Legal lines first second board firstToMove) (hplayers : first ≠ second)
    (hopen : ∀ m, ¬Completed lines board m) (hempty : board c = none) :
    Legal lines first second (put board c (if firstToMove then first else second))
      (!firstToMove) := by
  have hcounts := h.counts
  cases firstToMove with
  | true =>
      refine ⟨?_, fun _ => rfl, ?_⟩
      · have hsame := marks_put_same (m := first) hempty
        have hother := marks_put_other hempty hplayers.symm
        simp only [if_true] at hcounts ⊢
        simp only [Bool.not_true, Bool.false_eq_true, if_false]
        omega
      · intro hline
        exact absurd (hline.of_put hplayers.symm) (hopen second)
  | false =>
      refine ⟨?_, ?_, fun _ => rfl⟩
      · have hsame := marks_put_same (m := second) hempty
        have hother := marks_put_other hempty hplayers
        simp only [Bool.false_eq_true, if_false] at hcounts ⊢
        simp only [Bool.not_false, if_true]
        omega
      · intro hline
        exact absurd (hline.of_put hplayers) (hopen first)

/-- The first player is ahead by at most one mark, and by none exactly when it is its turn. -/
theorem difference (h : Legal lines first second board firstToMove) :
    ((marks board first : ℤ) - marks board second = 0 ∨
      (marks board first : ℤ) - marks board second = 1) ∧
      ((marks board first : ℤ) - marks board second = 0 ↔ firstToMove = true) := by
  have hcounts := h.counts
  cases firstToMove <;> simp at hcounts ⊢ <;> omega

/-- No two players have both completed a line. -/
theorem not_both (h : Legal lines first second board firstToMove) :
    ¬(Completed lines board first ∧ Completed lines board second) := by
  rintro ⟨hfirst, hsecond⟩
  cases (h.first_line hfirst).symm.trans (h.second_line hsecond)

end Legal
end Marks

end OtusCProg.Library
