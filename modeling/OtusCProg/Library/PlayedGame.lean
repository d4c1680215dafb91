import OtusCProg.Library.MarkingGame

/-!
# Played games

The boards that two players reach who move in turn until a line is completed are the legal ones,
where the last move can always be taken back: the lines that a player owns share a cell.
-/

namespace OtusCProg.Library
variable {Cell Mark : Type*} [DecidableEq Cell] {board : Cell → Option Mark} {lines : List (List Cell)}
  {first second m n : Mark} {c : Cell} {firstToMove : Bool}

/-- Two players move in turn from an empty board, and stop when a line is completed. -/
inductive Played (lines : List (List Cell)) (first second : Mark) :
    (Cell → Option Mark) → Bool → Prop where
  | start : Played lines first second (fun _ => none) true
  | move {board : Cell → Option Mark} {firstToMove : Bool} {c : Cell} :
      Played lines first second board firstToMove →
      (∀ m, ¬Completed lines board m) → board c = none →
      Played lines first second (put board c (if firstToMove then first else second)) (!firstToMove)

/-- All the lines inside so few cells share one of them. -/
def LinesShare (lines : List (List Cell)) (count : Nat) : Prop :=
  ∀ owned : Finset Cell, owned.card ≤ count → owned.Nonempty →
    ∃ c ∈ owned, ∀ line ∈ lines, (∀ d ∈ line, d ∈ owned) → c ∈ line

/-- The board without the mark of a cell. -/
def clear (board : Cell → Option Mark) (c : Cell) : Cell → Option Mark :=
  Function.update board c none

@[simp] theorem clear_self : clear board c c = none :=
  Function.update_self ..

@[simp] theorem clear_of_ne {d : Cell} (hne : d ≠ c) : clear board c d = board d :=
  Function.update_of_ne hne ..

theorem put_clear (hmark : board c = some m) : put (clear board c) c m = board := by
  rw [put, clear, Function.update_idem, ← hmark, Function.update_eq_self]

/-- What is completed without a mark is completed with it. -/
theorem Completed.of_clear (h : Completed lines (clear board c) m) :
    Completed lines board m ∧ ∃ line ∈ lines, c ∉ line ∧ ∀ d ∈ line, board d = some m := by
  obtain ⟨line, hline, howns⟩ := h
  have hc : c ∉ line := by
    intro hc
    have hself := howns c hc
    rw [clear_self] at hself
    cases hself
  have hkept : ∀ d ∈ line, board d = some m := by
    intro d hd
    have hne : d ≠ c := fun heq => hc (heq ▸ hd)
    rw [← howns d hd, clear_of_ne hne]
  exact ⟨⟨line, hline, hkept⟩, line, hline, hc, hkept⟩

/-- Who moves. -/
def mover (first second : Mark) (firstToMove : Bool) : Mark := if firstToMove then first else second

section Marks
variable [Fintype Cell] [DecidableEq Mark]

/-- The marks of two players are on different cells. -/
theorem marks_add_marks_le (hplayers : first ≠ second) :
    marks board first + marks board second ≤ Fintype.card Cell := by
  have hdisjoint : Disjoint (Finset.univ.filter fun c => board c = some first)
      (Finset.univ.filter fun c => board c = some second) := by
    rw [Finset.disjoint_filter]
    intro c _ hfirst hsecond
    exact hplayers (Option.some.inj (hfirst.symm.trans hsecond))
  rw [marks, marks, ← Finset.card_union_of_disjoint hdisjoint]
  exact Finset.card_le_univ _

/-- The last move on a legal board can be taken back. -/
theorem Legal.take_back (h : Legal lines first second board firstToMove) (hplayers : first ≠ second)
    (hshare : LinesShare lines ((Fintype.card Cell + 1) / 2))
    (hmarked : 0 < marks board first + marks board second) :
    ∃ c, board c = some (mover first second (!firstToMove)) ∧
      (∀ m, m = first ∨ m = second → ¬Completed lines (clear board c) m) ∧
      Legal lines first second (clear board c) (!firstToMove) := by
  have hcounts := h.counts
  have hroom : marks board first + marks board second ≤ Fintype.card Cell := marks_add_marks_le hplayers
  let owned := Finset.univ.filter fun c => board c = some (mover first second (!firstToMove))
  have howned : owned.card = marks board (mover first second (!firstToMove)) := rfl
  have hfew : owned.card ≤ (Fintype.card Cell + 1) / 2 ∧ 0 < owned.card := by
    rw [howned]
    cases firstToMove <;> simp [mover] at hcounts ⊢ <;> omega
  obtain ⟨c, hc, hline⟩ := hshare owned hfew.1 (Finset.card_pos.mp hfew.2)
  have hmark : board c = some (mover first second (!firstToMove)) := (Finset.mem_filter.mp hc).2
  have hopen : ∀ m, m = first ∨ m = second → ¬Completed lines (clear board c) m := by
    intro m hplayer hcompleted
    obtain ⟨hbefore, line, hmem, hnot, howns⟩ := hcompleted.of_clear
    by_cases hm : m = mover first second (!firstToMove)
    · subst hm
      refine hnot (hline line hmem ?_)
      intro d hd
      exact Finset.mem_filter.mpr ⟨Finset.mem_univ d, howns d hd⟩
    · cases firstToMove with
      | true =>
          obtain rfl : m = first := hplayer.resolve_right hm
          cases h.first_line hbefore
      | false =>
          obtain rfl : m = second := hplayer.resolve_left hm
          cases h.second_line hbefore
  refine ⟨c, hmark, hopen, ⟨?_, ?_, ?_⟩⟩
  · have hself : marks board (mover first second (!firstToMove)) =
        marks (clear board c) (mover first second (!firstToMove)) + 1 := by
      rw [← marks_put_same clear_self, put_clear hmark]
    have hother : ∀ n, n ≠ mover first second (!firstToMove) →
        marks board n = marks (clear board c) n := by
      intro n hne
      rw [← marks_put_other (m := mover first second (!firstToMove)) clear_self hne, put_clear hmark]
    cases firstToMove with
    | true =>
        have hfirst := hother first hplayers
        simp [mover] at hself hcounts ⊢
        omega
    | false =>
        have hsecond := hother second hplayers.symm
        simp [mover] at hself hcounts ⊢
        omega
  · exact fun hcompleted => absurd hcompleted (hopen first (Or.inl rfl))
  · exact fun hcompleted => absurd hcompleted (hopen second (Or.inr rfl))

/-- A board can be played if and only if it is legal. -/
theorem played_iff_legal (hlines : [] ∉ lines) (hplayers : first ≠ second)
    (hmarks : ∀ m, m = first ∨ m = second)
    (hshare : LinesShare lines ((Fintype.card Cell + 1) / 2)) :
    Played lines first second board firstToMove ↔ Legal lines first second board firstToMove := by
  constructor
  · intro h
    induction h with
    | start => exact Legal.empty hlines
    | move _ hopen hempty ih => exact ih.move hplayers hopen hempty
  · intro h
    induction hcount : marks board first + marks board second generalizing board firstToMove with
    | zero =>
        have hempty : board = fun _ => none := by
          funext c
          cases hc : board c with
          | none => rfl
          | some m =>
              have hmem : c ∈ Finset.univ.filter fun c => board c = some m := by simp [hc]
              have hpos : 0 < marks board m := Finset.card_pos.mpr ⟨c, hmem⟩
              rcases hmarks m with rfl | rfl <;> omega
        have hcounts := h.counts
        have hturn : firstToMove = true := by
          cases firstToMove with
          | true => rfl
          | false =>
              simp only [Bool.false_eq_true, if_false] at hcounts
              omega
        rw [hempty, hturn]
        exact Played.start
    | succ count ih =>
        obtain ⟨c, hmark, hopen, hlegal⟩ := h.take_back hplayers hshare (by omega)
        have hself : marks board (mover first second (!firstToMove)) =
            marks (clear board c) (mover first second (!firstToMove)) + 1 := by
          rw [← marks_put_same clear_self, put_clear hmark]
        have hfewer : marks (clear board c) first + marks (clear board c) second = count := by
          have hcounts := h.counts
          have hbefore := hlegal.counts
          cases firstToMove <;> simp [mover] at hself hcounts hbefore <;> omega
        have hplayed := (ih hlegal hfewer).move (fun m => hopen m (hmarks m)) clear_self
        rw [Bool.not_not] at hplayed
        have hboard : put (clear board c) c (if (!firstToMove) = true then first else second) = board :=
          put_clear hmark
        rwa [hboard] at hplayed

end Marks

end OtusCProg.Library
