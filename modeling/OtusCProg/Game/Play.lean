import OtusCProg.Game.Screen
import OtusCProg.Library.PlayedGame
import Mathlib.Data.Fintype.Powerset

/-!
# Played with the mouse

Every board that two players can reach in turn can be clicked: who clicks on the place where a
mark is drawn puts it there. So the states of the program are exactly the legal ones.
-/

namespace OtusCProg.Game
open Library
variable {board : Board} {turn : Bool} {c : Cell}

instance : Fintype Mark := ⟨{.X, .O}, by rintro (_ | _) <;> decide⟩

theorem click_col_place (col : Fin 3) {mx : ℤ} (hx : |mx - cell_x col| ≤ 54) : click_col mx = some col := by
  rw [abs_le] at hx
  match col with
  | 0 =>
      have hplace : -54 ≤ mx - 183 ∧ mx - 183 ≤ 54 := hx
      rw [click_col, if_pos (by omega)]
  | 1 =>
      have hplace : -54 ≤ mx - 400 ∧ mx - 400 ≤ 54 := hx
      rw [click_col, if_neg (by omega), if_pos (by omega)]
  | 2 =>
      have hplace : -54 ≤ mx - 617 ∧ mx - 617 ≤ 54 := hx
      rw [click_col, if_neg (by omega), if_neg (by omega), if_pos (by omega)]

theorem click_row_place (row : Fin 3) {my : ℤ} (hy : |my - cell_y row| ≤ 54) : click_row my = some row := by
  rw [abs_le] at hy
  match row with
  | 0 =>
      have hplace : -54 ≤ my - 167 ∧ my - 167 ≤ 54 := hy
      rw [click_row, if_pos (by omega)]
  | 1 =>
      have hplace : -54 ≤ my - 300 ∧ my - 300 ≤ 54 := hy
      rw [click_row, if_neg (by omega), if_pos (by omega)]
  | 2 =>
      have hplace : -54 ≤ my - 433 ∧ my - 433 ≤ 54 := hy
      rw [click_row, if_neg (by omega), if_neg (by omega), if_pos (by omega)]

/-- A player who clicks on the place of an empty cell, as far as the lines of a mark would reach,
puts a mark there. -/
theorem handle_event_place (hopen : ¬Over lines board) (hempty : board c = none) {mx my : ℤ}
    (hx : |mx - cell_x c.2| ≤ 54) (hy : |my - cell_y c.1| ≤ 54) :
    handle_event ⟨board, turn, .PLAYING⟩ (.MOUSE_BUTTON_DOWN 1 mx my) =
      ⟨put board c (if turn then .X else .O), !turn, .PLAYING⟩ := by
  have hcol : click_col mx = some c.2 := click_col_place c.2 hx
  have hrow : click_row my = some c.1 := click_row_place c.1 hy
  have hgoes : ¬((check_winner board).isSome ∨ is_board_full board = true) := fun h => hopen (over_iff.mp h)
  simp only [handle_event, handle_click, handle_board_click, hcol, hrow, hempty, hgoes, if_true, if_false]

/-- A click on the button that starts a game, or on the place where the mark of an empty cell would be
drawn. -/
def Placed (g : State) (e : Event) : Prop :=
  NewGame g e ∨ g.state = .PLAYING ∧ ∃ c mx my, g.board c = none ∧ |mx - cell_x c.2| ≤ 54 ∧
    |my - cell_y c.1| ≤ 54 ∧ e = .MOUSE_BUTTON_DOWN 1 mx my

/-- Five marks complete only lines that share a cell. -/
theorem lines_share : LinesShare lines 5 := by
  unfold LinesShare
  decide +kernel

/-- Every played board is reached by clicks on the places of its marks. -/
theorem runs_of_played (h : Played lines Mark.X Mark.O board turn) :
    Runs step Placed start ⟨board, turn, .PLAYING⟩ := by
  induction h with
  | start =>
      have hplay : NewGame start (.MOUSE_BUTTON_DOWN 1 400 325) :=
        ⟨rfl, 400, 325, rfl, by decide⟩
      exact Runs.cons (Or.inl hplay) rfl Relation.ReflTransGen.refl
  | @move board turn c _ hopen hempty ih =>
      have hgoes : ¬Over lines board := by
        rintro (⟨m, hm⟩ | hfull)
        · exact hopen m hm
        · exact hfull c hempty
      have hplaced : Placed ⟨board, turn, .PLAYING⟩ (.MOUSE_BUTTON_DOWN 1 (cell_x c.2) (cell_y c.1)) :=
        Or.inr ⟨rfl, c, _, _, hempty, by simp, by simp, rfl⟩
      refine ih.tail ⟨_, hplaced, ?_⟩
      rw [step, if_pos (by simp), handle_event_place hgoes hempty (by simp) (by simp)]

theorem runs_of_fair {g : State} (h : Fair g) (hstate : g.state = .PLAYING) :
    Runs step Placed start g := by
  have hplayed : Played lines Mark.X Mark.O g.board g.player_x_turn :=
    (played_iff_legal (by decide) (by decide) (by decide) lines_share).mpr h
  obtain ⟨board, turn, state⟩ := g
  obtain rfl : state = .PLAYING := hstate
  exact runs_of_played hplayed

/-- The states that the program reaches are the legal boards, with the menu or the board on the
screen or at its end; and each legal board on the screen is reached by clicks on the button that
starts a game and on the places of marks alone. -/
theorem runs_iff_fair (g : State) :
    (Runs step (fun _ _ => True) start g ↔ Fair g) ∧
      (Fair g → g.state = .PLAYING → Runs step Placed start g) := by
  refine ⟨⟨?_, ?_⟩, runs_of_fair⟩
  · intro h
    exact h.invariant Fair.start fun hfair _ hstep => hfair.step hstep
  · intro hfair
    have hplayed : Fair { g with state := .PLAYING } := hfair
    have hplaying : Runs step (fun _ _ => True) start { g with state := .PLAYING } :=
      (runs_of_fair hplayed rfl).mono fun _ _ _ => trivial
    obtain ⟨board, turn, state⟩ := g
    cases state with
    | PLAYING => exact hplaying
    | MENU => exact hplaying.tail ⟨.KEY_DOWN .ESCAPE, trivial, rfl⟩
    | QUIT => exact hplaying.tail ⟨.DISPLAY_CLOSE, trivial, rfl⟩

end OtusCProg.Game
