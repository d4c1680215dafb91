import OtusCProg.Library.MarkingGame
import OtusCProg.Library.Runs
import Mathlib.Data.Fintype.Prod

/-!
# The game of `35_game`

The main loop takes one event from the queue of the library at a time. What is
drawn on the screen changes nothing of the state; `Screen` adds it.
-/

namespace OtusCProg.Game
open Library

/-- What is written on a cell. -/
inductive Mark
  | X
  | O
deriving DecidableEq, Repr

inductive GameState
  | MENU
  | PLAYING
  | QUIT
deriving DecidableEq, Repr

/-- A row and a column. -/
abbrev Cell := Fin 3 × Fin 3

/-- `board`; an empty cell holds 0. -/
abbrev Board := Cell → Option Mark

/-- The static variables. -/
structure State where
  board : Board
  player_x_turn : Bool
  state : GameState

/-- The common mark of three cells. -/
def common_mark (board : Board) (a b c : Cell) : Option Mark :=
  if (board a).isSome ∧ board a = board b ∧ board b = board c then board a else none

def check_winner (board : Board) : Option Mark :=
  ((List.finRange 3).findSome? fun i =>
      (common_mark board (i, 0) (i, 1) (i, 2)).or (common_mark board (0, i) (1, i) (2, i))).or
    ((common_mark board (0, 0) (1, 1) (2, 2)).or (common_mark board (0, 2) (1, 1) (2, 0)))

def is_board_full (board : Board) : Bool :=
  (List.finRange 3).all fun i => (List.finRange 3).all fun j => (board (i, j)).isSome

/-- The column of a click, none where it is left at -1. -/
def click_col (mx : ℤ) : Option (Fin 3) :=
  if mx ≥ 100 ∧ mx < 266 then some 0
  else if mx ≥ 266 ∧ mx < 533 then some 1
  else if mx ≥ 533 ∧ mx ≤ 700 then some 2
  else none

/-- The row of a click, none where it is left at -1. -/
def click_row (my : ℤ) : Option (Fin 3) :=
  if my ≥ 100 ∧ my < 233 then some 0
  else if my ≥ 233 ∧ my < 366 then some 1
  else if my ≥ 366 ∧ my ≤ 500 then some 2
  else none

def handle_board_click (g : State) (mx my : ℤ) : State :=
  if (check_winner g.board).isSome ∨ is_board_full g.board then { g with state := .MENU }
  else
    match click_row my, click_col mx with
    | some row, some col =>
        if g.board (row, col) = none then
          { g with
            board := put g.board (row, col) (if g.player_x_turn then .X else .O)
            player_x_turn := !g.player_x_turn }
        else g
    | _, _ => g

def reset_game (g : State) : State :=
  { g with
    board := fun _ => none
    player_x_turn := true }

/-- The keys the program tells apart. -/
inductive Keycode
  | ESCAPE
  | other
deriving DecidableEq, Repr

/-- The types of events, with what the program reads of them. -/
inductive Event
  | TIMER
  | DISPLAY_CLOSE
  | KEY_DOWN (keycode : Keycode)
  | MOUSE_BUTTON_DOWN (button : ℕ) (x y : ℤ)
  | other
deriving DecidableEq, Repr

/-- The button that starts a game. -/
def on_play (mx my : ℤ) : Prop := mx ≥ 350 ∧ mx ≤ 450 ∧ my ≥ 300 ∧ my ≤ 350

/-- The button that leaves the program. -/
def on_exit (mx my : ℤ) : Prop := mx ≥ 350 ∧ mx ≤ 450 ∧ my ≥ 400 ∧ my ≤ 450

instance (mx my : ℤ) : Decidable (on_play mx my) := inferInstanceAs (Decidable (_ ∧ _))

instance (mx my : ℤ) : Decidable (on_exit mx my) := inferInstanceAs (Decidable (_ ∧ _))

/-- A click of the first mouse button. -/
def handle_click (g : State) (mx my : ℤ) : State :=
  match g.state with
  | .MENU =>
      if on_play mx my then { reset_game g with state := .PLAYING }
      else if on_exit mx my then { g with state := .QUIT }
      else g
  | .PLAYING => handle_board_click g mx my
  | .QUIT => g

/-- The `switch` of the main loop. -/
def handle_event (g : State) : Event → State
  | .TIMER => g
  | .DISPLAY_CLOSE => { g with state := .QUIT }
  | .KEY_DOWN .ESCAPE =>
      if g.state = .PLAYING then { g with state := .MENU } else { g with state := .QUIT }
  | .KEY_DOWN .other => g
  | .MOUSE_BUTTON_DOWN button mx my => if button = 1 then handle_click g mx my else g
  | .other => g

/-- One round of the main loop, which takes no event once the state is `QUIT`. -/
def step (g : State) (e : Event) : Except Unit State :=
  if g.state ≠ .QUIT then .ok (handle_event g e) else .error ()

/-- At the start of the main loop of `main`. -/
def start : State :=
  { reset_game ⟨fun _ => none, false, .MENU⟩ with state := .MENU }

/-- A click on the button of the menu that starts a game. -/
def NewGame (g : State) (e : Event) : Prop :=
  g.state = .MENU ∧ ∃ mx my, e = .MOUSE_BUTTON_DOWN 1 mx my ∧ on_play mx my

/-- The rows, the columns and the diagonals. -/
def lines : List (List Cell) :=
  [[(0, 0), (0, 1), (0, 2)], [(0, 0), (1, 0), (2, 0)],
    [(1, 0), (1, 1), (1, 2)], [(0, 1), (1, 1), (2, 1)],
    [(2, 0), (2, 1), (2, 2)], [(0, 2), (1, 2), (2, 2)],
    [(0, 0), (1, 1), (2, 2)], [(0, 2), (1, 1), (2, 0)]]

end OtusCProg.Game
