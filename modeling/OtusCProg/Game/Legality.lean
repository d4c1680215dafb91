import OtusCProg.Game.Model

/-!
# Legal runs

A mark is put only on an empty cell and only while nobody has completed a line,
and the turn changes with it. The menu leaves the board as it is until a new
game is started there.
-/

namespace OtusCProg.Game
open Library
variable {board : Board} {g g' : State} {e : Event}

/-! ## The end of a game -/

theorem common_mark_eq_none {a b c : Cell} :
    common_mark board a b c = none ↔ ∀ m, ¬∀ d ∈ [a, b, c], board d = some m := by
  unfold common_mark
  constructor
  · intro hnone m howns
    have ha : board a = some m := howns a (by simp)
    have hb : board b = some m := howns b (by simp)
    have hc : board c = some m := howns c (by simp)
    simp [ha, hb, hc] at hnone
  · intro hnone
    split
    · rename_i hcommon
      obtain ⟨hsome, hab, hbc⟩ := hcommon
      obtain ⟨m, ha⟩ := Option.isSome_iff_exists.mp hsome
      refine absurd ?_ (hnone m)
      simp [← hbc, ← hab, ha]
    · rfl

/-- `check_winner` finds a completed line where there is one. -/
theorem check_winner_eq_none : check_winner board = none ↔ ∀ m, ¬Completed lines board m := by
  have hrange : List.finRange 3 = [0, 1, 2] := rfl
  have hlines : check_winner board = none ↔
      ∀ line ∈ lines, ∀ m, ¬∀ d ∈ line, board d = some m := by
    simp only [check_winner, lines, hrange, Option.or_eq_none_iff, List.findSome?_eq_none_iff,
      common_mark_eq_none, List.forall_mem_cons, and_assoc]
    simp
  rw [hlines]
  constructor
  · rintro hnone m ⟨line, hline, howns⟩
    exact hnone line hline m howns
  · intro hnone line hline m howns
    exact hnone m ⟨line, hline, howns⟩

theorem is_board_full_iff : is_board_full board = true ↔ Full board := by
  simp [is_board_full, Full, Prod.forall, Option.isSome_iff_ne_none]

/-- The game on the board is over for `handle_board_click`. -/
theorem over_iff :
    ((check_winner board).isSome ∨ is_board_full board = true) ↔ Over lines board := by
  rw [is_board_full_iff, Option.isSome_iff_ne_none, ne_eq, check_winner_eq_none]
  simp only [Over, not_forall, not_not]

/-! ## One event -/

/-- What a click on the board does. -/
theorem handle_board_click_cases (g : State) (mx my : ℤ) :
    (handle_board_click g mx my).board = g.board ∧
        (handle_board_click g mx my).player_x_turn = g.player_x_turn ∨
      ¬Over lines g.board ∧ ∃ c, g.board c = none ∧
        (handle_board_click g mx my).board
          = put g.board c (if g.player_x_turn then .X else .O) ∧
        (handle_board_click g mx my).player_x_turn = !g.player_x_turn := by
  unfold handle_board_click
  split
  · exact Or.inl ⟨rfl, rfl⟩
  · rename_i hopen
    rw [over_iff] at hopen
    split
    · rename_i row col _ _
      split
      · rename_i hempty
        exact Or.inr ⟨hopen, (row, col), hempty, rfl, rfl⟩
      · exact Or.inl ⟨rfl, rfl⟩
    · exact Or.inl ⟨rfl, rfl⟩

/-- What one event does to the board and the turn: it starts a new game, leaves both as they
are, or puts the mark of the player whose turn it is on an empty cell of a game that goes on. -/
theorem handle_event_cases (g : State) (e : Event) :
    NewGame g e ∧ (handle_event g e).board = (fun _ => none) ∧
        (handle_event g e).player_x_turn = true ∨
      (handle_event g e).board = g.board ∧
        (handle_event g e).player_x_turn = g.player_x_turn ∨
      ¬Over lines g.board ∧ ∃ c, g.board c = none ∧
        (handle_event g e).board = put g.board c (if g.player_x_turn then .X else .O) ∧
        (handle_event g e).player_x_turn = !g.player_x_turn := by
  cases e with
  | TIMER => exact Or.inr (Or.inl ⟨rfl, rfl⟩)
  | DISPLAY_CLOSE => exact Or.inr (Or.inl ⟨rfl, rfl⟩)
  | other => exact Or.inr (Or.inl ⟨rfl, rfl⟩)
  | KEY_DOWN keycode =>
      cases keycode with
      | ESCAPE =>
          simp only [handle_event]
          split <;> exact Or.inr (Or.inl ⟨rfl, rfl⟩)
      | other => exact Or.inr (Or.inl ⟨rfl, rfl⟩)
  | MOUSE_BUTTON_DOWN button mx my =>
      simp only [handle_event]
      split
      · rename_i hbutton
        subst hbutton
        unfold handle_click
        split
        · rename_i hmenu
          split
          · rename_i hplay
            exact Or.inl ⟨⟨hmenu, mx, my, rfl, hplay⟩, rfl, rfl⟩
          · split <;> exact Or.inr (Or.inl ⟨rfl, rfl⟩)
        · exact Or.inr (handle_board_click_cases g mx my)
        · exact Or.inr (Or.inl ⟨rfl, rfl⟩)
      · exact Or.inr (Or.inl ⟨rfl, rfl⟩)

theorem handle_event_of_step (h : step g e = .ok g') : g' = handle_event g e := by
  unfold step at h
  split at h
  · exact (Except.ok.inj h).symm
  · cases h

/-- The board of the state is one that two players who move in turn can reach. -/
def Fair (g : State) : Prop := Legal lines Mark.X Mark.O g.board g.player_x_turn

theorem Fair.of_empty (hboard : g.board = fun _ => none) (hturn : g.player_x_turn = true) :
    Fair g := by
  unfold Fair
  rw [hboard, hturn]
  exact Legal.empty (by decide)

theorem Fair.start : Fair start := Fair.of_empty rfl rfl

/-- Every event keeps the board legal. -/
theorem Fair.step (hfair : Fair g) (h : step g e = .ok g') : Fair g' := by
  obtain rfl := handle_event_of_step h
  rcases handle_event_cases g e with ⟨_, hboard, hturn⟩ | ⟨hboard, hturn⟩ |
    ⟨hopen, c, hempty, hboard, hturn⟩
  · exact Fair.of_empty hboard hturn
  · unfold Fair
    rw [hboard, hturn]
    exact hfair
  · unfold Fair
    rw [hboard, hturn]
    exact hfair.move (by decide) (fun m hline => hopen (Or.inl ⟨m, hline⟩)) hempty

/-- An event that starts no new game fills at most one cell. -/
theorem oneFilled_of_step (h : step g e = .ok g') (hold : ¬NewGame g e) :
    OneFilled g.board g'.board := by
  obtain rfl := handle_event_of_step h
  rcases handle_event_cases g e with ⟨hnew, _⟩ | ⟨hboard, _⟩ | ⟨_, c, hempty, hboard, _⟩
  · exact absurd hnew hold
  · rw [hboard]
    exact OneFilled.refl g.board
  · rw [hboard]
    exact OneFilled.put hempty

/-- An event that starts no new game leaves the board of a game that is over. -/
theorem board_of_step (h : step g e = .ok g') (hold : ¬NewGame g e) (hover : Over lines g.board) :
    g'.board = g.board := by
  obtain rfl := handle_event_of_step h
  rcases handle_event_cases g e with ⟨hnew, _⟩ | ⟨hboard, _⟩ | ⟨hopen, _⟩
  · exact absurd hnew hold
  · exact hboard
  · exact absurd hover hopen

/-! ## Runs -/

/-- A board on which the game is over stays until a new game is started. -/
theorem board_of_runs (hover : Over lines g.board)
    (h : Runs step (fun g e => ¬NewGame g e) g g') : g'.board = g.board := by
  have hkept : ∀ {u v : State} {e : Event}, u.board = g.board → ¬NewGame u e →
      step u e = .ok v → v.board = g.board := by
    intro u v e hboard hold hstep
    rw [← hboard] at hover ⊢
    exact board_of_step hstep hold hover
  exact h.invariant (I := fun u => u.board = g.board) rfl hkept

/-- Every state of a run of the program is legal; a board on which the game is over changes only
with a new game, and any other event fills at most one cell. -/
theorem runs_legal (h : Runs step (fun _ _ => True) start g) :
    (((marks g.board .X : ℤ) - marks g.board .O = 0 ∨
        (marks g.board .X : ℤ) - marks g.board .O = 1) ∧
      ((marks g.board .X : ℤ) - marks g.board .O = 0 ↔ g.player_x_turn = true)) ∧
    ¬(Completed lines g.board .X ∧ Completed lines g.board .O) ∧
    (Over lines g.board → ∀ g', Runs step (fun g e => ¬NewGame g e) g g' → g'.board = g.board) ∧
    ∀ e g', step g e = .ok g' → ¬NewGame g e → OneFilled g.board g'.board := by
  have hfair : Fair g := h.invariant Fair.start fun hfair _ hstep => hfair.step hstep
  refine ⟨hfair.difference, hfair.not_both, ?_, ?_⟩
  · intro hover g' hrun
    exact board_of_runs hover hrun
  · intro e g' hstep hold
    exact oneFilled_of_step hstep hold

/-- X fills the first row, O has two clicks. -/
def first_row_events : List Event :=
  [.MOUSE_BUTTON_DOWN 1 400 320, .MOUSE_BUTTON_DOWN 1 150 150, .MOUSE_BUTTON_DOWN 1 150 300,
    .TIMER, .MOUSE_BUTTON_DOWN 1 400 150, .MOUSE_BUTTON_DOWN 1 400 300,
    .MOUSE_BUTTON_DOWN 1 600 150]

def first_row : State := first_row_events.foldl handle_event start

theorem runs_legal_first_row :
    Completed lines first_row.board .X ∧
    ((marks first_row.board .X : ℤ) - marks first_row.board .O = 0 ↔
      first_row.player_x_turn = true) ∧
    ¬(Completed lines first_row.board .X ∧ Completed lines first_row.board .O) ∧
    ∀ g', Runs step (fun g e => ¬NewGame g e) first_row g' → g'.board = first_row.board := by
  have hline : Completed lines first_row.board .X :=
    ⟨[(0, 0), (0, 1), (0, 2)], by decide, by decide⟩
  have htaken : takeSteps step (fun _ _ => True) start first_row_events = some first_row := rfl
  have hrun : Runs step (fun _ _ => True) start first_row :=
    runs_of_takeSteps htaken
  have hlegal := runs_legal hrun
  exact ⟨hline, hlegal.1.2, hlegal.2.1, hlegal.2.2.1 (Or.inl ⟨.X, hline⟩)⟩

end OtusCProg.Game
