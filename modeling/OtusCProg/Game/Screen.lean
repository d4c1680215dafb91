import OtusCProg.Game.Legality
import OtusCProg.Library.CText
import Mathlib.Data.Fin.VecNotation

/-!
# The screen of the game

What `draw_menu` and `draw_board` draw, and the main loop with the flag `redraw`. The loop
draws the current state when the flag is set and no event waits; only the timer sets it again.
-/

namespace OtusCProg.Game
open Library

/-- The arguments of `al_map_rgb`. -/
abbrev Color := ℕ × ℕ × ℕ

/-- One call of the library that draws; every text is centred. -/
inductive Drawing where
  | al_clear_to_color (color : Color)
  | al_draw_line (x1 y1 x2 y2 : ℤ) (color : Color) (thickness : ℕ)
  | al_draw_circle (cx cy r : ℤ) (color : Color) (thickness : ℕ)
  | al_draw_filled_rectangle (x1 y1 x2 y2 : ℤ) (color : Color)
  | al_draw_text (color : Color) (x y : ℤ) (text : Text)
deriving DecidableEq

/-- What is on the screen from one `al_flip_display` to the next. -/
abbrev Picture := List Drawing

def draw_menu : Picture :=
  [.al_clear_to_color (30, 30, 30),
    .al_draw_text (255, 255, 255) 400 200 (text "Крестики-нолики"),
    .al_draw_filled_rectangle 350 300 450 350 (70, 130, 180),
    .al_draw_text (255, 255, 255) 400 315 (text "Играть"),
    .al_draw_filled_rectangle 350 400 450 450 (180, 70, 70),
    .al_draw_text (255, 255, 255) 400 415 (text "Выход")]

def cell_x : Fin 3 → ℤ := ![183, 400, 617]

def cell_y : Fin 3 → ℤ := ![167, 300, 433]

/-- The mark of a cell. -/
def draw_mark (c : Cell) : Mark → Picture
  | .X =>
      [.al_draw_line (cell_x c.2 - 50) (cell_y c.1 - 50) (cell_x c.2 + 50) (cell_y c.1 + 50) (200, 50, 50) 8,
        .al_draw_line (cell_x c.2 + 50) (cell_y c.1 - 50) (cell_x c.2 - 50) (cell_y c.1 + 50) (200, 50, 50) 8]
  | .O => [.al_draw_circle (cell_x c.2) (cell_y c.1) 50 (50, 50, 200) 8]

/-- The letter of a player. -/
def Mark.letter : Mark → UInt8
  | .X => 88
  | .O => 79

/-- The text below the board; `sizeof(msg)` is 32. -/
def message (g : State) : Text :=
  match check_winner g.board with
  | some winner => (winner.letter :: text " выиграл! Клик").take 31
  | none =>
      if is_board_full g.board then text "Ничья! Клик"
      else if g.player_x_turn then text "X ходит" else text "O ходит"

def grid : Picture :=
  [.al_clear_to_color (240, 240, 240),
    .al_draw_line 266 100 266 500 (0, 0, 0) 4, .al_draw_line 533 100 533 500 (0, 0, 0) 4,
    .al_draw_line 100 233 700 233 (0, 0, 0) 4, .al_draw_line 100 366 700 366 (0, 0, 0) 4]

def draw_cell (board : Board) (c : Cell) : Picture := ((board c).map (draw_mark c)).getD []

def draw_board (g : State) : Picture :=
  grid ++ ((List.finRange 3).flatMap fun i => (List.finRange 3).flatMap fun j => draw_cell g.board (i, j)) ++
    [.al_draw_text (0, 0, 0) 400 550 (message g)]

/-- What is drawn in a state, if anything. -/
def draw (g : State) : Option Picture :=
  match g.state with
  | .MENU => some draw_menu
  | .PLAYING => some (draw_board g)
  | .QUIT => none

/-- The variables of the main loop, and the screen. -/
structure Loop where
  game : State
  redraw : Bool
  screen : Option Picture

/-- An event, and whether the queue is empty behind it. -/
abbrev Taken := Event × Bool

/-- One round of the main loop. -/
def turn (s : Loop) (e : Taken) : Except Unit Loop :=
  match step s.game e.1 with
  | .error u => .error u
  | .ok game =>
      if (s.redraw || e.1 = .TIMER) && e.2 then .ok ⟨game, false, (draw game).or s.screen⟩
      else .ok ⟨game, s.redraw || e.1 = .TIMER, s.screen⟩

/-- In front of the main loop. -/
def begin : Loop := ⟨start, true, none⟩

/-! ## What the picture says -/

theorem mem_draw_cells {board : Board} {d : Drawing} :
    (d ∈ (List.finRange 3).flatMap fun i => (List.finRange 3).flatMap fun j => draw_cell board (i, j)) ↔
      ∃ c m, board c = some m ∧ d ∈ draw_mark c m := by
  simp only [List.mem_flatMap, List.mem_finRange, true_and]
  constructor
  · rintro ⟨i, j, hd⟩
    cases hm : board (i, j) with
    | none => simp [draw_cell, hm] at hd
    | some m => exact ⟨(i, j), m, hm, by simpa [draw_cell, hm] using hd⟩
  · rintro ⟨c, m, hm, hd⟩
    exact ⟨c.1, c.2, by simpa [draw_cell, hm] using hd⟩

/-- The marks differ in what they draw. -/
theorem draw_mark_inj (c d : Cell) (m n : Mark) :
    ∀ shape ∈ draw_mark c m, shape ∈ draw_mark d n → d = c ∧ n = m := by
  cases m <;> cases n <;> revert c d <;> decide

theorem draw_mark_notMem_grid (c : Cell) (m : Mark) : ∀ shape ∈ draw_mark c m, shape ∉ grid := by
  cases m <;> revert c <;> decide

theorem draw_mark_ne_nil (c : Cell) (m : Mark) : draw_mark c m ≠ [] := by
  cases m <;> simp [draw_mark]

theorem draw_mark_ne_text {c : Cell} {m : Mark} {color : Color} {x y : ℤ} {words : Text} :
    .al_draw_text color x y words ∉ draw_mark c m := by
  cases m <;> simp [draw_mark]

/-- The board can be read off the picture. -/
theorem draw_mark_subset_iff (g : State) (c : Cell) (m : Mark) :
    draw_mark c m ⊆ draw_board g ↔ g.board c = some m := by
  constructor
  · intro hdrawn
    obtain ⟨shape, hshape⟩ := List.exists_mem_of_ne_nil _ (draw_mark_ne_nil c m)
    have hmem := hdrawn hshape
    rw [draw_board, List.mem_append, List.mem_append, mem_draw_cells, List.mem_singleton] at hmem
    rcases hmem with (hgrid | ⟨d, n, hn, hd⟩) | htext
    · exact absurd hgrid (draw_mark_notMem_grid c m shape hshape)
    · obtain ⟨rfl, rfl⟩ := draw_mark_inj c d m n shape hshape hd
      exact hn
    · rw [htext] at hshape
      exact absurd hshape draw_mark_ne_text
  · intro hm shape hshape
    rw [draw_board, List.mem_append, List.mem_append, mem_draw_cells]
    exact Or.inl (Or.inr ⟨c, m, hm, hshape⟩)

/-- The text can be read off the picture. -/
theorem text_mem_draw_board_iff (g : State) (words : Text) :
    .al_draw_text (0, 0, 0) 400 550 words ∈ draw_board g ↔ words = message g := by
  rw [draw_board, List.mem_append, List.mem_append, mem_draw_cells, List.mem_singleton]
  constructor
  · rintro ((hgrid | ⟨c, m, _, hc⟩) | htext)
    · simp [grid] at hgrid
    · exact absurd hc draw_mark_ne_text
    · exact (Drawing.al_draw_text.inj htext).2.2.2
  · rintro rfl
    exact Or.inr rfl

/-- The player with a completed line that `check_winner` names. -/
theorem completed_of_check_winner {board : Board} {m : Mark} (h : check_winner board = some m) :
    Completed lines board m := by
  have hcommon : ∀ {a b c : Cell}, common_mark board a b c = some m → ∀ d ∈ [a, b, c], board d = some m := by
    intro a b c h
    rw [common_mark] at h
    split at h
    · rename_i hall
      simp only [List.mem_cons, List.not_mem_nil, or_false]
      rintro d (rfl | rfl | rfl)
      · exact h
      · exact hall.2.1 ▸ h
      · exact hall.2.2 ▸ hall.2.1 ▸ h
    · cases h
  have hline : ∀ {a b c : Cell}, [a, b, c] ∈ lines → common_mark board a b c = some m →
      Completed lines board m := fun hmem h => ⟨_, hmem, hcommon h⟩
  have hstraight : ∀ i : Fin 3, [(i, 0), (i, 1), (i, 2)] ∈ lines ∧ [(0, i), (1, i), (2, i)] ∈ lines := by
    decide
  rw [check_winner, Option.or_eq_some_iff, Option.or_eq_some_iff] at h
  rcases h with hrows | ⟨_, hdiagonal | ⟨_, hdiagonal⟩⟩
  · obtain ⟨i, _, hi⟩ := List.exists_of_findSome?_eq_some hrows
    rw [Option.or_eq_some_iff] at hi
    rcases hi with hrow | ⟨_, hcol⟩
    · exact hline (hstraight i).1 hrow
    · exact hline (hstraight i).2 hcol
  · exact hline (by decide) hdiagonal
  · exact hline (by decide) hdiagonal

/-- On a board that was played, `check_winner` is who has completed a line. -/
theorem check_winner_eq_some_iff {g : State} (hfair : Fair g) (m : Mark) :
    check_winner g.board = some m ↔ Completed lines g.board m := by
  constructor
  · exact completed_of_check_winner
  · intro hm
    cases hwinner : check_winner g.board with
    | none => exact absurd hm (check_winner_eq_none.mp hwinner m)
    | some n =>
        have hn : Completed lines g.board n := completed_of_check_winner hwinner
        cases m <;> cases n
        · rfl
        · exact absurd ⟨hm, hn⟩ hfair.not_both
        · exact absurd ⟨hn, hm⟩ hfair.not_both
        · rfl

/-- How a game stands. -/
inductive Verdict where
  | won (m : Mark)
  | drawn
  | turn (x : Bool)

/-- What is written of it. -/
def Verdict.words : Verdict → Text
  | .won m => m.letter :: text " выиграл! Клик"
  | .drawn => text "Ничья! Клик"
  | .turn x => if x then text "X ходит" else text "O ходит"

/-- What it means on the board. -/
def Verdict.Holds (g : State) : Verdict → Prop
  | .won m => Completed lines g.board m
  | .drawn => Full g.board ∧ ∀ m, ¬Completed lines g.board m
  | .turn x => ¬Over lines g.board ∧ g.player_x_turn = x

theorem Verdict.words_inj {v w : Verdict} (h : v.words = w.words) : v = w := by
  have hplayers : (Verdict.won .X).words ≠ (Verdict.won .O).words ∧
      (Verdict.turn true).words ≠ (Verdict.turn false).words := by decide
  have hwon : ∀ m : Mark, (Verdict.won m).words ≠ Verdict.drawn.words ∧
      ∀ x, (Verdict.won m).words ≠ (Verdict.turn x).words := by
    intro m
    cases m <;> decide
  have hdrawn : ∀ x, Verdict.drawn.words ≠ (Verdict.turn x).words := by decide
  cases v with
  | won m =>
      cases w with
      | won n =>
          cases m <;> cases n
          · rfl
          · exact absurd h hplayers.1
          · exact absurd h.symm hplayers.1
          · rfl
      | drawn => exact absurd h (hwon m).1
      | turn x => exact absurd h ((hwon m).2 x)
  | drawn =>
      cases w with
      | won n => exact absurd h.symm (hwon n).1
      | drawn => rfl
      | turn x => exact absurd h (hdrawn x)
  | turn x =>
      cases w with
      | won n => exact absurd h.symm ((hwon n).2 x)
      | drawn => exact absurd h.symm (hdrawn x)
      | turn y =>
          cases x <;> cases y
          · rfl
          · exact absurd h.symm hplayers.2
          · exact absurd h hplayers.2
          · rfl

/-- The verdict of `check_winner` and `is_board_full`. -/
def verdict (g : State) : Verdict :=
  match check_winner g.board with
  | some m => .won m
  | none => if is_board_full g.board then .drawn else .turn g.player_x_turn

theorem message_eq (g : State) : message g = (verdict g).words := by
  rw [message, verdict]
  cases check_winner g.board with
  | some m =>
      refine List.take_of_length_le ?_
      cases m <;> decide
  | none =>
      dsimp only
      split <;> rfl

theorem verdict_eq_iff {g : State} (hfair : Fair g) (v : Verdict) : verdict g = v ↔ v.Holds g := by
  have hwinner := check_winner_eq_some_iff hfair
  cases hcheck : check_winner g.board with
  | some m =>
      have hm : Completed lines g.board m := (hwinner m).mp hcheck
      have hverdict : verdict g = .won m := by rw [verdict, hcheck]
      rw [hverdict]
      cases v with
      | won n =>
          rw [Verdict.Holds, ← hwinner n, hcheck]
          simp
      | drawn =>
          have hplays : ¬Verdict.drawn.Holds g := fun h => h.2 m hm
          simp [hplays]
      | turn x =>
          have hover : Over lines g.board := Or.inl ⟨m, hm⟩
          simp [Verdict.Holds, hover]
  | none =>
      have hnone : ∀ m, ¬Completed lines g.board m := check_winner_eq_none.mp hcheck
      by_cases hfull : is_board_full g.board = true
      · have hverdict : verdict g = .drawn := by simp [verdict, hcheck, hfull]
        have hboard : Full g.board := is_board_full_iff.mp hfull
        rw [hverdict]
        cases v with
        | won n => simp [Verdict.Holds, hnone]
        | drawn => simp [Verdict.Holds, hnone, hboard]
        | turn x => simp [Verdict.Holds, Over, hboard]
      · have hverdict : verdict g = .turn g.player_x_turn := by simp [verdict, hcheck, hfull]
        have hboard : ¬Full g.board := fun h => hfull (is_board_full_iff.mpr h)
        rw [hverdict]
        cases v with
        | won n => simp [Verdict.Holds, hnone]
        | drawn => simp [Verdict.Holds, hboard]
        | turn x => simp [Verdict.Holds, Over, hboard, hnone]

/-! ## Runs of the main loop -/

section Loop
variable {s s' : Loop} {e : Taken} {es : List Taken}

/-- A round draws, or leaves the screen and remembers the timer. -/
theorem turn_cases (h : turn s e = .ok s') :
    s.game.state ≠ .QUIT ∧ s'.game = handle_event s.game e.1 ∧
      ((s.redraw = true ∨ e.1 = .TIMER) ∧ e.2 = true ∧ s'.redraw = false ∧
          s'.screen = (draw s'.game).or s.screen ∨
        ((s.redraw = true ∨ e.1 = .TIMER) → e.2 = false) ∧
          (s'.redraw = true ↔ s.redraw = true ∨ e.1 = .TIMER) ∧ s'.screen = s.screen) := by
  rw [turn, step] at h
  by_cases hquit : s.game.state = .QUIT
  · simp [hquit] at h
  · simp only [hquit, ne_eq, not_false_eq_true, if_true] at h
    split at h
    · rename_i hdraws
      obtain rfl := Except.ok.inj h
      simp only [Bool.and_eq_true, Bool.or_eq_true, decide_eq_true_eq] at hdraws
      exact ⟨hquit, rfl, Or.inl ⟨hdraws.1, hdraws.2, rfl, rfl⟩⟩
    · rename_i hdraws
      obtain rfl := Except.ok.inj h
      simp only [Bool.and_eq_true, Bool.or_eq_true, decide_eq_true_eq, not_and, Bool.not_eq_true] at hdraws
      exact ⟨hquit, rfl, Or.inr ⟨hdraws, by simp, rfl⟩⟩

/-- The state after some events. -/
def after (es : List Taken) : Option Loop := takeSteps turn (fun _ _ => True) begin es

/-- What is on the screen where it shows the state. -/
def Shows (g : State) (screen : Option Picture) : Prop :=
  match g.state with
  | .MENU => screen = some draw_menu
  | .PLAYING => ∃ picture, screen = some picture ∧
      (∀ c m, draw_mark c m ⊆ picture ↔ g.board c = some m) ∧
      ∀ v : Verdict, .al_draw_text (0, 0, 0) 400 550 v.words ∈ picture ↔ v.Holds g
  | .QUIT => True

theorem shows_draw {g : State} (hfair : Fair g) : Shows g (draw g) := by
  rw [Shows, draw]
  cases g.state with
  | MENU => rfl
  | QUIT => trivial
  | PLAYING =>
      refine ⟨draw_board g, rfl, draw_mark_subset_iff g, ?_⟩
      intro v
      rw [text_mem_draw_board_iff, message_eq, ← verdict_eq_iff hfair v]
      constructor
      · exact fun hwords => (Verdict.words_inj hwords).symm
      · rintro rfl
        rfl

/-- Behind a tick of the timer the queue was never empty. -/
def Waiting (since : List Taken) : Prop :=
  ∀ front tick rest, since = front ++ tick :: rest → tick.1 = .TIMER → ∀ d ∈ tick :: rest, d.2 = false

theorem Waiting.nil : Waiting [] := by
  intro front tick rest hnil
  simp at hnil

theorem Waiting.concat {since : List Taken} (h : Waiting since)
    (hlast : ((∃ d ∈ since, d.1 = .TIMER) ∨ e.1 = .TIMER) → e.2 = false) : Waiting (since ++ [e]) := by
  intro front tick rest heq htick d hd
  rcases List.eq_nil_or_concat rest with rfl | ⟨rest, last, rfl⟩
  · obtain ⟨rfl, hlasts⟩ := List.append_inj' heq rfl
    obtain rfl : e = tick := List.head_eq_of_cons_eq hlasts
    obtain rfl : d = e := List.mem_singleton.mp hd
    exact hlast (Or.inr htick)
  · rw [List.concat_eq_append] at heq hd
    have hsplit : since ++ [e] = (front ++ tick :: rest) ++ [last] := by simpa using heq
    obtain ⟨rfl, hlasts⟩ := List.append_inj' hsplit rfl
    obtain rfl : e = last := List.head_eq_of_cons_eq hlasts
    rw [← List.cons_append, List.mem_append] at hd
    rcases hd with hd | hd
    · exact h front tick rest rfl htick d hd
    · obtain rfl : d = e := List.mem_singleton.mp hd
      exact hlast (Or.inl ⟨tick, by simp, htick⟩)

/-- The screen was drawn behind some event; what has happened since leaves it as it is. -/
structure DrawnAt (es before since : List Taken) (e : Taken) (shown s : Loop) : Prop where
  events : es = before ++ e :: since
  reached : after (before ++ [e]) = some shown
  screen : s.screen = draw shown.game
  waiting : Waiting since
  redraw : s.redraw = true ↔ ∃ d ∈ since, d.1 = .TIMER

/-- Nothing is drawn while no event leaves the queue empty; then the screen is always drawn. -/
theorem drawn_of_after (h : after es = some s) (hgoes : s.game.state ≠ .QUIT) :
    Fair s.game ∧ ((s.screen = none ∧ s.redraw = true ∧ ∀ e ∈ es, e.2 = false) ∨
      ∃ before since e shown, DrawnAt es before since e shown s ∧ Fair shown.game) := by
  induction es using List.reverseRecOn generalizing s with
  | nil =>
      obtain rfl := Option.some.inj h
      exact ⟨Fair.start, Or.inl ⟨rfl, rfl, by simp⟩⟩
  | append_singleton es e ih =>
      have hlast := h
      rw [after, takeSteps_concat es fun _ => trivial] at hlast
      obtain ⟨t, ht, hturn⟩ := Option.bind_eq_some_iff.mp hlast
      have hok : turn t e = .ok s := by
        cases hcase : turn t e with
        | error u => simp [hcase, Except.toOption] at hturn
        | ok u => simpa [hcase, Except.toOption] using hturn
      obtain ⟨hopen, hgame, hcases⟩ := turn_cases hok
      obtain ⟨hfair, hscreen⟩ := ih ht hopen
      have hstep : step t.game e.1 = .ok s.game := by rw [step, if_pos hopen, hgame]
      have hnext : Fair s.game := hfair.step hstep
      refine ⟨hnext, ?_⟩
      rcases hcases with ⟨_, _, hredraw, hdraws⟩ | ⟨hwait, hredraw, hsame⟩
      · refine Or.inr ⟨es, [], e, s, ⟨rfl, h, ?_, Waiting.nil, by simp [hredraw]⟩, hnext⟩
        rw [hdraws, draw]
        cases hstate : s.game.state with
        | MENU => rfl
        | PLAYING => rfl
        | QUIT => exact absurd hstate hgoes
      · rcases hscreen with ⟨hnone, hpending, hall⟩ | ⟨before, since, d, shown, hdrawn, hshown⟩
        · refine Or.inl ⟨hsame.trans hnone, hredraw.mpr (Or.inl hpending), ?_⟩
          intro d hd
          rcases List.mem_append.mp hd with hd | hd
          · exact hall d hd
          · rw [List.mem_singleton.mp hd]
            exact hwait (Or.inl hpending)
        · refine Or.inr ⟨before, since ++ [e], d, shown, ⟨?_, hdrawn.reached, ?_, ?_, ?_⟩, hshown⟩
          · rw [hdrawn.events]
            simp
          · exact hsame.trans hdrawn.screen
          · refine hdrawn.waiting.concat ?_
            rw [← hdrawn.redraw]
            exact hwait
          · rw [hredraw, hdrawn.redraw]
            simp [or_and_right, exists_or]

/-- What is on the screen is the menu, or a board with its marks and the right text, of the state
behind an earlier event; since then the queue was never empty behind a tick of the timer. -/
theorem screen_shows_game (h : after es = some s) (hgoes : s.game.state ≠ .QUIT) :
    (s.screen = none ∧ ∀ e ∈ es, e.2 = false) ∨
      ∃ before since e shown, es = before ++ e :: since ∧ after (before ++ [e]) = some shown ∧
        Shows shown.game s.screen ∧ Waiting since := by
  rcases (drawn_of_after h hgoes).2 with ⟨hnone, _, hall⟩ | ⟨before, since, e, shown, hdrawn, hfair⟩
  · exact Or.inl ⟨hnone, hall⟩
  · refine Or.inr ⟨before, since, e, shown, hdrawn.events, hdrawn.reached, ?_, hdrawn.waiting⟩
    rw [hdrawn.screen]
    exact shows_draw hfair

/-- The menu is drawn, and then a new game. -/
def new_game_events : List Taken :=
  [(.TIMER, true), (.MOUSE_BUTTON_DOWN 1 400 325, false), (.TIMER, true), (.other, true)]

def new_game : Loop where
  game := { reset_game start with state := .PLAYING }
  redraw := false
  screen := some (draw_board { reset_game start with state := .PLAYING })

theorem screen_shows_game_newGame :
    (new_game.screen = none ∧ ∀ e ∈ new_game_events, e.2 = false) ∨
      ∃ before since e shown, new_game_events = before ++ e :: since ∧
        after (before ++ [e]) = some shown ∧ Shows shown.game new_game.screen ∧ Waiting since := by
  have hafter : after new_game_events = some new_game := rfl
  exact screen_shows_game hafter (by decide)

end Loop

end OtusCProg.Game
