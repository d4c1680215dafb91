import OtusCProg.Telnet.Model

/-!
# The command and the text that fits

The loop that fills `text` keeps what there is room for and drops the rest without a
word. Only the length of the whole command is tested, so a text that is cut is sent
like one that is not.
-/

namespace OtusCProg.Telnet
open Library

/-- All arguments in full, joined by single spaces. -/
def joined (args : List Text) : Text := (text " ").intercalate args

/-- The bytes of the joined text that `text` takes. One byte of the room stays free
when the loop ends in front of an argument at `text_len` equal to `BUF_SIZE / 2 - 2`. -/
def kept (args : List Text) : Nat :=
  if ∃ i < args.length, (joined (args.take i)).length = BUF_SIZE / 2 - 2 then BUF_SIZE / 2 - 2
  else BUF_SIZE / 2 - 1

/-- The command with all arguments. -/
def whole_command (font : Text) (args : List Text) : Text :=
  text "figlet /" ++ font ++ text " " ++ joined args ++ text "\r\n"

/-- The arguments fit into `text`, and the command into `cmd`. -/
def Fits (font : Text) (args : List Text) : Prop :=
  (joined args).length < BUF_SIZE / 2 ∧ (whole_command font args).length < BUF_SIZE

/-- The program sends the command with all arguments; where they do not fit it sends
no command, and fails once it has seen the prompt. -/
structure CompleteOrRefused (font : Text) (args segments : List Text) (ending : Ending) : Prop where
  complete : ∀ cmd ∈ (main font args segments ending).sends.drop 1, cmd = whole_command font args
  refused : ¬Fits font args → (main font args segments ending).sends.drop 1 = [] ∧
    ((main font args segments ending).exit = .failure ∨ await_prompt segments = none)
  text_len : ∀ i, (fill_text true [] (args.take i)).length ≤ 4095

/-- The arguments behind one that is in the text, each with its space. -/
def behind (args : List Text) : Text := args.flatMap (32 :: ·)

theorem joined_cons (arg : Text) (args : List Text) : joined (arg :: args) = arg ++ behind args := by
  induction args generalizing arg with
  | nil =>
      rw [joined, List.intercalate_singleton]
      exact (List.append_nil arg).symm
  | cons next args ih =>
      have hnext := ih next
      rw [joined] at hnext ⊢
      rw [List.intercalate_cons_cons, hnext, List.append_assoc]
      rfl

/-- How much `text` takes of `n` bytes in it and the arguments behind them. -/
def room (n : Nat) (args : List Text) : Nat :=
  if ∃ i < args.length, n + (behind (args.take i)).length = BUF_SIZE / 2 - 2 then BUF_SIZE / 2 - 2
  else BUF_SIZE / 2 - 1

section Fill
variable {txt arg : Text} {args : List Text}

/-- The clamp of the loop keeps what `text` has room for. -/
theorem clamp_eq_take (txt arg : Text) (h : txt.length ≤ 4095) :
    txt ++ arg.take (if BUF_SIZE / 2 ≤ txt.length + arg.length then BUF_SIZE / 2 - txt.length - 1
      else arg.length) = (txt ++ arg).take 4095 := by
  have hsize : BUF_SIZE / 2 = 4096 := rfl
  rw [List.take_append, List.take_of_length_le h, hsize]
  congr 1
  split
  · congr 1
    omega
  · rw [List.take_length, List.take_of_length_le (by omega)]

/-- The first turn. -/
theorem fill_text_first (arg : Text) (args : List Text) :
    fill_text true [] (arg :: args) = fill_text false (arg.take 4095) args := by
  have hclamp := clamp_eq_take [] arg (Nat.zero_le _)
  rw [List.nil_append] at hclamp
  rw [fill_text, if_pos (by decide)]
  exact congrArg (fill_text false · args) hclamp

/-- Every turn behind the first. -/
theorem fill_text_next (txt arg : Text) (args : List Text) :
    fill_text false txt (arg :: args) =
      if txt.length < 4094 then fill_text false ((txt ++ 32 :: arg).take 4095) args else txt := by
  have hsize : BUF_SIZE / 2 - 2 = 4094 := rfl
  rw [fill_text, hsize]
  by_cases hroom : txt.length < 4094
  · have hlen : (txt ++ [32]).length ≤ 4095 := by
      rw [List.length_append, List.length_singleton]
      omega
    have hclamp := (clamp_eq_take _ arg hlen).trans (congrArg (List.take 4095) (List.append_assoc ..))
    rw [if_pos hroom, if_pos hroom]
    exact congrArg (fill_text false · args) hclamp
  · rw [if_neg hroom, if_neg hroom]

theorem room_eq (n : Nat) (args : List Text) : room n args =
    if ∃ i < args.length, n + (behind (args.take i)).length = 4094 then 4094 else 4095 := rfl

/-- A full text has room for itself. -/
theorem room_of_lt {n : Nat} (h : 4094 < n) (args : List Text) : room n args = 4095 := by
  rw [room_eq, if_neg]
  rintro ⟨i, -, hi⟩
  omega

/-- A text with one free byte in front of a further argument has no room for more. -/
theorem room_cons_of_eq (arg : Text) (args : List Text) : room 4094 (arg :: args) = 4094 := by
  rw [room_eq, if_pos]
  exact ⟨0, Nat.succ_pos _, rfl⟩

theorem room_cons {n : Nat} (hn : n < 4094) (arg : Text) (args : List Text) :
    room n (arg :: args) = room (n + (arg.length + 1)) args := by
  have hiff : (∃ i < (arg :: args).length, n + (behind ((arg :: args).take i)).length = 4094) ↔
      ∃ i < args.length, n + (arg.length + 1) + (behind (args.take i)).length = 4094 := by
    constructor
    · rintro ⟨i, hi, hlen⟩
      cases i with
      | zero => exact absurd hlen hn.ne
      | succ i =>
          refine ⟨i, Nat.lt_of_succ_lt_succ hi, ?_⟩
          rw [List.take_succ_cons, behind, List.flatMap_cons, List.length_append, ← behind] at hlen
          rw [← hlen, List.length_cons]
          omega
    · rintro ⟨i, hi, hlen⟩
      refine ⟨i + 1, Nat.succ_lt_succ hi, ?_⟩
      rw [List.take_succ_cons, behind, List.flatMap_cons, List.length_append, ← behind, ← hlen,
        List.length_cons]
      omega
  rw [room_eq, room_eq]
  simp only [hiff]

/-- What the clamp drops has no room. -/
theorem take_room_of_take (txt : Text) (args : List Text) :
    (txt.take 4095 ++ behind args).take (room (txt.take 4095).length args) =
      (txt ++ behind args).take (room txt.length args) := by
  by_cases hfit : txt.length ≤ 4095
  · rw [List.take_of_length_le hfit]
  · have hfull : 4095 ≤ txt.length := Nat.le_of_not_le hfit
    have htake : (txt.take 4095).length = 4095 := List.length_take_of_le hfull
    rw [htake, room_of_lt (by decide), room_of_lt hfull, List.take_left' htake,
      List.take_append_of_le_length hfull]

/-- The loop keeps as much as there is room for. -/
theorem fill_text_eq_take (h : txt.length ≤ 4095) (args : List Text) :
    fill_text false txt args = (txt ++ behind args).take (room txt.length args) := by
  induction args generalizing txt with
  | nil =>
      have hroom : room txt.length [] = 4095 := by
        rw [room_eq, if_neg]
        rintro ⟨i, hi, -⟩
        exact absurd hi (Nat.not_lt_zero i)
      rw [hroom, behind, List.flatMap_nil, List.append_nil, List.take_of_length_le h]
      rfl
  | cons arg args ih =>
      rw [fill_text_next]
      by_cases hroom : txt.length < 4094
      · have hlen : (txt ++ 32 :: arg).length = txt.length + (arg.length + 1) := List.length_append
        have hall : txt ++ behind (arg :: args) = (txt ++ 32 :: arg) ++ behind args := by
          rw [behind, List.flatMap_cons, ← behind, List.append_assoc]
        rw [if_pos hroom, ih (List.length_take_le _ _), take_room_of_take, room_cons hroom, hall, hlen]
      · have hroom' : room txt.length (arg :: args) = txt.length := by
          rcases Nat.eq_or_lt_of_le (Nat.le_of_not_lt hroom) with heq | hlt
          · rw [← heq, room_cons_of_eq]
          · rw [room_of_lt hlt]
            omega
        rw [if_neg hroom, hroom', List.take_left]

theorem kept_cons (arg : Text) (args : List Text) : kept (arg :: args) = room arg.length args := by
  have hiff : (∃ i < (arg :: args).length, (joined ((arg :: args).take i)).length = BUF_SIZE / 2 - 2) ↔
      ∃ i < args.length, arg.length + (behind (args.take i)).length = BUF_SIZE / 2 - 2 := by
    constructor
    · rintro ⟨i, hi, hlen⟩
      cases i with
      | zero => cases hlen
      | succ i =>
          rw [List.take_succ_cons, joined_cons, List.length_append] at hlen
          exact ⟨i, Nat.lt_of_succ_lt_succ hi, hlen⟩
    · rintro ⟨i, hi, hlen⟩
      refine ⟨i + 1, Nat.succ_lt_succ hi, ?_⟩
      rw [List.take_succ_cons, joined_cons, List.length_append, hlen]
  rw [kept, room]
  simp only [hiff]

/-- `text` holds what it has room for of the joined arguments. -/
theorem fill_text_eq (args : List Text) : fill_text true [] args = (joined args).take (kept args) := by
  cases args with
  | nil => rfl
  | cons arg args =>
      rw [fill_text_first, fill_text_eq_take (List.length_take_le _ _), take_room_of_take, kept_cons,
        joined_cons]

theorem kept_le (args : List Text) : kept args ≤ 4095 := by
  rw [kept]
  split <;> decide

end Fill

section Send
variable {font : Text} {args segments : List Text} {ending : Ending}

/-- `text` is complete where it has room for all of the arguments. -/
theorem fill_text_eq_joined_iff :
    fill_text true [] args = joined args ↔ (joined args).length ≤ kept args := by
  rw [fill_text_eq, List.take_eq_self_iff]

/-- The length of the command that is formed. -/
theorem length_figlet_command (font : Text) (args : List Text) :
    (figlet_command font args).length = 11 + font.length + min (kept args) (joined args).length := by
  rw [figlet_command, fill_text_eq]
  simp only [List.length_append, List.length_take]
  have h8 : (text "figlet /").length = 8 := rfl
  have h1 : (text " ").length = 1 := rfl
  have h2 : (text "\r\n").length = 2 := rfl
  omega

theorem figlet_command_eq_whole_iff (font : Text) (args : List Text) :
    figlet_command font args = whole_command font args ↔ (joined args).length ≤ kept args := by
  rw [figlet_command, whole_command, List.append_cancel_right_eq, List.append_cancel_left_eq,
    fill_text_eq_joined_iff]

/-- What `main` sends behind the first line, and how it ends. -/
theorem main_cases (font : Text) (args segments : List Text) (ending : Ending) :
    (args = [] ∨ await_prompt segments = none) ∧
        (main font args segments ending).sends.drop 1 = [] ∧
          ((main font args segments ending).exit = .failure ∨ await_prompt segments = none) ∨
      (args ≠ [] ∧ await_prompt segments ≠ none) ∧ BUF_SIZE ≤ (figlet_command font args).length ∧
        (main font args segments ending).sends.drop 1 = [] ∧
          (main font args segments ending).exit = .failure ∨
      (args ≠ [] ∧ await_prompt segments ≠ none) ∧ (figlet_command font args).length < BUF_SIZE ∧
        (main font args segments ending).sends.drop 1 = [figlet_command font args] := by
  by_cases hargs : args = []
  · left
    unfold main
    rw [if_pos hargs]
    exact ⟨.inl hargs, rfl, .inl rfl⟩
  · unfold main
    rw [if_neg hargs]
    cases await_prompt segments with
    | none =>
        left
        exact ⟨.inr rfl, rfl, .inr rfl⟩
    | some rest =>
        right
        dsimp only
        by_cases hlong : BUF_SIZE ≤ (figlet_command font args).length
        · left
          rw [if_pos hlong]
          exact ⟨⟨hargs, Option.some_ne_none rest⟩, hlong, rfl, rfl⟩
        · right
          rw [if_neg hlong]
          exact ⟨⟨hargs, Option.some_ne_none rest⟩, Nat.lt_of_not_le hlong, rfl⟩

theorem length_fill_text_le (args : List Text) : (fill_text true [] args).length ≤ 4095 := by
  rw [fill_text_eq]
  exact (List.length_take_le _ _).trans (kept_le args)

/-- Where a command that is formed has all arguments, the program keeps its promise. -/
theorem completeOrRefused_of_room
    (hroom : args ≠ [] ∧ await_prompt segments ≠ none →
      (figlet_command font args).length < BUF_SIZE → (joined args).length ≤ kept args) :
    CompleteOrRefused font args segments ending := by
  refine ⟨?_, ?_, fun i => length_fill_text_le _⟩
  · intro cmd hcmd
    rcases main_cases font args segments ending with
      ⟨-, hsends, -⟩ | ⟨-, -, hsends, -⟩ | ⟨hformed, hshort, hsends⟩
    · rw [hsends] at hcmd
      cases hcmd
    · rw [hsends] at hcmd
      cases hcmd
    · rw [hsends, List.mem_singleton] at hcmd
      rw [hcmd]
      exact (figlet_command_eq_whole_iff font args).mpr (hroom hformed hshort)
  · intro hfits
    rcases main_cases font args segments ending with
      ⟨-, hsends, hexit⟩ | ⟨-, -, hsends, hexit⟩ | ⟨hformed, hshort, -⟩
    · exact ⟨hsends, hexit⟩
    · exact ⟨hsends, .inl hexit⟩
    · have hkept := hroom hformed hshort
      refine absurd ⟨Nat.lt_of_le_of_lt (hkept.trans (kept_le args)) (by decide), ?_⟩ hfits
      rwa [← (figlet_command_eq_whole_iff font args).mpr hkept]

/-- A promise that is kept is no cut text that is sent. -/
theorem CompleteOrRefused.room (h : CompleteOrRefused font args segments ending)
    (hformed : args ≠ [] ∧ await_prompt segments ≠ none)
    (hshort : (figlet_command font args).length < BUF_SIZE) : (joined args).length ≤ kept args := by
  rcases main_cases font args segments ending with
    ⟨hnone | hnone, -⟩ | ⟨-, hlong, -⟩ | ⟨-, -, hsends⟩
  · exact absurd hnone hformed.1
  · exact absurd hnone hformed.2
  · exact absurd hshort (Nat.not_lt_of_le hlong)
  · rw [← figlet_command_eq_whole_iff font]
    apply h.complete
    rw [hsends]
    exact List.mem_singleton_self _

end Send

/-- Every command that is sent carries all arguments, and nothing is sent that does
not fit, if and only if no command is formed, or `text` has room for all arguments, or
what it takes of them is too much for `cmd`. No run writes past the end of `text`. -/
theorem completeOrRefused_iff (font : Text) (args segments : List Text) (ending : Ending) :
    CompleteOrRefused font args segments ending ↔
      args = [] ∨ await_prompt segments = none ∨ (joined args).length ≤ kept args ∨
        BUF_SIZE ≤ 11 + font.length + kept args := by
  have hlen := length_figlet_command font args
  constructor
  · intro h
    by_cases hformed : args ≠ [] ∧ await_prompt segments ≠ none
    · right
      right
      have hroom := h.room hformed
      omega
    · rcases not_and_or.mp hformed with hargs | hprompt
      · exact .inl (not_not.mp hargs)
      · exact .inr (.inl (not_not.mp hprompt))
  · intro hcond
    apply completeOrRefused_of_room
    rintro ⟨hargs, hprompt⟩ hshort
    rcases hcond with hnone | hnone | hroom | hlong
    · exact absurd hnone hargs
    · exact absurd hnone hprompt
    · exact hroom
    · omega

/-- A text of more bytes than `text` has room for is cut and sent. -/
theorem cut_text_sent : ¬∀ (font : Text) (args segments : List Text) (ending : Ending),
    CompleteOrRefused font args segments ending := by
  intro hall
  have h := hall (text "standard") [List.replicate 5000 97] [text ".\r\n"] .waiting
  have hjoined : (joined [List.replicate 5000 97]).length = 5000 := by
    rw [joined_cons, List.length_append, List.length_replicate]
    rfl
  have hkept := kept_le [List.replicate 5000 97]
  have hlen := length_figlet_command (text "standard") [List.replicate 5000 97]
  have hfont : (text "standard").length = 8 := rfl
  have hsize : BUF_SIZE = 8192 := rfl
  have hroom := h.room ⟨List.cons_ne_nil _ _, by decide⟩ (by omega)
  omega

end OtusCProg.Telnet
