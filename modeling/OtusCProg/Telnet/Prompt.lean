import OtusCProg.Library.Segments
import OtusCProg.Telnet.Model

/-!
# The prompt and the segments of the stream

Both loops of `main` search each segment on its own for three bytes. A stream
without a prompt is read in the same way whatever its segments are; one with a
prompt is missed when it comes byte by byte. Segments that cut no prompt show
what the stream as a whole shows.
-/

namespace OtusCProg.Telnet
open Library

/-- `read` is asked for no more than this. -/
def READ_SIZE : Nat := BUF_SIZE - 1

/-- There are arguments, and the command fits into `cmd`. -/
def Sendable (font : Text) (args : List Text) : Prop :=
  args ≠ [] ∧ (figlet_command font args).length < BUF_SIZE

/-- A line that is a single dot. -/
def HasDotLine (reply : Text) : Prop :=
  ∃ before after, reply = before ++ text "." ++ after ∧ (before = [] ∨ text "\r\n" <:+ before) ∧
    (after = [] ∨ text "\r\n" <+: after)

/-- The command is sent for any two splits of the greeting or for none of them; and where the reply
has a line with a single dot, any two splits of it lead to the same output and to the end. -/
def PromptIndependent (font : Text) (args : List Text) (greeting reply : Text) : Prop :=
  (∀ ending g g', Split READ_SIZE greeting g → Split READ_SIZE greeting g' →
    (figlet_command font args ∈ (main font args g ending).sends ↔
      figlet_command font args ∈ (main font args g' ending).sends)) ∧
  (HasDotLine reply → ∀ ending opening r r', await_prompt opening = some [] →
    figlet_command font args ∈ (main font args opening ending).sends →
    Split READ_SIZE reply r → Split READ_SIZE reply r' →
    (main font args (opening ++ r) ending).stdout = (main font args (opening ++ r') ending).stdout ∧
      (main font args (opening ++ r) ending).exit = .success ∧
      (main font args (opening ++ r') ending).exit = .success)

section Loops
variable {font : Text} {args segments : List Text} {ending : Ending}

theorem await_prompt_isSome :
    (await_prompt segments).isSome ↔ ∃ buf ∈ segments, text ".\r\n" <:+: cstr buf := by
  induction segments with
  | nil => simp [await_prompt]
  | cons buf segments ih =>
      rw [await_prompt]
      split
      · rename_i hfound
        simp [strstr_isSome.mp hfound]
      · rename_i hnone
        simp [mt strstr_isSome.mpr hnone, ih]

theorem await_prompt_append {rest : List Text} (h : await_prompt segments = some []) :
    await_prompt (segments ++ rest) = some rest := by
  induction segments with
  | nil => cases h
  | cons buf segments ih =>
      rw [await_prompt] at h
      rw [List.cons_append, await_prompt]
      split at h
      · rename_i hfound
        rw [if_pos hfound, Option.some.inj h, List.nil_append]
      · rename_i hnone
        rw [if_neg hnone, ih h]

theorem cstr_isInfix (s : Text) : cstr s <:+: s := ( List.takeWhile_prefix _).isInfix

/-- Byte by byte no pattern is found. -/
theorem strstr_bytewise {stream needle buf : Text} (hneedle : 1 < needle.length)
    (hbuf : buf ∈ bytewise stream) : strstr needle (cstr buf) = none := by
  rw [← Option.not_isSome_iff_eq_none, strstr_isSome]
  intro hoccurs
  exact not_infix_of_mem_bytewise hneedle hbuf (hoccurs.trans (cstr_isInfix buf))

theorem await_prompt_bytewise (stream : Text) : await_prompt (bytewise stream) = none := by
  rw [← Option.not_isSome_iff_eq_none, await_prompt_isSome]
  rintro ⟨buf, hbuf, hoccurs⟩
  have hnone : strstr (text ".\r\n") (cstr buf) = none := strstr_bytewise (by decide) hbuf
  rw [← strstr_isSome, hnone] at hoccurs
  cases hoccurs

theorem copy_reply_bytewise (stream : Text) : (copy_reply (bytewise stream)).2 = false := by
  have hnone : ∀ buf ∈ bytewise stream, strstr (text "\r\n.") (cstr buf) = none :=
    fun buf hbuf => strstr_bytewise (by decide) hbuf
  generalize bytewise stream = segments at hnone
  induction segments with
  | nil => rfl
  | cons buf segments ih =>
      obtain ⟨hbuf, hrest⟩ := List.forall_mem_cons.mp hnone
      rw [copy_reply, hbuf]
      exact ih hrest

/-- The command is sent where it can be sent and a segment has the prompt. -/
theorem command_mem_sends : figlet_command font args ∈ (main font args segments ending).sends ↔
    Sendable font args ∧ (await_prompt segments).isSome := by
  have hother : figlet_command font args ≠ text "\r\n" := by
    intro heq
    have hhead : (figlet_command font args).head? = some 102 := by
      simp only [figlet_command, List.append_assoc]
      rfl
    rw [heq] at hhead
    exact absurd hhead (by decide)
  unfold main Sendable
  split
  · simp [*]
  · split
    · simp [*]
    · dsimp only
      split
      · simp [*]
      · simp_all

/-- Behind the prompt `main` goes on with the reply. -/
theorem main_reply {opening reply : List Text} (hsend : Sendable font args)
    (hopening : await_prompt opening = some []) :
    main font args (opening ++ reply) .waiting =
      ⟨[text "\r\n", figlet_command font args], (copy_reply reply).1,
        if (copy_reply reply).2 then .success else .reading⟩ := by
  rw [main, if_neg hsend.1, await_prompt_append hopening]
  dsimp only
  rw [if_neg hsend.2.not_ge]
  rfl

end Loops

section Uncut
variable {size : Nat} {stream : Text} {segments segments' : List Text}

/-- What a search of the reply as a whole shows, and whether there is a prompt in it. -/
def shown (reply : Text) : Text × Bool :=
  match strstr (text "\r\n.") reply with
  | some rest => (reply.take (reply.length - rest.length) ++ text "\n", true)
  | none => (reply, false)

/-- Segments that cut no prompt show the prompt of the stream. -/
theorem await_prompt_of_uncut (hzero : 0 ∉ segments.flatten) (huncut : Uncut (text ".\r\n") segments) :
    (await_prompt segments).isSome ↔ text ".\r\n" <:+: segments.flatten := by
  rw [await_prompt_isSome, infix_flatten_iff (by decide) huncut]
  refine exists_congr fun buf => and_congr_right fun hbuf => ?_
  rw [cstr_eq_self fun hmem => hzero (List.mem_flatten_of_mem hbuf hmem)]

/-- Segments that cut no prompt show what the reply as a whole shows. -/
theorem copy_reply_of_uncut (hzero : 0 ∉ segments.flatten) (huncut : Uncut (text "\r\n.") segments) :
    copy_reply segments = shown segments.flatten := by
  induction segments with
  | nil => rfl
  | cons buf segments ih =>
      rw [List.flatten_cons, List.mem_append, not_or] at hzero
      obtain ⟨hcut, hrest⟩ := huncut
      rw [copy_reply, cstr_eq_self hzero.1, List.flatten_cons, shown]
      cases hbuf : strstr (text "\r\n.") buf with
      | some pos =>
          have hle := (strstr_isSuffix hbuf).length_le
          rw [strstr_append_of_some hbuf]
          simp only [List.length_append, Nat.add_sub_add_right]
          rw [List.take_append_of_le_length (Nat.sub_le ..)]
      | none =>
          have hnone : ¬ text "\r\n." <:+: buf := by
            rw [← strstr_isSome, hbuf]
            exact Bool.false_ne_true
          rw [strstr_append_of_uncut hnone hcut, ih hzero.2 hrest, shown]
          cases hfound : strstr (text "\r\n.") segments.flatten with
          | none => rfl
          | some pos =>
              have hle := (strstr_isSuffix hfound).length_le
              simp only [List.length_append]
              rw [Nat.add_sub_assoc hle, List.take_length_add_append, List.append_assoc]

/-- Any two ways to receive a stream that cut no prompt lead to the same search and output. -/
theorem uncut_splits_agree (hzero : 0 ∉ stream) (h : Split size stream segments)
    (h' : Split size stream segments') :
    (Uncut (text ".\r\n") segments → Uncut (text ".\r\n") segments' →
        ((await_prompt segments).isSome ↔ (await_prompt segments').isSome)) ∧
      (Uncut (text "\r\n.") segments → Uncut (text "\r\n.") segments' →
        copy_reply segments = copy_reply segments') := by
  rw [← h.flatten] at hzero
  have hsame : segments'.flatten = segments.flatten := h'.flatten.trans h.flatten.symm
  have hzero' : 0 ∉ segments'.flatten := by rwa [hsame]
  constructor
  · intro huncut huncut'
    rw [await_prompt_of_uncut hzero huncut, await_prompt_of_uncut hzero' huncut', hsame]
  · intro huncut huncut'
    rw [copy_reply_of_uncut hzero huncut, copy_reply_of_uncut hzero' huncut', hsame]

end Uncut

/-- The client is independent of the segments exactly where there is no prompt to be found, in the
greeting and in the reply, or where it has no command to send. -/
theorem promptIndependent_iff (font : Text) (args : List Text) (greeting reply : Text) :
    PromptIndependent font args greeting reply ↔
      (Sendable font args → ¬ text ".\r\n" <:+: greeting ∧ ¬ HasDotLine reply) := by
  constructor
  · rintro ⟨hgreeting, hreply⟩ hsend
    constructor
    · intro hprompt
      have hroom : (text ".\r\n").length ≤ READ_SIZE := by decide
      obtain ⟨g, hsplit, hmem⟩ := exists_split_with (by decide) hroom hprompt
      have hfound : (await_prompt g).isSome := await_prompt_isSome.mpr ⟨_, hmem, List.infix_rfl⟩
      have hsame := hgreeting .waiting g (bytewise greeting) hsplit (split_bytewise (by decide) greeting)
      rw [command_mem_sends, command_mem_sends, await_prompt_bytewise] at hsame
      exact absurd (hsame.mp ⟨hsend, hfound⟩).2 Bool.false_ne_true
    · intro hdot
      have hopening : await_prompt [text ".\r\n"] = some [] := by decide
      have hsplit : Split READ_SIZE reply (bytewise reply) := split_bytewise (by decide) reply
      have hmem : figlet_command font args ∈ (main font args [text ".\r\n"] .waiting).sends :=
        command_mem_sends.mpr ⟨hsend, by decide⟩
      have hstop := (hreply hdot .waiting _ _ _ hopening hmem hsplit hsplit).2.1
      rw [main_reply hsend hopening, copy_reply_bytewise] at hstop
      cases hstop
  · intro hnone
    constructor
    · intro ending g g' hg hg'
      rw [command_mem_sends, command_mem_sends]
      refine and_congr_right fun hsend => ?_
      have hquiet : ∀ segments, Split READ_SIZE greeting segments → ¬ (await_prompt segments).isSome := by
        intro segments hsplit hfound
        obtain ⟨buf, hbuf, hoccurs⟩ := await_prompt_isSome.mp hfound
        have hpart : text ".\r\n" <:+: buf := hoccurs.trans (cstr_isInfix buf)
        exact (hnone hsend).1 (hpart.trans (hsplit.infix_of_mem hbuf))
      exact iff_of_false (hquiet g hg) (hquiet g' hg')
    · intro hdot ending opening r r' _ hmem
      exact absurd hdot (hnone (command_mem_sends.mp hmem).1).2

/-- A prompt that arrives in two segments is missed. -/
theorem cut_prompt_missed :
    ¬ ∀ (font : Text) (args : List Text) (greeting reply : Text), 0 ∉ greeting → 0 ∉ reply →
      PromptIndependent font args greeting reply := by
  intro hall
  have hindependent := hall (text "standard") [text "hi"] (text ".\r\n") [] (by decide) (by decide)
  have hwhole : Split READ_SIZE (text ".\r\n") [text ".\r\n"] := ⟨rfl, by decide⟩
  have hcut : Split READ_SIZE (text ".\r\n") [text ".\r", text "\n"] := ⟨rfl, by decide⟩
  have hsame := hindependent.1 .waiting _ _ hwhole hcut
  exact absurd (hsame.mp (by decide)) (by decide)

end OtusCProg.Telnet
