import OtusCProg.Library.Runs
import OtusCProg.Logger.Delivery

/-!
# Producers, the writer of one level and its destruction

Any number of producers enqueue on the logger of one level while its writer
runs; `destroy_async_logger` starts when all their calls have returned. What
the writer has written followed by what the queue still holds is, in every
state, what was enqueued, in the order of the critical sections.
-/

namespace OtusCProg.Logger
open Library AsyncLogger

/-- One level in use: the texts each producer has left to enqueue, what
`destroy_async_logger` has done, and the texts enqueued, in the order of the critical sections. -/
structure Session where
  globals : Globals
  producers : List (List Text)
  stage : Stage
  enqueued : List Text

/-- Which thread moves, with the answers of `malloc` and `backtrace_symbols`. -/
inductive Move where
  | async_logger_enqueue (producer msg : Nat)
  | async_writer_thread (symbols : Option (List Text))
  | wakeup
  | destroy_async_logger
  | pthread_join

namespace Session

def step (level : Int) (s : Session) : Move → Except Halt Session
  | .async_logger_enqueue producer msg =>
      match s.producers[producer]? with
      | some (msg_text :: rest) =>
          ((s.globals.async_loggers level).enqueue msg msg_text).map fun logger =>
            { s with
              globals := s.globals.setLogger level logger
              producers := s.producers.set producer rest
              enqueued := s.enqueued ++ [msg_text] }
      | _ => .error .blocked
  | .async_writer_thread symbols =>
      (moveWriter s.globals level symbols).map fun g => { s with globals := g }
  | .wakeup =>
      (s.globals.async_loggers level).wakeup.map fun logger =>
        { s with globals := s.globals.setLogger level logger }
  | .destroy_async_logger =>
      if s.stage = .live ∧ s.producers.flatten = [] then
        if (s.globals.async_loggers level).file = none then .ok { s with stage := .closed }
        else
          (s.globals.async_loggers level).stop.map fun logger =>
            { s with globals := s.globals.setLogger level logger, stage := .stopped }
      else .error .blocked
  | .pthread_join =>
      if s.stage = .stopped then
        (s.globals.async_loggers level).join.map fun logger =>
          { s with globals := s.globals.setLogger level logger, stage := .closed }
      else .error .blocked

/-- A state of a run from `s`; every step that succeeds may be taken. -/
def Reachable (level : Int) : Session → Session → Prop := Runs (step level) fun _ _ => True

/-- The level has just been created; nothing has been enqueued. -/
def created (env : Environment) (g : Globals) (level : Int) (filename : Text)
    (producers : List (List Text)) : Session :=
  ⟨create_async_logger env g level filename, producers, .live, []⟩

/-- The texts that went to the file of the level since `g`. -/
def fileTexts (g : Globals) (filename : Text) (s : Session) : List Text :=
  ((s.globals.written.drop g.written.length).filter (·.sink = .file filename)).map Write.text

section Reaching
variable {level : Int} {s t u : Session} {move : Move}

theorem Reachable.refl : Reachable level s s := Relation.ReflTransGen.refl

theorem Reachable.trans (h : Reachable level s t) (h' : Reachable level t u) : Reachable level s u :=
  Relation.ReflTransGen.trans h h'

theorem Reachable.head (hstep : step level s move = .ok t) (h : Reachable level t u) :
    Reachable level s u :=
  Runs.cons trivial hstep h

end Reaching

section Producers
variable {producers : List (List Text)} {producer : Nat} {t : Text} {rest : List Text}

/-- Some producer has a text left, as long as any text is left. -/
theorem exists_producer (h : producers.flatten ≠ []) :
    ∃ (producer : Nat) (t : Text) (rest : List Text), producers[producer]? = some (t :: rest) := by
  obtain ⟨t, ht⟩ := List.exists_mem_of_ne_nil _ h
  obtain ⟨texts, htexts, hmem⟩ := List.mem_flatten.mp ht
  obtain ⟨producer, hproducer⟩ := List.mem_iff_getElem?.mp htexts
  cases texts with
  | nil => cases hmem
  | cons first rest => exact ⟨producer, first, rest, hproducer⟩

/-- A producer hands over its next text. -/
theorem flatten_set_perm (h : producers[producer]? = some (t :: rest)) :
    (t :: (producers.set producer rest).flatten).Perm producers.flatten := by
  induction producers generalizing producer with
  | nil => cases h
  | cons texts others ih =>
      cases producer with
      | zero =>
          obtain rfl := Option.some.inj h
          exact List.Perm.refl _
      | succ producer =>
          have hothers := (ih h).append_left texts
          exact List.perm_middle.symm.trans hothers

end Producers

/-- `create_async_logger` succeeds, on a heap with room. -/
structure Creatable (env : Environment) (g : Globals) (level : Int) (filename : Text) : Prop where
  valid : 0 ≤ level ∧ level < 8
  opens : env.fopen filename = .ok ()
  starts : env.pthread_create level = true
  room : ∃ bound, ∀ a, bound ≤ a → (g.async_loggers level).nodes a = none

/-- The invariant of all runs, with the texts the logger still holds. -/
structure Inv (g : Globals) (level : Int) (filename : Text) (producers : List (List Text))
    (s : Session) (pending : List Text) : Prop where
  queue : LevelOk (some filename) level s.stage (s.globals.async_loggers level) pending
  common_file : s.globals.common_file = g.common_file
  written : ∃ ws, s.globals.written = g.written ++ ws ∧
    ws.map Write.route ++ pending.map (fun t => (level, messageSink g level (.file filename), t)) =
      s.enqueued.map fun t => (level, messageSink g level (.file filename), t)
  returned : s.stage ≠ .live → s.producers.flatten = []
  texts : (s.enqueued ++ s.producers.flatten).Perm producers.flatten

section Invariant
variable {env : Environment} {g : Globals} {level : Int} {filename : Text}
  {producers : List (List Text)} {s t : Session} {pending : List Text} {logger : AsyncLogger}

theorem create_async_logger_eq (h : Creatable env g level filename) :
    create_async_logger env g level filename = g.setLogger level
      { fresh_logger g level with file := some (.file filename), thread := .ready } := by
  have hrange : ¬(level < 0 ∨ 8 ≤ level) := by
    have hvalid := h.valid
    omega
  simp only [create_async_logger, if_neg hrange, h.opens, h.starts, if_true]

/-- The created level holds nothing. -/
theorem inv_created (h : Creatable env g level filename) (producers : List (List Text)) :
    Inv g level filename producers (created env g level filename producers) [] := by
  unfold created
  rw [create_async_logger_eq h]
  refine ⟨?_, rfl, ⟨[], (List.append_nil _).symm, rfl⟩, fun hlive => absurd rfl hlive, ?_⟩
  · simp only [Globals.setLogger, Function.update_self]
    exact ⟨rfl, rfl, rfl, [], ⟨rfl, List.nodup_nil, h.room⟩, rfl, rfl⟩
  · exact List.Perm.refl _

/-- The text enqueued is the last one that is left. -/
theorem Inv.enqueue (inv : Inv g level filename producers s pending) {producer msg : Nat}
    {msg_text : Text} {rest : List Text} (hproducer : s.producers[producer]? = some (msg_text :: rest))
    (h : (s.globals.async_loggers level).enqueue msg msg_text = .ok logger) :
    Inv g level filename producers
      { s with
        globals := s.globals.setLogger level logger
        producers := s.producers.set producer rest
        enqueued := s.enqueued ++ [msg_text] } (pending ++ [msg_text]) := by
  have hflatten := flatten_set_perm hproducer
  have hlive : s.stage = .live := by
    by_contra hlive
    rw [inv.returned hlive] at hflatten
    exact List.cons_ne_nil _ _ hflatten.eq_nil
  have hlevel := inv.queue
  rw [hlive] at hlevel
  obtain ⟨hfile, hown, hrun, hold⟩ := hlevel
  obtain ⟨hold', hfile', hrun', hown'⟩ := enqueue_holds h (hold.thread_ne_ended hrun) hold
  obtain ⟨ws, hwritten, hroutes⟩ := inv.written
  refine ⟨?_, inv.common_file, ⟨ws, hwritten, ?_⟩, fun hne => absurd hlive hne, ?_⟩
  · rw [setLogger_async_loggers, hlive]
    exact ⟨hfile'.trans hfile, hown'.trans hown, hrun'.trans hrun, hold'⟩
  · rw [List.map_append, List.map_append, ← List.append_assoc, hroutes]
  · calc
      (s.enqueued ++ [msg_text] ++ (s.producers.set producer rest).flatten).Perm
          (s.enqueued ++ s.producers.flatten) := by
        rw [List.append_assoc]
        exact hflatten.append_left s.enqueued
      List.Perm _ producers.flatten := inv.texts

/-- A step of the writer moves the oldest text from the queue to the file, or none. -/
theorem Inv.moveWriter (inv : Inv g level filename producers s pending)
    {symbols : Option (List Text)} {g' : Globals}
    (h : Logger.moveWriter s.globals level symbols = .ok g') :
    ∃ left, Inv g level filename producers { s with globals := g' } left ∧
      remaining (g'.async_loggers level) left <
        remaining (s.globals.async_loggers level) pending := by
  obtain ⟨file, logger', out, left, more, hname, _, _, rfl, hlevel', rfl, hmore, hless⟩ :=
    moveWriter_levelOk h inv.queue
  obtain rfl := Option.some.inj hname
  obtain ⟨ws, hwritten, hroutes⟩ := inv.written
  refine ⟨left, ⟨?_, inv.common_file, ⟨ws ++ more, ?_, ?_⟩, inv.returned, inv.texts⟩, ?_⟩
  · show LevelOk _ _ _ ((s.globals.setLogger level logger').async_loggers level) _
    rw [setLogger_async_loggers]
    exact hlevel'
  · rw [hwritten, List.append_assoc]
  · have hsink : messageSink s.globals level (.file filename) = messageSink g level (.file filename) := by
      unfold messageSink
      rw [inv.common_file]
    rw [← hroutes, List.map_append, hmore, hsink, List.map_append, List.append_assoc]
  · show remaining ((s.globals.setLogger level logger').async_loggers level) _ < _
    rw [setLogger_async_loggers]
    exact hless

theorem Inv.wakeup (inv : Inv g level filename producers s pending)
    (h : (s.globals.async_loggers level).wakeup = .ok logger) :
    Inv g level filename producers { s with globals := s.globals.setLogger level logger } pending := by
  have hthread := wakeup_thread h
  obtain ⟨_, _, _, _, _, hold⟩ := inv.queue.of_thread hthread
  obtain ⟨hold', hsame⟩ := wakeup_holds h hold
  refine ⟨?_, inv.common_file, inv.written, inv.returned, inv.texts⟩
  rw [setLogger_async_loggers]
  exact inv.queue.sameSetup hthread hsame hold'

theorem Inv.stop (inv : Inv g level filename producers s pending) (hlive : s.stage = .live)
    (hreturned : s.producers.flatten = [])
    (h : (s.globals.async_loggers level).stop = .ok logger) :
    Inv g level filename producers
      { s with globals := s.globals.setLogger level logger, stage := .stopped } pending := by
  have hlevel := inv.queue
  rw [hlive] at hlevel
  obtain ⟨hfile, hown, hrun, hold⟩ := hlevel
  obtain ⟨hold', hfile', hown', hrun'⟩ := stop_holds h hrun hold
  refine ⟨?_, inv.common_file, inv.written, fun _ => hreturned, inv.texts⟩
  rw [setLogger_async_loggers]
  exact ⟨hfile'.trans hfile, hown'.trans hown, hrun', hold'⟩

theorem Inv.join (inv : Inv g level filename producers s pending) (hstopped : s.stage = .stopped)
    (h : (s.globals.async_loggers level).join = .ok logger) :
    pending = [] ∧ Inv g level filename producers
      { s with globals := s.globals.setLogger level logger, stage := .closed } pending := by
  have hlevel := inv.queue
  rw [hstopped] at hlevel
  obtain ⟨_, _, _, hold⟩ := hlevel
  obtain ⟨hpending, hfile, hthread⟩ := join_holds h hold
  refine ⟨hpending, ?_, inv.common_file, inv.written, fun _ => inv.returned ?_, inv.texts⟩
  · rw [setLogger_async_loggers]
    exact ⟨hfile, hthread, hpending⟩
  · rw [hstopped]
    exact nofun

/-- Every step keeps the invariant. -/
theorem Inv.step (inv : Inv g level filename producers s pending) {move : Move}
    (h : step level s move = .ok t) : ∃ pending', Inv g level filename producers t pending' := by
  cases move with
  | async_logger_enqueue producer msg =>
      simp only [Session.step] at h
      split at h
      · rename_i msg_text rest hproducer
        obtain ⟨logger, henq, rfl⟩ := map_eq_ok.mp h
        exact ⟨_, inv.enqueue hproducer henq⟩
      · cases h
  | async_writer_thread symbols =>
      simp only [Session.step] at h
      obtain ⟨g', hmove, rfl⟩ := map_eq_ok.mp h
      obtain ⟨left, inv', _⟩ := inv.moveWriter hmove
      exact ⟨left, inv'⟩
  | wakeup =>
      simp only [Session.step] at h
      obtain ⟨logger, hwake, rfl⟩ := map_eq_ok.mp h
      exact ⟨_, inv.wakeup hwake⟩
  | destroy_async_logger =>
      simp only [Session.step] at h
      split at h
      · rename_i hready
        obtain ⟨hlive, hreturned⟩ := hready
        have hfile : (s.globals.async_loggers level).file ≠ none := by
          have hlevel := inv.queue
          rw [hlive] at hlevel
          rw [hlevel.1]
          exact Option.some_ne_none _
        rw [if_neg hfile] at h
        obtain ⟨logger, hstop, rfl⟩ := map_eq_ok.mp h
        exact ⟨_, inv.stop hlive hreturned hstop⟩
      · cases h
  | pthread_join =>
      simp only [Session.step] at h
      split at h
      · rename_i hstopped
        obtain ⟨logger, hjoin, rfl⟩ := map_eq_ok.mp h
        exact ⟨_, (inv.join hstopped hjoin).2⟩
      · cases h

theorem Reachable.inv (h : Reachable level (created env g level filename producers) s)
    (hcreate : Creatable env g level filename) :
    ∃ pending, Inv g level filename producers s pending := by
  refine Runs.invariant (I := fun s => ∃ pending, Inv g level filename producers s pending) h
    ⟨[], inv_created hcreate producers⟩ ?_
  rintro t u move ⟨_, inv⟩ _ hstep
  exact inv.step hstep

section Progress

/-- As long as a producer has a text left, some producer can enqueue. -/
theorem enqueue_progress (n : Nat) (inv : Inv g level filename producers s pending)
    (hlive : s.stage = .live) (hn : s.producers.flatten.length = n) :
    ∃ t pending', Reachable level s t ∧ Inv g level filename producers t pending' ∧
      t.stage = .live ∧ t.producers.flatten = [] := by
  induction n generalizing s pending with
  | zero => exact ⟨s, pending, .refl, inv, hlive, List.eq_nil_of_length_eq_zero hn⟩
  | succ n ih =>
      obtain ⟨producer, msg_text, rest, hproducer⟩ := exists_producer (List.ne_nil_of_length_eq_add_one hn)
      have hqueue := inv.queue
      rw [hlive] at hqueue
      obtain ⟨_, _, hrun, hold⟩ := hqueue
      obtain ⟨msg, logger, henq⟩ := enqueue_enabled msg_text hold hrun
      have hstep : step level s (.async_logger_enqueue producer msg) = .ok
          { s with
            globals := s.globals.setLogger level logger
            producers := s.producers.set producer rest
            enqueued := s.enqueued ++ [msg_text] } := by
        simp only [step, hproducer, henq]
        rfl
      have hless : (s.producers.set producer rest).flatten.length = n := by
        have hlength := (flatten_set_perm hproducer).length_eq
        rw [List.length_cons, hn] at hlength
        exact Nat.succ.inj hlength
      obtain ⟨t, pending', hreach, hdone⟩ := ih (inv.enqueue hproducer henq) hlive hless
      exact ⟨t, pending', Reachable.head hstep hreach, hdone⟩

/-- A stopped writer comes to its end, and `destroy_async_logger` returns. -/
theorem join_progress (n : Nat) (inv : Inv g level filename producers s pending)
    (hstopped : s.stage = .stopped) (hn : remaining (s.globals.async_loggers level) pending = n) :
    ∃ t, Reachable level s t ∧ t.stage = .closed := by
  induction n using Nat.strong_induction_on generalizing s pending with | _ n ih => ?_
  have hqueue := inv.queue
  rw [hstopped] at hqueue
  obtain ⟨_, _, hrun, hold⟩ := hqueue
  by_cases hended : (s.globals.async_loggers level).thread = .ended
  · obtain ⟨logger, hjoin⟩ : ∃ logger, (s.globals.async_loggers level).join = .ok logger :=
      ⟨_, if_pos hended⟩
    have hstep : step level s .pthread_join = .ok
        { s with globals := s.globals.setLogger level logger, stage := .closed } := by
      simp only [step, if_pos hstopped, hjoin]
      rfl
    exact ⟨_, Reachable.head hstep .refl, rfl⟩
  · obtain ⟨g', hmove⟩ := moveWriter_enabled hold (hold.thread_ne_asleep hrun) hended
    have hstep : step level s (.async_writer_thread none) = .ok { s with globals := g' } := by
      simp only [step, hmove]
      rfl
    obtain ⟨left, inv', hless⟩ := inv.moveWriter hmove
    obtain ⟨t, hreach, hclosed⟩ := ih _ (hn ▸ hless) inv' hstopped rfl
    exact ⟨t, Reachable.head hstep hreach, hclosed⟩

/-- From every state of a run, `destroy_async_logger` can be brought to its return. -/
theorem destroy_returns (hcreate : Creatable env g level filename)
    (h : Reachable level (created env g level filename producers) s) :
    ∃ t, Reachable level s t ∧ t.stage = .closed := by
  obtain ⟨pending, inv⟩ := h.inv hcreate
  cases hstage : s.stage with
  | closed => exact ⟨s, .refl, hstage⟩
  | stopped => exact join_progress _ inv hstage rfl
  | live =>
      obtain ⟨t, pending', hreach, inv', hlive, hreturned⟩ := enqueue_progress _ inv hstage rfl
      have hqueue := inv'.queue
      rw [hlive] at hqueue
      obtain ⟨hfile, _, hrun, hold⟩ := hqueue
      obtain ⟨logger, hstop⟩ := stop_enabled hold hrun
      have hstep : step level t .destroy_async_logger = .ok
          { t with globals := t.globals.setLogger level logger, stage := .stopped } := by
        simp only [step, if_pos (And.intro hlive hreturned), hfile, reduceCtorEq, if_false, hstop]
        rfl
      obtain ⟨u, hreach', hclosed⟩ := join_progress _ (inv'.stop hlive hreturned hstop) rfl rfl
      exact ⟨u, hreach.trans (Reachable.head hstep hreach'), hclosed⟩

end Progress

section Delivery

/-- The texts of one sink among writes that all go to one sink. -/
theorem texts_of_routes {ws : List Write} {sink file : Sink} {texts : List Text}
    (h : ws.map Write.route = texts.map fun t => (level, sink, t)) :
    (ws.filter (·.sink = file)).map Write.text = if sink = file then texts else [] := by
  have htexts : ws.map Write.text = texts := by
    have hproj := congrArg (List.map (·.2.2)) h
    simpa [Write.route, Function.comp_def] using hproj
  have hsinks : ∀ w ∈ ws, w.sink = sink := by
    intro w hw
    have hmem : w.route ∈ ws.map Write.route := List.mem_map_of_mem hw
    rw [h] at hmem
    obtain ⟨t, _, ht⟩ := List.mem_map.mp hmem
    exact (congrArg (·.2.1) ht).symm
  by_cases hsink : sink = file
  · rw [if_pos hsink, List.filter_eq_self.mpr, htexts]
    intro w hw
    rw [hsinks w hw, hsink]
    exact decide_eq_true rfl
  · rw [if_neg hsink, List.filter_eq_nil_iff.mpr, List.map_nil]
    intro w hw
    rw [hsinks w hw]
    exact fun heq => hsink (of_decide_eq_true heq)

/-- What `destroy_async_logger` leaves behind: every text written, in the order of the enqueues. -/
theorem Inv.closed_written (inv : Inv g level filename producers s pending)
    (hclosed : s.stage = .closed) :
    (s.globals.written.drop g.written.length).map Write.route =
      s.enqueued.map fun t => (level, messageSink g level (.file filename), t) := by
  have hqueue := inv.queue
  rw [hclosed] at hqueue
  obtain rfl := hqueue.closed
  obtain ⟨ws, hwritten, hroutes⟩ := inv.written
  rw [List.map_nil, List.append_nil] at hroutes
  rw [hwritten, List.drop_left]
  exact hroutes

/-- The file then holds the texts enqueued unless they are INFO texts sent to `stdout`. -/
theorem Inv.fileTexts_eq_iff (inv : Inv g level filename producers s pending)
    (hclosed : s.stage = .closed) :
    s.enqueued.Perm producers.flatten ∧
      (fileTexts g filename s = s.enqueued ↔
        ¬(level = LOG_INFO ∧ g.common_file = some .stderr) ∨ producers.flatten = []) := by
  have hreturned : s.producers.flatten = [] := inv.returned (by rw [hclosed]; exact nofun)
  have htexts := inv.texts
  rw [hreturned, List.append_nil] at htexts
  have hfile : fileTexts g filename s = _ := texts_of_routes (inv.closed_written hclosed)
  refine ⟨htexts, ?_⟩
  rw [hfile, ← messageSink_eq_file filename]
  constructor
  · intro heq
    by_cases hsink : messageSink g level (.file filename) = .file filename
    · exact Or.inl hsink
    · rw [if_neg hsink] at heq
      rw [← heq] at htexts
      exact Or.inr htexts.nil_eq.symm
  · rintro (hsink | hnone)
    · exact if_pos hsink
    · rw [hnone] at htexts
      rw [htexts.eq_nil, ite_self]

/-- `destroy_async_logger` can always return, and then the file holds exactly the texts enqueued, in
the order of the critical sections, unless INFO texts go to `stdout`; no writer sleeps on work. -/
theorem destroy_delivers_iff (hcreate : Creatable env g level filename)
    (h : Reachable level (created env g level filename producers) s) :
    (s.stage = .closed → s.enqueued.Perm producers.flatten ∧
        (fileTexts g filename s = s.enqueued ↔
          ¬(level = LOG_INFO ∧ g.common_file = some .stderr) ∨ producers.flatten = [])) ∧
      ((s.globals.async_loggers level).thread = .asleep →
        (s.globals.async_loggers level).queue_head = none ∧
          (s.globals.async_loggers level).running = true) ∧
      ∃ t, Reachable level s t ∧ t.stage = .closed := by
  obtain ⟨pending, inv⟩ := h.inv hcreate
  refine ⟨inv.fileTexts_eq_iff, fun hasleep => ?_, destroy_returns hcreate h⟩
  have hthread : (s.globals.async_loggers level).thread ≠ .none := by
    rw [hasleep]
    exact nofun
  obtain ⟨_, _, _, _, _, hold⟩ := inv.queue.of_thread hthread
  exact ⟨hold.asleep_queue_head hasleep, (hold.asleep hasleep).1⟩

/-- The library data when `do_init` comes to the levels. -/
def beforeLevels (env : Environment) : Globals :=
  init_threshold env (init_common env { start [] with logging_enabled := true })

theorem creatable_with_vars {vars : List (String × String)} (hlevel : level ∈ valid_levels) :
    Creatable (with_vars vars) (beforeLevels (with_vars vars)) level filename := by
  refine ⟨valid_range hlevel, rfl, rfl, 0, fun a _ => ?_⟩
  unfold beforeLevels init_threshold init_common
  cases configured (with_vars vars) { start [] with logging_enabled := true } "LOG_FILE" with
  | none => dsimp only; split <;> rfl
  | some name => dsimp only [with_vars]; split <;> rfl

/-- Two producers, with three texts together. -/
def twoProducers : List (List Text) := [[text "first", text "second"], [text "third"]]

theorem destroy_delivers_iff_bothFiles :
    ∃ s, Reachable LOG_INFO
        (created bothFiles (beforeLevels bothFiles) LOG_INFO (text "info.log") twoProducers) s ∧
      s.stage = .closed ∧
      fileTexts (beforeLevels bothFiles) (text "info.log") s = s.enqueued ∧
      s.enqueued.Perm twoProducers.flatten := by
  have hcreate : Creatable bothFiles (beforeLevels bothFiles) LOG_INFO (text "info.log") :=
    creatable_with_vars (by decide)
  obtain ⟨s, hreach, hclosed⟩ := destroy_returns hcreate (.refl (s := created _ _ _ _ twoProducers))
  obtain ⟨htexts, hiff⟩ := (destroy_delivers_iff hcreate hreach).1 hclosed
  exact ⟨s, hreach, hclosed, hiff.mpr (Or.inl (by decide)), htexts⟩

theorem info_texts_miss_the_file :
    ∃ s, Reachable LOG_INFO (created infoFileOnly (beforeLevels infoFileOnly) LOG_INFO
        (text "info.log") twoProducers) s ∧
      s.stage = .closed ∧
      fileTexts (beforeLevels infoFileOnly) (text "info.log") s ≠ s.enqueued := by
  have hcreate : Creatable infoFileOnly (beforeLevels infoFileOnly) LOG_INFO (text "info.log") :=
    creatable_with_vars (by decide)
  obtain ⟨s, hreach, hclosed⟩ := destroy_returns hcreate (.refl (s := created _ _ _ _ twoProducers))
  obtain ⟨pending, inv⟩ := hreach.inv hcreate
  refine ⟨s, hreach, hclosed, fun heq => ?_⟩
  rcases (inv.fileTexts_eq_iff hclosed).2.mp heq with hroute | hnone
  · exact hroute ⟨rfl, by decide⟩
  · cases hnone

end Delivery

end Invariant

end Session

end OtusCProg.Logger
