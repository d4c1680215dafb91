import OtusCProg.Logger.Producers

/-!
# The two ends of the queue

`async_logger_enqueue`, the loop of `async_writer_thread` and its final drain all store into
`queue_head` or `queue_tail`. The loop resets `queue_tail` with the last node, the drain does not:
when it has freed a node, `queue_tail` points to freed memory behind an empty queue, and the next
enqueue follows it.
-/

namespace OtusCProg.Logger
open Library

namespace AsyncLogger

/-- What a thread can do with the queue: the critical sections of the mutex, a return of
`pthread_cond_wait` without a signal, and the end of `destroy_async_logger`. -/
inductive QueueMove where
  | async_logger_enqueue (msg : Nat) (msg_text : Text)
  | async_writer_thread
  | wakeup
  | destroy_async_logger
  | pthread_join

def move (logger : AsyncLogger) : QueueMove → Except Halt AsyncLogger
  | .async_logger_enqueue msg msg_text => logger.enqueue msg msg_text
  | .async_writer_thread => logger.async_writer_thread.map Prod.fst
  | .wakeup => logger.wakeup
  | .destroy_async_logger => logger.stop
  | .pthread_join => logger.join

/-- Only the final drain holds the mutex between two steps. -/
def MutexFree (logger : AsyncLogger) : Prop := logger.thread ≠ .draining

/-- Both pointers are `NULL`, or `queue_tail` is the last node of the chain from `queue_head`. -/
structure Represented (logger : AsyncLogger) : Prop where
  null_iff : logger.queue_head = none ↔ logger.queue_tail = none
  last : ∀ tail, logger.queue_tail = some tail →
    ∃ front text, Chain logger.nodes logger.queue_head (front ++ [(tail, text)])

/-- An enqueue follows no dangling pointer and puts its node behind those of the chain. -/
structure Appends (logger : AsyncLogger) : Prop where
  live : ∀ msg msg_text, logger.enqueue msg msg_text ≠ .error .dangling
  linked : ∀ msg msg_text logger', logger.enqueue msg msg_text = .ok logger' →
    ∀ cells, Chain logger.nodes logger.queue_head cells →
      Chain logger'.nodes logger'.queue_head (cells ++ [(msg, msg_text)])

/-- A writer that finds `running` reset has no message left. -/
def StopsEmpty (logger : AsyncLogger) : QueueMove → Prop
  | .async_writer_thread =>
      logger.thread = .ready → logger.running = false → logger.queue_head = none
  | _ => True

instance (logger : AsyncLogger) (mv : QueueMove) : Decidable (StopsEmpty logger mv) :=
  match mv with
  | .async_writer_thread => inferInstanceAs (Decidable (_ → _ → _))
  | .async_logger_enqueue _ _ => isTrue trivial
  | .wakeup => isTrue trivial
  | .destroy_async_logger => isTrue trivial
  | .pthread_join => isTrue trivial

/-- The pointers and the chain agree, the node in the writer's hand is not in the chain, and a drain
has nothing left. -/
structure Tidy (logger : AsyncLogger) (cells : List (Nat × Text)) : Prop where
  queued : Queued logger cells
  tail : TailOk logger cells
  hand : ∀ msg, logger.thread = .writing msg →
    msg ∉ cells.map Prod.fst ∧ (logger.nodes msg).isSome
  drained : logger.thread = .draining → cells = []

/-- The drain has begun with a message in the queue, and nobody resets `queue_tail` any more. -/
structure Torn (logger : AsyncLogger) (cells : List (Nat × Text)) : Prop where
  queued : Queued logger cells
  tail : cells ≠ [] → TailOk logger cells
  freed : cells = [] → ∃ tail, logger.queue_tail = some tail ∧ logger.nodes tail = none
  stopped : logger.thread = .draining ∨
    cells = [] ∧ (logger.thread = .ended ∨ logger.thread = .none)

variable {logger logger' : AsyncLogger} {cells : List (Nat × Text)} {msg : Nat} {msg_text : Text}
  {out : Option Text} {mv : QueueMove}

theorem signal_thread_of_ne (h : (signal logger).thread ≠ .ready) : signal logger = logger := by
  unfold signal at h ⊢
  split
  · rename_i hthread
    rw [if_pos hthread] at h
    exact absurd rfl h
  · rfl

section Represent

/-- The pointers of a tidy queue. -/
theorem TailOk.represented (htail : TailOk logger cells)
    (hchain : Chain logger.nodes logger.queue_head cells) : Represented logger := by
  rw [TailOk] at htail
  rcases List.eq_nil_or_concat cells with rfl | ⟨front, ⟨last, text⟩, rfl⟩
  · have hhead : logger.queue_head = none := hchain
    have hnone : logger.queue_tail = none := htail
    refine ⟨⟨fun _ => hnone, fun _ => hhead⟩, ?_⟩
    intro tail heq
    rw [hnone] at heq
    cases heq
  · rw [List.concat_eq_append] at hchain htail
    rw [List.getLast?_concat, Option.map_some] at htail
    have hhead : logger.queue_head ≠ none := by
      intro hnone
      rw [hnone] at hchain
      exact List.append_ne_nil_of_right_ne_nil _ (List.cons_ne_nil _ _) (chain_none hchain)
    refine ⟨⟨fun hnone => absurd hnone hhead, ?_⟩, ?_⟩
    · intro hnone
      rw [htail] at hnone
      cases hnone
    · intro tail heq
      obtain rfl := Option.some.inj (htail.symm.trans heq)
      exact ⟨front, text, hchain⟩

/-- An enqueue on a tidy queue. -/
theorem Queued.appends (hq : Queued logger cells) (htail : TailOk logger cells) : Appends logger := by
  constructor
  · intro msg msg_text hdangling
    unfold enqueue at hdangling
    split at hdangling
    · cases hdangling
    · split at hdangling
      · rename_i tail heq
        obtain ⟨front, y, _, hnode⟩ := hq.tail_cell htail heq
        rw [hnode] at hdangling
        cases hdangling
      · cases hdangling
  · intro msg msg_text logger' h cells' hchain
    obtain rfl := hq.chain.unique hchain
    obtain ⟨linked, rfl, hlinked, -⟩ := enqueue_queued h hq htail
    exact hlinked.signal.chain

end Represent

section Good

theorem Tidy.signal (h : Tidy logger cells) : Tidy (signal logger) cells := by
  refine ⟨h.queued.signal, ?_, ?_, ?_⟩
  · rw [TailOk, signal_queue_tail]
    exact h.tail
  · intro msg hthread
    rw [signal_nodes]
    have hsame : logger.signal = logger := signal_thread_of_ne (by simp [hthread])
    rw [hsame] at hthread
    exact h.hand msg hthread
  · intro hthread
    have hsame : logger.signal = logger := signal_thread_of_ne (by simp [hthread])
    rw [hsame] at hthread
    exact h.drained hthread

/-- An enqueue adds the last node of the chain. -/
theorem Tidy.enqueue (ht : Tidy logger cells) (h : logger.enqueue msg msg_text = .ok logger') :
    Tidy logger' (cells ++ [(msg, msg_text)]) := by
  obtain ⟨linked, rfl, hlinked, htail, hthread, _, hframe⟩ := enqueue_queued h ht.queued ht.tail
  apply Tidy.signal
  refine ⟨hlinked, htail, ?_, ?_⟩
  · intro hand hwriting
    obtain ⟨hnot, hsome⟩ := ht.hand hand (hthread.symm.trans hwriting)
    obtain ⟨⟨x, next⟩, hnode⟩ := Option.isSome_iff_exists.mp hsome
    obtain ⟨hnode', hne⟩ := hframe hand x next hnot hnode
    refine ⟨?_, by rw [hnode']; rfl⟩
    rw [List.map_append, List.mem_append, not_or]
    exact ⟨hnot, by simpa using hne⟩
  · intro hdraining
    exact absurd (hthread.symm.trans hdraining) (enqueue_cases h).2.1

/-- A step of the writer takes the first node out, or none. -/
theorem Tidy.writer (ht : Tidy logger cells) (hempty : StopsEmpty logger .async_writer_thread)
    (h : logger.async_writer_thread = .ok (logger', out)) : ∃ cells', Tidy logger' cells' := by
  cases writerStep_of_ok h with
  | stops hthread hrun =>
      obtain rfl := ht.queued.nil_of_head (hempty hthread hrun)
      exact ⟨[], ht.queued.of_same rfl rfl, ht.tail, nofun, fun _ => rfl⟩
  | sleeps =>
      exact ⟨cells, ht.queued.of_same rfl rfl, ht.tail, nofun, nofun⟩
  | @takes msg node hthread hrun hhead hnode =>
      obtain ⟨rest, rfl, hnot, hrest⟩ := ht.queued.pop hhead hnode
      refine ⟨rest, hrest.of_same rfl rfl, tailOk_pop hrest.chain ht.tail, ?_, nofun⟩
      intro hand hwriting
      obtain rfl := Writer.writing.inj hwriting
      exact ⟨hnot, by rw [hnode]; rfl⟩
  | writes hthread =>
      have hupdate := ht.queued.update none (ht.hand _ hthread).1
      exact ⟨cells, hupdate.of_same rfl rfl, ht.tail, nofun, nofun⟩
  | drains hthread hhead =>
      have hchain := ht.queued.chain
      rw [ht.drained hthread, hhead] at hchain
      cases hchain
  | ends =>
      exact ⟨cells, ht.queued.of_same rfl rfl, ht.tail, nofun, nofun⟩

/-- A step that does not begin a drain with a message in the queue keeps the queue tidy. -/
theorem Tidy.move (ht : Tidy logger cells) (hempty : StopsEmpty logger mv)
    (h : logger.move mv = .ok logger') : ∃ cells', Tidy logger' cells' := by
  cases mv with
  | async_logger_enqueue msg msg_text => exact ⟨_, ht.enqueue h⟩
  | async_writer_thread =>
      obtain ⟨⟨next, out⟩, hstep, rfl⟩ := map_eq_ok.mp h
      exact ht.writer hempty hstep
  | wakeup =>
      obtain ⟨_, rfl⟩ := wakeup_cases h
      exact ⟨cells, ht.queued.of_same rfl rfl, ht.tail, nofun, nofun⟩
  | destroy_async_logger =>
      obtain ⟨_, rfl⟩ := stop_cases h
      have hstopped : Tidy { logger with running := false } cells :=
        ⟨ht.queued.of_same rfl rfl, ht.tail, ht.hand, ht.drained⟩
      exact ⟨cells, hstopped.signal⟩
  | pthread_join =>
      obtain ⟨_, rfl⟩ := join_cases h
      exact ⟨cells, ht.queued.of_same rfl rfl, ht.tail, nofun, nofun⟩

end Good

section Bad

/-- The writer of a torn queue is past its loop. -/
theorem Torn.thread (ht : Torn logger cells) :
    logger.thread = .draining ∨ logger.thread = .ended ∨ logger.thread = .none :=
  ht.stopped.imp_right And.right

/-- Nothing is enqueued on a torn queue: the mutex is taken, or `queue_tail` dangles. -/
theorem Torn.enqueue_ne_ok (ht : Torn logger cells) : logger.enqueue msg msg_text ≠ .ok logger' := by
  intro h
  obtain ⟨_, hdrain, hcases⟩ := enqueue_cases h
  obtain ⟨hnil, _⟩ := ht.stopped.resolve_left hdrain
  obtain ⟨tail, heq, hfreed⟩ := ht.freed hnil
  rcases hcases with ⟨tail', last, heq', hlast, _⟩ | ⟨hnone, _⟩
  · obtain rfl := Option.some.inj (heq.symm.trans heq')
    rw [hfreed] at hlast
    cases hlast
  · rw [heq] at hnone
    cases hnone

/-- The drain frees the first node; behind the last one it leaves `queue_tail` dangling. -/
theorem Torn.writer (ht : Torn logger cells)
    (h : logger.async_writer_thread = .ok (logger', out)) : ∃ cells', Torn logger' cells' := by
  have hpast := ht.thread
  cases writerStep_of_ok h with
  | stops hthread => simp [hthread] at hpast
  | sleeps hthread => simp [hthread] at hpast
  | takes hthread => simp [hthread] at hpast
  | writes hthread => simp [hthread] at hpast
  | @drains msg node hthread hhead hnode =>
      obtain ⟨rest, rfl, hnot, hrest⟩ := ht.queued.pop hhead hnode
      have htail := ht.tail (List.cons_ne_nil _ _)
      have hupdate := hrest.update none hnot
      refine ⟨rest, hupdate.of_same rfl rfl, ?_, ?_, Or.inl hthread⟩
      · intro hne
        obtain ⟨cell, rest, rfl⟩ := List.exists_cons_of_ne_nil hne
        exact htail
      · rintro rfl
        exact ⟨msg, htail, Function.update_self ..⟩
  | ends hthread hhead =>
      have hnil := ht.queued.nil_of_head hhead
      exact ⟨cells, ht.queued.of_same rfl rfl, ht.tail, ht.freed, Or.inr ⟨hnil, Or.inl rfl⟩⟩

/-- No step mends a torn queue. -/
theorem Torn.move (ht : Torn logger cells) (h : logger.move mv = .ok logger') :
    ∃ cells', Torn logger' cells' := by
  have hpast := ht.thread
  cases mv with
  | async_logger_enqueue msg msg_text => exact absurd h ht.enqueue_ne_ok
  | async_writer_thread =>
      obtain ⟨⟨next, out⟩, hstep, rfl⟩ := map_eq_ok.mp h
      exact ht.writer hstep
  | wakeup =>
      obtain ⟨hthread, _⟩ := wakeup_cases h
      simp [hthread] at hpast
  | destroy_async_logger =>
      obtain ⟨_, rfl⟩ := stop_cases h
      have hawake : logger.thread ≠ .asleep := by
        intro hthread
        simp [hthread] at hpast
      refine ⟨cells, ?_⟩
      rw [signal, if_neg hawake]
      exact ⟨ht.queued.of_same rfl rfl, ht.tail, ht.freed, ht.stopped⟩
  | pthread_join =>
      obtain ⟨hthread, rfl⟩ := join_cases h
      have hdrain : logger.thread ≠ .draining := by
        rw [hthread]
        exact nofun
      obtain ⟨hnil, _⟩ := ht.stopped.resolve_left hdrain
      exact ⟨cells, ht.queued.of_same rfl rfl, ht.tail, ht.freed, Or.inr ⟨hnil, Or.inr rfl⟩⟩

/-- A drain that begins with a message in the queue tears it. -/
theorem Tidy.torn (ht : Tidy logger cells) (hfull : ¬StopsEmpty logger mv)
    (h : logger.move mv = .ok logger') : ∃ cells', Torn logger' cells' := by
  cases mv with
  | async_logger_enqueue msg msg_text => exact absurd trivial hfull
  | wakeup => exact absurd trivial hfull
  | destroy_async_logger => exact absurd trivial hfull
  | pthread_join => exact absurd trivial hfull
  | async_writer_thread =>
      simp only [StopsEmpty, Classical.not_imp] at hfull
      obtain ⟨hthread, hrun, hhead⟩ := hfull
      have hne : cells ≠ [] := by
        rintro rfl
        exact hhead ht.queued.chain
      obtain ⟨⟨next, out⟩, hstep, rfl⟩ := map_eq_ok.mp h
      cases writerStep_of_ok hstep with
      | stops =>
          exact ⟨cells, ht.queued.of_same rfl rfl, fun _ => ht.tail, fun hnil => absurd hnil hne,
            Or.inl rfl⟩
      | sleeps _ hrun' => simp [hrun] at hrun'
      | takes _ hrun' => simp [hrun] at hrun'
      | writes hthread' => simp [hthread] at hthread'
      | drains hthread' => simp [hthread] at hthread'
      | ends hthread' => simp [hthread] at hthread'

/-- Once the mutex is free, the pointers of a torn queue do not agree. -/
theorem Torn.not_represented (ht : Torn logger cells) (hfree : MutexFree logger) :
    ¬Represented logger := by
  intro hrep
  obtain ⟨rfl, _⟩ := ht.stopped.resolve_left hfree
  obtain ⟨tail, heq, _⟩ := ht.freed rfl
  have hnone := hrep.null_iff.mp ht.queued.chain
  rw [heq] at hnone
  cases hnone

end Bad

section Runs
variable {env : Environment} {g : Globals} {level : Int} {filename : Text} {moves : List QueueMove}

/-- The logger of the level when `create_async_logger` has returned. -/
def newLogger (env : Environment) (g : Globals) (level : Int) (filename : Text) : AsyncLogger :=
  (create_async_logger env g level filename).async_loggers level

theorem tidy_newLogger (h : Session.Creatable env g level filename) :
    Tidy (newLogger env g level filename) [] := by
  rw [newLogger, Session.create_async_logger_eq h, setLogger_async_loggers]
  exact ⟨⟨rfl, List.nodup_nil, h.room⟩, rfl, nofun, nofun⟩

/-- In every state of every run in which the mutex is free: the pointers agree and an enqueue appends
to the chain, if and only if no drain has begun with a message in the queue. -/
theorem queue_represented_iff (hcreate : Session.Creatable env g level filename)
    (hrun : takeSteps move (fun _ _ => True) (newLogger env g level filename) moves = some logger)
    (hfree : MutexFree logger) :
    Represented logger ∧ Appends logger ↔
      takeSteps move StopsEmpty (newLogger env g level filename) moves = some logger := by
  have hcases :
      takeSteps move StopsEmpty (newLogger env g level filename) moves = some logger ∧
          (∃ cells, Tidy logger cells) ∨
        takeSteps move StopsEmpty (newLogger env g level filename) moves ≠ some logger ∧
          ∃ cells, Torn logger cells := by
    apply takeSteps_cases (I := fun logger => ∃ cells, Tidy logger cells) hrun ⟨[], tidy_newLogger hcreate⟩
    · rintro t u mv ⟨_, ht⟩ hempty h
      exact ht.move hempty h
    · rintro t u mv ⟨_, ht⟩ hfull h
      exact ht.torn hfull h
    · rintro t u mv ⟨_, ht⟩ h
      exact ht.move h
  rcases hcases with ⟨hsteps, cells, ht⟩ | ⟨hsteps, cells, ht⟩
  · simp only [hsteps, iff_true]
    exact ⟨ht.tail.represented ht.queued.chain, ht.queued.appends ht.tail⟩
  · simp only [hsteps, iff_false, not_and]
    intro hrep
    exact absurd hrep (ht.not_represented hfree)

/-- What a thread outside sees of the queue: where the writer stands, the two pointers, and why the
next enqueue does not happen. -/
def observe (logger : AsyncLogger) : Writer × Option Nat × Option Nat × Option Halt :=
  (logger.thread, logger.queue_head, logger.queue_tail,
    match logger.enqueue 1 (text "next") with
    | .error halt => some halt
    | .ok _ => none)

/-- The INFO logger, with a file of its own. -/
def infoLogger : AsyncLogger :=
  newLogger bothFiles (Session.beforeLevels bothFiles) LOG_INFO (text "info.log")

/-- The message is written before `destroy_async_logger`. -/
def writtenInTime : List QueueMove :=
  [.async_logger_enqueue 0 (text "message"), .async_writer_thread, .async_writer_thread,
    .destroy_async_logger, .async_writer_thread, .async_writer_thread]

theorem queue_represented_iff_writtenInTime :
    ∃ logger, takeSteps move (fun _ _ => True) infoLogger writtenInTime = some logger ∧
      logger.thread = .ended ∧ Represented logger ∧ Appends logger := by
  have hcreate : Session.Creatable bothFiles (Session.beforeLevels bothFiles) LOG_INFO (text "info.log") :=
    Session.creatable_with_vars (by decide)
  have hseen : (takeSteps move StopsEmpty infoLogger writtenInTime).map observe =
      some (.ended, none, none, none) := by rfl
  obtain ⟨logger, hsteps, hobserve⟩ := Option.map_eq_some_iff.mp hseen
  have hrun : takeSteps move (fun _ _ => True) infoLogger writtenInTime = some logger :=
    takeSteps_mono (fun _ _ _ => trivial) hsteps
  have hthread : logger.thread = .ended := congrArg (·.1) hobserve
  have hfree : MutexFree logger := by
    rw [MutexFree, hthread]
    exact nofun
  exact ⟨logger, hrun, hthread, (queue_represented_iff hcreate hrun hfree).mpr hsteps⟩

/-- The message is still in the queue when the writer finds `running` reset. -/
def drainedLate : List QueueMove :=
  [.async_logger_enqueue 0 (text "message"), .destroy_async_logger, .async_writer_thread,
    .async_writer_thread, .async_writer_thread]

/-- The drain leaves `queue_tail` behind, and the next enqueue follows it. -/
theorem tail_dangles_drainedLate :
    ∃ logger, takeSteps move (fun _ _ => True) infoLogger drainedLate = some logger ∧
      MutexFree logger ∧ logger.queue_head = none ∧ logger.queue_tail = some 0 ∧
      logger.enqueue 1 (text "next") = .error .dangling ∧ ¬Represented logger ∧ ¬Appends logger := by
  have hseen : (takeSteps move (fun _ _ => True) infoLogger drainedLate).map observe =
      some (.ended, none, some 0, some .dangling) := by rfl
  obtain ⟨logger, hrun, hobserve⟩ := Option.map_eq_some_iff.mp hseen
  have hthread : logger.thread = .ended := congrArg (·.1) hobserve
  have hhead : logger.queue_head = none := congrArg (·.2.1) hobserve
  have htail : logger.queue_tail = some 0 := congrArg (·.2.2.1) hobserve
  have hdangling : logger.enqueue 1 (text "next") = .error .dangling := by
    have hhalt := congrArg (·.2.2.2) hobserve
    simp only [observe] at hhalt
    split at hhalt
    · rename_i halt heq
      rw [heq, Option.some.inj hhalt]
    · cases hhalt
  refine ⟨logger, hrun, ?_, hhead, htail, hdangling, ?_, fun happends => happends.live _ _ hdangling⟩
  · rw [MutexFree, hthread]
    exact nofun
  · intro hrep
    have hnone := hrep.null_iff.mp hhead
    rw [htail] at hnone
    cases hnone

end Runs

end AsyncLogger

namespace Session
variable {env : Environment} {g : Globals} {level : Int} {filename : Text}
  {producers : List (List Text)} {s t : Session} {m : Move}

/-- A step of a session moves the queue of its level, or leaves the logger as it is. -/
theorem step_move (h : step level s m = .ok t) :
    t.globals.async_loggers level = s.globals.async_loggers level ∨
      ∃ mv, (s.globals.async_loggers level).move mv = .ok (t.globals.async_loggers level) := by
  cases m with
  | async_logger_enqueue producer msg =>
      simp only [step] at h
      split at h
      · rename_i msg_text rest _
        obtain ⟨logger, henq, rfl⟩ := map_eq_ok.mp h
        rw [setLogger_async_loggers]
        exact Or.inr ⟨.async_logger_enqueue msg msg_text, henq⟩
      · cases h
  | async_writer_thread symbols =>
      simp only [step] at h
      obtain ⟨g', hmove, rfl⟩ := map_eq_ok.mp h
      obtain ⟨logger, out, ws, hstep, rfl⟩ := moveWriter_frame hmove
      exact Or.inr ⟨.async_writer_thread, map_eq_ok.mpr ⟨_, hstep, (setLogger_async_loggers ..).symm⟩⟩
  | wakeup =>
      simp only [step] at h
      obtain ⟨logger, hwake, rfl⟩ := map_eq_ok.mp h
      rw [setLogger_async_loggers]
      exact Or.inr ⟨.wakeup, hwake⟩
  | destroy_async_logger =>
      simp only [step] at h
      split at h
      · split at h
        · obtain rfl := Except.ok.inj h
          exact Or.inl rfl
        · obtain ⟨logger, hstop, rfl⟩ := map_eq_ok.mp h
          rw [setLogger_async_loggers]
          exact Or.inr ⟨.destroy_async_logger, hstop⟩
      · cases h
  | pthread_join =>
      simp only [step] at h
      split at h
      · obtain ⟨logger, hjoin, rfl⟩ := map_eq_ok.mp h
        rw [setLogger_async_loggers]
        exact Or.inr ⟨.pthread_join, hjoin⟩
      · cases h

/-- In every session the logger of the level is one that moves of its queue lead to. -/
theorem Reachable.moves (h : Reachable level (created env g level filename producers) s) :
    ∃ moves, takeSteps AsyncLogger.move (fun _ _ => True) (AsyncLogger.newLogger env g level filename) moves =
      some (s.globals.async_loggers level) := by
  apply exists_takeSteps
  refine Runs.invariant (I := fun s => Runs AsyncLogger.move (fun _ _ => True) (AsyncLogger.newLogger env g level filename)
    (s.globals.async_loggers level)) h Relation.ReflTransGen.refl ?_
  intro t u m hreach _ hstep
  rcases step_move hstep with hsame | ⟨mv, hmove⟩
  · rwa [hsame]
  · exact hreach.tail ⟨mv, trivial, hmove⟩

end Session

end OtusCProg.Logger
