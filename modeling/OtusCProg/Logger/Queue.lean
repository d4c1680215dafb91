import OtusCProg.Logger.Model
import OtusCProg.Library.Outcome

/-!
# One asynchronous logger as a queue of texts

`Holds logger pending` says that the pointers, the nodes and the writer thread
together stand for the texts `pending`, oldest first. Every operation of the
logger is an operation on that list.
-/

namespace OtusCProg.Logger
open Library

namespace AsyncLogger

/-- The nodes reachable from `queue_head`, and a bound on the allocated addresses. -/
structure Queued (logger : AsyncLogger) (cells : List (Nat × Text)) : Prop where
  chain : Chain logger.nodes logger.queue_head cells
  nodup : (cells.map Prod.fst).Nodup
  bounded : ∃ bound, ∀ a, bound ≤ a → logger.nodes a = none

/-- `queue_tail` is the last node of the chain, or `NULL` for an empty one. -/
def TailOk (logger : AsyncLogger) (cells : List (Nat × Text)) : Prop :=
  logger.queue_tail = cells.getLast?.map Prod.fst

/-- What the position of the writer thread says about the texts that are left. -/
def PhaseOk (logger : AsyncLogger) (cells : List (Nat × Text)) (pending : List Text) : Prop :=
  match logger.thread with
  | .none => False
  | .ready => pending = cells.map Prod.snd ∧ TailOk logger cells
  | .asleep => pending = [] ∧ cells = [] ∧ logger.queue_tail = none ∧ logger.running = true
  | .writing msg =>
      ∃ x next, logger.nodes msg = some ⟨x, next⟩ ∧ msg ∉ cells.map Prod.fst ∧
        pending = x :: cells.map Prod.snd ∧ TailOk logger cells
  | .draining => logger.running = false ∧ pending = cells.map Prod.snd
  | .ended => logger.running = false ∧ pending = []

/-- The logger still has to write the texts `pending`. -/
def Holds (logger : AsyncLogger) (pending : List Text) : Prop :=
  ∃ cells, Queued logger cells ∧ PhaseOk logger cells pending

/-- The fields that only the client thread sets. -/
def SameSetup (logger logger' : AsyncLogger) : Prop :=
  logger'.file = logger.file ∧ logger'.running = logger.running ∧ logger'.level = logger.level

theorem SameSetup.trans {a b c : AsyncLogger} (hab : SameSetup a b) (hbc : SameSetup b c) :
    SameSetup a c :=
  ⟨hbc.1.trans hab.1, hbc.2.1.trans hab.2.1, hbc.2.2.trans hab.2.2⟩

variable {logger logger' : AsyncLogger} {cells : List (Nat × Text)} {pending : List Text}
  {msg : Nat} {msg_text : Text}

theorem Queued.update (h : Queued logger cells) (cell : Option (Cell Text))
    (hmsg : msg ∉ cells.map Prod.fst) :
    Queued { logger with nodes := Function.update logger.nodes msg cell } cells := by
  obtain ⟨bound, hbound⟩ := h.bounded
  refine ⟨h.chain.update_of_notMem hmsg, h.nodup, max bound (msg + 1), fun a ha => ?_⟩
  have hne : a ≠ msg := by omega
  show Function.update logger.nodes msg cell a = none
  rw [Function.update_of_ne hne]
  exact hbound a (by omega)

/-- The queue is in the nodes and the first pointer. -/
theorem Queued.of_same (h : Queued logger cells) (hnodes : logger'.nodes = logger.nodes)
    (hhead : logger'.queue_head = logger.queue_head) : Queued logger' cells := by
  refine ⟨?_, h.nodup, ?_⟩
  · rw [hnodes, hhead]
    exact h.chain
  · rw [hnodes]
    exact h.bounded

/-- No node is left when there is no first one. -/
theorem Queued.nil_of_head (h : Queued logger cells) (hhead : logger.queue_head = none) : cells = [] := by
  have hchain := h.chain
  rw [hhead] at hchain
  exact chain_none hchain

theorem signal_nodes (logger : AsyncLogger) : (signal logger).nodes = logger.nodes := by
  unfold signal
  split <;> rfl

theorem signal_queue_head (logger : AsyncLogger) :
    (signal logger).queue_head = logger.queue_head := by
  unfold signal
  split <;> rfl

theorem signal_queue_tail (logger : AsyncLogger) :
    (signal logger).queue_tail = logger.queue_tail := by
  unfold signal
  split <;> rfl

theorem signal_sameSetup (logger : AsyncLogger) : SameSetup logger (signal logger) := by
  unfold signal
  split <;> exact ⟨rfl, rfl, rfl⟩

/-- A signal wakes no writer that has ended, and ends none. -/
theorem signal_ended (h : (signal logger).thread = .ended) : logger.thread = .ended := by
  unfold signal at h
  split at h
  · cases h
  · exact h

theorem Queued.signal (h : Queued logger cells) : Queued (signal logger) cells :=
  h.of_same (signal_nodes logger) (signal_queue_head logger)

/-- A signal never changes the texts that are left. -/
theorem phaseOk_signal (hrun : logger.thread = .asleep → pending = cells.map Prod.snd ∧ TailOk logger cells)
    (h : logger.thread ≠ .asleep → PhaseOk logger cells pending) :
    PhaseOk (signal logger) cells pending := by
  unfold signal
  by_cases hthread : logger.thread = .asleep
  · rw [if_pos hthread]
    exact hrun hthread
  · rw [if_neg hthread]
    exact h hthread

theorem Holds.asleep (h : Holds logger pending) (hthread : logger.thread = .asleep) :
    logger.running = true ∧ pending = [] := by
  obtain ⟨cells, _, hphase⟩ := h
  simp only [PhaseOk, hthread] at hphase
  exact ⟨hphase.2.2.2, hphase.1⟩

/-- A writer sleeps only on an empty queue. -/
theorem Holds.asleep_queue_head (h : Holds logger pending) (hthread : logger.thread = .asleep) :
    logger.queue_head = none := by
  obtain ⟨cells, hq, hphase⟩ := h
  simp only [PhaseOk, hthread] at hphase
  obtain ⟨_, rfl, _⟩ := hphase
  exact hq.chain

theorem Holds.ended (h : Holds logger pending) (hthread : logger.thread = .ended) :
    logger.running = false ∧ pending = [] := by
  obtain ⟨cells, _, hphase⟩ := h
  simpa only [PhaseOk, hthread] using hphase

/-- A stopped writer with no node left has written everything. -/
theorem Holds.drained (h : Holds logger pending) (hthread : logger.thread = .draining)
    (hhead : logger.queue_head = none) : pending = [] := by
  obtain ⟨cells, hq, hphase⟩ := h
  simp only [PhaseOk, hthread] at hphase
  rw [hphase.2, hq.nil_of_head hhead, List.map_nil]

theorem Holds.thread_ne_none (h : Holds logger pending) : logger.thread ≠ .none := by
  intro hthread
  obtain ⟨cells, _, hphase⟩ := h
  simp only [PhaseOk, hthread] at hphase

theorem Holds.thread_ne_ended (h : Holds logger pending) (hrun : logger.running = true) :
    logger.thread ≠ .ended := by
  intro hthread
  have hstop := (h.ended hthread).1
  rw [hrun] at hstop
  cases hstop

theorem Holds.thread_ne_asleep (h : Holds logger pending) (hstop : logger.running = false) :
    logger.thread ≠ .asleep := by
  intro hthread
  have hrun := (h.asleep hthread).1
  rw [hstop] at hrun
  cases hrun

theorem Holds.bounded (h : Holds logger pending) : ∃ bound, ∀ a, bound ≤ a → logger.nodes a = none := by
  obtain ⟨cells, hq, _⟩ := h
  exact hq.bounded

section Enqueue

/-- The two ways `async_logger_enqueue` links a node. -/
theorem enqueue_cases (h : logger.enqueue msg msg_text = .ok logger') :
    logger.nodes msg = none ∧ logger.thread ≠ .draining ∧
      ((∃ tail last, logger.queue_tail = some tail ∧ logger.nodes tail = some last ∧
          logger' = signal { logger with
            nodes := linkAfter logger.nodes tail msg last.value msg_text
            queue_tail := some msg }) ∨
        (logger.queue_tail = none ∧
          logger' = signal { logger with
            nodes := Function.update logger.nodes msg (some ⟨msg_text, none⟩)
            queue_head := some msg
            queue_tail := some msg })) := by
  unfold enqueue at h
  split at h
  · cases h
  · rename_i hfree
    rw [not_or, Bool.not_eq_true, Option.isSome_eq_false_iff, Option.isNone_iff_eq_none] at hfree
    refine ⟨hfree.2, hfree.1, ?_⟩
    cases htail : logger.queue_tail with
    | none =>
        rw [htail] at h
        exact Or.inr ⟨rfl, (Except.ok.inj h).symm⟩
    | some tail =>
        simp only [htail] at h
        cases hlast : logger.nodes tail with
        | none => rw [hlast] at h; cases h
        | some last =>
            rw [hlast] at h
            exact Or.inl ⟨tail, last, rfl, hlast, (Except.ok.inj h).symm⟩

theorem enqueue_ended (h : logger.enqueue msg msg_text = .ok logger') (hended : logger'.thread = .ended) :
    logger.thread = .ended := by
  obtain ⟨_, _, ⟨_, _, _, _, rfl⟩ | ⟨_, rfl⟩⟩ := enqueue_cases h
  · have hthread := signal_ended hended
    exact hthread
  · have hthread := signal_ended hended
    exact hthread

/-- The node at `queue_tail` is the last of the chain. -/
theorem Queued.tail_cell (h : Queued logger cells) (htail : TailOk logger cells) {tail : Nat}
    (heq : logger.queue_tail = some tail) :
    ∃ front y, cells = front ++ [(tail, y)] ∧ logger.nodes tail = some ⟨y, none⟩ := by
  rw [TailOk, heq] at htail
  rcases List.eq_nil_or_concat cells with rfl | ⟨front, ⟨b, y⟩, hcells⟩
  · cases htail
  · rw [List.concat_eq_append] at hcells
    subst hcells
    simp only [List.getLast?_concat, Option.map_some, Option.some.injEq] at htail
    subst htail
    exact ⟨front, y, rfl, h.chain.last⟩

/-- A node linked behind the last one is the new last one. -/
theorem Queued.link {front : List (Nat × Text)} {tail : Nat} {y : Text}
    (h : Queued logger (front ++ [(tail, y)])) (hfree : logger.nodes msg = none) :
    Queued { logger with
      nodes := linkAfter logger.nodes tail msg y msg_text
      queue_tail := some msg } (front ++ [(tail, y)] ++ [(msg, msg_text)]) := by
  have hmsg : msg ∉ (front ++ [(tail, y)]).map Prod.fst := fun hmem => h.chain.allocated hmem hfree
  obtain ⟨bound, hbound⟩ := h.bounded
  refine ⟨?_, ?_, max bound (max (msg + 1) (tail + 1)), fun a ha => ?_⟩
  · rw [List.append_assoc]
    exact h.chain.linkAfter h.nodup hmsg
  · rw [List.map_append, List.nodup_append]
    refine ⟨h.nodup, List.nodup_singleton _, ?_⟩
    rintro a ha b hb rfl
    have hamsg : a = msg := List.mem_singleton.mp hb
    exact hmsg (hamsg ▸ ha)
  · show linkAfter logger.nodes tail msg y msg_text a = none
    have hmsgne : a ≠ msg := by omega
    have htailne : a ≠ tail := by omega
    rw [linkAfter, Function.update_of_ne htailne, Function.update_of_ne hmsgne]
    exact hbound a (by omega)

/-- The first node of an empty queue. -/
theorem Queued.first (h : Queued logger []) :
    Queued { logger with
      nodes := Function.update logger.nodes msg (some ⟨msg_text, none⟩)
      queue_head := some msg
      queue_tail := some msg } [(msg, msg_text)] := by
  have hupdate : Queued { logger with
      nodes := Function.update logger.nodes msg (some ⟨msg_text, none⟩) } [] :=
    h.update (some ⟨msg_text, none⟩) List.not_mem_nil
  exact ⟨chain_singleton, List.nodup_singleton _, hupdate.bounded⟩

theorem enqueue_queued (h : logger.enqueue msg msg_text = .ok logger') (hq : Queued logger cells)
    (htail : TailOk logger cells) :
    ∃ linked, logger' = signal linked ∧ Queued linked (cells ++ [(msg, msg_text)]) ∧
      TailOk linked (cells ++ [(msg, msg_text)]) ∧ linked.thread = logger.thread ∧
      SameSetup logger linked ∧
      ∀ a x next, a ∉ cells.map Prod.fst → logger.nodes a = some ⟨x, next⟩ →
        linked.nodes a = some ⟨x, next⟩ ∧ a ≠ msg := by
  obtain ⟨hfree, _, ⟨tail, last, heq, hlast, rfl⟩ | ⟨heq, rfl⟩⟩ := enqueue_cases h
  · obtain ⟨front, y, rfl, hnode⟩ := hq.tail_cell htail heq
    obtain rfl : last = ⟨y, none⟩ := Option.some.inj (hlast.symm.trans hnode)
    refine ⟨_, rfl, hq.link hfree, ?_, rfl, ⟨rfl, rfl, rfl⟩, ?_⟩
    · rw [TailOk, List.getLast?_concat]
      rfl
    · intro a x next ha hnode
      have hamsg : a ≠ msg := by
        rintro rfl
        rw [hfree] at hnode
        cases hnode
      have hatail : a ≠ tail := by
        rintro rfl
        exact ha (by simp)
      refine ⟨?_, hamsg⟩
      show linkAfter _ _ _ _ _ a = _
      rw [linkAfter, Function.update_of_ne hatail, Function.update_of_ne hamsg, hnode]
  · obtain rfl : cells = [] := by
      rw [TailOk, heq] at htail
      exact List.getLast?_eq_none_iff.mp (Option.map_eq_none_iff.mp htail.symm)
    refine ⟨_, rfl, hq.first, rfl, rfl, ⟨rfl, rfl, rfl⟩, ?_⟩
    intro a x next _ hnode
    have hamsg : a ≠ msg := by
      rintro rfl
      rw [hfree] at hnode
      cases hnode
    exact ⟨(Function.update_of_ne hamsg _ _).trans hnode, hamsg⟩

/-- A text enqueued before the writer has ended is the last of the texts that are left. -/
theorem enqueue_holds (h : logger.enqueue msg msg_text = .ok logger')
    (hended : logger.thread ≠ .ended) (hold : Holds logger pending) :
    Holds logger' (pending ++ [msg_text]) ∧ SameSetup logger logger' := by
  obtain ⟨cells, hq, hphase⟩ := hold
  have hmap : (cells ++ [(msg, msg_text)]).map Prod.snd = cells.map Prod.snd ++ [msg_text] := by
    rw [List.map_append]
    rfl
  cases hthread : logger.thread with
  | none => simp only [PhaseOk, hthread] at hphase
  | draining => exact absurd hthread (enqueue_cases h).2.1
  | ended => exact absurd hthread hended
  | ready =>
      simp only [PhaseOk, hthread] at hphase
      obtain ⟨linked, rfl, hlq, hltail, hlthread, hsame, _⟩ := enqueue_queued h hq hphase.2
      refine ⟨⟨_, hlq.signal, phaseOk_signal ?_ ?_⟩, ?_⟩
      · intro hasleep
        rw [hlthread, hthread] at hasleep
        cases hasleep
      · intro _
        simp only [PhaseOk, hlthread, hthread]
        exact ⟨by rw [hmap, hphase.1], hltail⟩
      · exact hsame.trans (signal_sameSetup linked)
  | asleep =>
      simp only [PhaseOk, hthread] at hphase
      obtain ⟨rfl, rfl, htail, _⟩ := hphase
      obtain ⟨linked, rfl, hlq, hltail, hlthread, hsame, _⟩ := enqueue_queued h hq htail
      refine ⟨⟨_, hlq.signal, phaseOk_signal ?_ ?_⟩, ?_⟩
      · intro _
        exact ⟨hmap.symm, hltail⟩
      · intro hne
        exact absurd (hlthread.trans hthread) hne
      · exact hsame.trans (signal_sameSetup linked)
  | writing hand =>
      simp only [PhaseOk, hthread] at hphase
      obtain ⟨x, next, hnode, hnot, hpending, htail⟩ := hphase
      obtain ⟨linked, rfl, hlq, hltail, hlthread, hsame, hframe⟩ := enqueue_queued h hq htail
      obtain ⟨hnode', hne⟩ := hframe hand x next hnot hnode
      refine ⟨⟨_, hlq.signal, phaseOk_signal ?_ ?_⟩, ?_⟩
      · intro hasleep
        rw [hlthread, hthread] at hasleep
        cases hasleep
      · intro _
        simp only [PhaseOk, hlthread, hthread]
        refine ⟨x, next, hnode', ?_, ?_, hltail⟩
        · rw [List.map_append, List.mem_append, not_or]
          exact ⟨hnot, by simpa using hne⟩
        · rw [hmap, hpending]
          rfl
      · exact hsame.trans (signal_sameSetup linked)

/-- With a free address the enqueue succeeds while the writer may still wait for messages. -/
theorem enqueue_enabled (msg_text : Text) (hold : Holds logger pending) (hrun : logger.running = true) :
    ∃ msg logger', logger.enqueue msg msg_text = .ok logger' := by
  obtain ⟨cells, hq, hphase⟩ := hold
  obtain ⟨bound, hbound⟩ := hq.bounded
  have hdrain : logger.thread ≠ .draining := by
    intro hthread
    simp only [PhaseOk, hthread, hrun] at hphase
    cases hphase.1
  have htail : TailOk logger cells := by
    cases hthread : logger.thread <;> simp only [PhaseOk, hthread, hrun] at hphase
    · exact hphase.2
    · rw [TailOk, hphase.2.1, hphase.2.2.1]
      rfl
    · exact hphase.choose_spec.choose_spec.2.2.2
    · cases hphase.1
    · cases hphase.1
  refine ⟨bound, ?_⟩
  have hguard : ¬(logger.thread = .draining ∨ (logger.nodes bound).isSome = true) := by
    rw [hbound bound le_rfl]
    rintro (h | h)
    · exact hdrain h
    · cases h
  cases heq : logger.queue_tail with
  | none =>
      simp only [enqueue, if_neg hguard, heq]
      exact ⟨_, rfl⟩
  | some tail =>
      obtain ⟨_, _, _, hnode⟩ := hq.tail_cell htail heq
      simp only [enqueue, if_neg hguard, heq, hnode]
      exact ⟨_, rfl⟩

end Enqueue

section WriterThread
variable {out : Option Text}

/-- The steps of `async_writer_thread`: it stops, sleeps or takes a node when it has the mutex, writes
the text of the node it took, and in the final drain writes a text or ends. -/
inductive WriterStep (logger : AsyncLogger) : AsyncLogger → Option Text → Prop where
  | stops (hthread : logger.thread = .ready) (hrun : logger.running = false) :
      WriterStep logger { logger with thread := .draining } none
  | sleeps (hthread : logger.thread = .ready) (hrun : logger.running = true)
      (hhead : logger.queue_head = none) : WriterStep logger { logger with thread := .asleep } none
  | takes {msg : Nat} {node : Cell Text} (hthread : logger.thread = .ready)
      (hrun : logger.running = true) (hhead : logger.queue_head = some msg)
      (hnode : logger.nodes msg = some node) :
      WriterStep logger { logger with
        thread := .writing msg
        queue_head := node.next
        queue_tail := if node.next = none then none else logger.queue_tail } none
  | writes {msg : Nat} {node : Cell Text} (hthread : logger.thread = .writing msg)
      (hnode : logger.nodes msg = some node) :
      WriterStep logger { logger with
        thread := .ready
        nodes := Function.update logger.nodes msg none } (some node.value)
  | drains {msg : Nat} {node : Cell Text} (hthread : logger.thread = .draining)
      (hhead : logger.queue_head = some msg) (hnode : logger.nodes msg = some node) :
      WriterStep logger { logger with
        queue_head := node.next
        nodes := Function.update logger.nodes msg none } (some node.value)
  | ends (hthread : logger.thread = .draining) (hhead : logger.queue_head = none) :
      WriterStep logger { logger with thread := .ended } none

/-- A step of `async_writer_thread` is one of these. -/
theorem writerStep_of_ok (h : logger.async_writer_thread = .ok (logger', out)) :
    WriterStep logger logger' out := by
  cases hthread : logger.thread with
  | none => simp [async_writer_thread, hthread] at h
  | asleep => simp [async_writer_thread, hthread] at h
  | ended => simp [async_writer_thread, hthread] at h
  | ready =>
      simp only [async_writer_thread, hthread] at h
      split at h
      · rename_i hrun
        split at h
        · rename_i hhead
          obtain ⟨rfl, rfl⟩ := Prod.mk.inj (Except.ok.inj h)
          exact .sleeps hthread hrun hhead
        · rename_i hhead
          split at h
          · cases h
          · rename_i hnode
            obtain ⟨rfl, rfl⟩ := Prod.mk.inj (Except.ok.inj h)
            exact .takes hthread hrun hhead hnode
      · rename_i hrun
        obtain ⟨rfl, rfl⟩ := Prod.mk.inj (Except.ok.inj h)
        exact .stops hthread (Bool.eq_false_iff.mpr hrun)
  | writing msg =>
      simp only [async_writer_thread, hthread] at h
      split at h
      · cases h
      · rename_i hnode
        obtain ⟨rfl, rfl⟩ := Prod.mk.inj (Except.ok.inj h)
        exact .writes hthread hnode
  | draining =>
      simp only [async_writer_thread, hthread] at h
      split at h
      · rename_i hhead
        obtain ⟨rfl, rfl⟩ := Prod.mk.inj (Except.ok.inj h)
        exact .ends hthread hhead
      · rename_i hhead
        split at h
        · cases h
        · rename_i hnode
          obtain ⟨rfl, rfl⟩ := Prod.mk.inj (Except.ok.inj h)
          have hstep := WriterStep.drains hthread hhead hnode
          rwa [hthread] at hstep

/-- The writer takes the first node of the chain out of the queue. -/
theorem Queued.pop {node : Cell Text} (h : Queued logger cells) (hhead : logger.queue_head = some msg)
    (hnode : logger.nodes msg = some node) :
    ∃ rest, cells = (msg, node.value) :: rest ∧ msg ∉ rest.map Prod.fst ∧
      Queued { logger with queue_head := node.next } rest := by
  have hchain := h.chain
  rw [hhead] at hchain
  obtain ⟨x, next, rest, rfl, hcell, hrest⟩ := chain_some hchain
  obtain rfl : node = ⟨x, next⟩ := Option.some.inj (hnode.symm.trans hcell)
  obtain ⟨hnot, hnodup⟩ := List.nodup_cons.mp h.nodup
  exact ⟨rest, rfl, hnot, hrest, hnodup, h.bounded⟩

/-- `queue_tail` stays the last node when the first one is taken out. -/
theorem tailOk_pop {node : Cell Text} {rest : List (Nat × Text)}
    (hrest : Chain logger.nodes node.next rest) (h : TailOk logger ((msg, node.value) :: rest)) :
    (if node.next = none then none else logger.queue_tail) = rest.getLast?.map Prod.fst := by
  cases rest with
  | nil =>
      have hnone : node.next = none := hrest
      rw [if_pos hnone]
      rfl
  | cons cell rest =>
      have hsome : node.next ≠ none := by rw [hrest.1]; exact Option.some_ne_none _
      rw [if_neg hsome, h]
      rfl

/-- How far the writer is from its end or its sleep, when nothing is enqueued. -/
def remaining (logger : AsyncLogger) (pending : List Text) : Nat :=
  2 * pending.length +
    match logger.thread with
    | .ready => 2
    | .writing _ => 1
    | .draining => 1
    | _ => 0

/-- What a step of the writer does: it hands out the oldest text or none, and comes closer to its
end or its sleep. -/
def Advances (logger : AsyncLogger) (pending : List Text) (logger' : AsyncLogger) (out : Option Text) :
    Prop :=
  ∃ left, pending = out.toList ++ left ∧ Holds logger' left ∧ SameSetup logger logger' ∧
    remaining logger' left < remaining logger pending

/-- Every step of the writer hands out the oldest text that is left, or none. -/
theorem async_writer_thread_holds (h : logger.async_writer_thread = .ok (logger', out))
    (hold : Holds logger pending) : Advances logger pending logger' out := by
  obtain ⟨cells, hq, hphase⟩ := hold
  cases writerStep_of_ok h with
  | stops hthread hrun =>
      simp only [PhaseOk, hthread] at hphase
      refine ⟨pending, rfl, ⟨cells, hq.of_same rfl rfl, hrun, hphase.1⟩,
        ⟨rfl, rfl, rfl⟩, ?_⟩
      simp only [remaining, hthread]
      omega
  | sleeps hthread hrun hhead =>
      simp only [PhaseOk, hthread] at hphase
      obtain rfl := hq.nil_of_head hhead
      refine ⟨[], hphase.1, ⟨[], hq.of_same rfl rfl, rfl, rfl, hphase.2, hrun⟩,
        ⟨rfl, rfl, rfl⟩, ?_⟩
      simp only [remaining, hthread, List.length_nil]
      omega
  | @takes msg node hthread hrun hhead hnode =>
      simp only [PhaseOk, hthread] at hphase
      obtain ⟨rest, rfl, hnot, hrest⟩ := hq.pop hhead hnode
      refine ⟨pending, rfl, ⟨rest, hrest.of_same rfl rfl, ?_⟩,
        ⟨rfl, rfl, rfl⟩, ?_⟩
      · exact ⟨node.value, node.next, hnode, hnot, hphase.1, tailOk_pop hrest.chain hphase.2⟩
      · simp only [remaining, hthread]
        omega
  | writes hthread hnode =>
      simp only [PhaseOk, hthread] at hphase
      obtain ⟨x, next, hhand, hnot, rfl, htail⟩ := hphase
      obtain rfl := Option.some.inj (hnode.symm.trans hhand)
      have hupdate := hq.update none hnot
      refine ⟨cells.map Prod.snd, rfl,
        ⟨cells, hupdate.of_same rfl rfl, rfl, htail⟩, ⟨rfl, rfl, rfl⟩, ?_⟩
      simp only [remaining, hthread, List.length_cons]
      omega
  | drains hthread hhead hnode =>
      simp only [PhaseOk, hthread] at hphase
      obtain ⟨rest, rfl, hnot, hrest⟩ := hq.pop hhead hnode
      have hupdate := hrest.update none hnot
      refine ⟨rest.map Prod.snd, hphase.2, ⟨rest, hupdate.of_same rfl rfl, ?_⟩,
        ⟨rfl, rfl, rfl⟩, ?_⟩
      · simpa only [PhaseOk, hthread, and_true] using hphase.1
      · rw [hphase.2]
        simp only [remaining, hthread, List.length_map, List.length_cons]
        omega
  | ends hthread hhead =>
      simp only [PhaseOk, hthread] at hphase
      obtain rfl := hq.nil_of_head hhead
      refine ⟨[], hphase.2, ⟨[], hq.of_same rfl rfl, hphase.1, rfl⟩, ⟨rfl, rfl, rfl⟩, ?_⟩
      simp only [remaining, hthread, List.length_nil]
      omega

/-- The writer thread is never stuck and follows no dangling pointer. -/
theorem async_writer_thread_enabled (hold : Holds logger pending) (hasleep : logger.thread ≠ .asleep)
    (hended : logger.thread ≠ .ended) : ∃ next, logger.async_writer_thread = .ok next := by
  obtain ⟨cells, hq, hphase⟩ := hold
  have hlive : ∀ a, logger.queue_head = some a → ∃ node, logger.nodes a = some node := by
    intro a hhead
    have hchain := hq.chain
    rw [hhead] at hchain
    obtain ⟨x, next, _, _, hcell, _⟩ := chain_some hchain
    exact ⟨_, hcell⟩
  unfold async_writer_thread
  cases hthread : logger.thread with
  | none => simp only [PhaseOk, hthread] at hphase
  | asleep => exact absurd hthread hasleep
  | ended => exact absurd hthread hended
  | writing msg =>
      simp only [PhaseOk, hthread] at hphase
      obtain ⟨x, next, hnode, _⟩ := hphase
      simp only [hnode]
      exact ⟨_, rfl⟩
  | ready =>
      cases hrun : logger.running with
      | false => exact ⟨_, rfl⟩
      | true =>
          cases hhead : logger.queue_head with
          | none => exact ⟨_, rfl⟩
          | some a =>
              obtain ⟨node, hnode⟩ := hlive a hhead
              simp only [hnode]
              exact ⟨_, rfl⟩
  | draining =>
      cases hhead : logger.queue_head with
      | none => exact ⟨_, rfl⟩
      | some a =>
          obtain ⟨node, hnode⟩ := hlive a hhead
          simp only [hnode]
          exact ⟨_, rfl⟩

/-- The writer ends only when it has drained the queue. -/
theorem async_writer_thread_ended (h : logger.async_writer_thread = .ok (logger', out))
    (hended : logger'.thread = .ended) : logger.thread = .draining ∧ logger.queue_head = none := by
  cases writerStep_of_ok h with
  | stops => cases hended
  | sleeps => cases hended
  | takes => cases hended
  | writes => cases hended
  | drains hthread =>
      have hdraining : logger.thread = .ended := hended
      rw [hthread] at hdraining
      cases hdraining
  | ends hthread hhead => exact ⟨hthread, hhead⟩

/-- Only a sleeping writer is woken. -/
theorem wakeup_cases (h : logger.wakeup = .ok logger') :
    logger.thread = .asleep ∧ logger' = { logger with thread := .ready } := by
  unfold wakeup at h
  split at h
  · rename_i hthread
    exact ⟨hthread, (Except.ok.inj h).symm⟩
  · cases h

theorem wakeup_thread (h : logger.wakeup = .ok logger') : logger.thread ≠ .none := by
  rw [(wakeup_cases h).1]
  exact nofun

/-- A wakeup leaves the texts alone. -/
theorem wakeup_holds (h : logger.wakeup = .ok logger') (hold : Holds logger pending) :
    Holds logger' pending ∧ SameSetup logger logger' := by
  obtain ⟨hthread, rfl⟩ := wakeup_cases h
  obtain ⟨cells, hq, hphase⟩ := hold
  simp only [PhaseOk, hthread] at hphase
  obtain ⟨rfl, rfl, htail, _⟩ := hphase
  exact ⟨⟨[], hq.of_same rfl rfl, rfl, htail⟩, rfl, rfl, rfl⟩

end WriterThread

section Shutdown

/-- A drain is never stopped. -/
theorem stop_cases (h : logger.stop = .ok logger') :
    logger.thread ≠ .draining ∧ logger' = signal { logger with running := false } := by
  unfold stop at h
  split at h
  · cases h
  · rename_i hdrain
    exact ⟨hdrain, (Except.ok.inj h).symm⟩

/-- Stopping leaves the texts alone; the writer is awake afterwards. -/
theorem stop_holds (h : logger.stop = .ok logger') (hrun : logger.running = true)
    (hold : Holds logger pending) :
    Holds logger' pending ∧ logger'.file = logger.file ∧ logger'.level = logger.level ∧
      logger'.running = false := by
  obtain ⟨hdrain, rfl⟩ := stop_cases h
  obtain ⟨hfile, hrun', hlevel⟩ := signal_sameSetup { logger with running := false }
  obtain ⟨cells, hq, hphase⟩ := hold
  have hq' : Queued { logger with running := false } cells := hq.of_same rfl rfl
  refine ⟨⟨cells, hq'.signal, phaseOk_signal ?_ ?_⟩, hfile, hlevel, hrun'⟩
  · intro hthread
    simp only [PhaseOk, show logger.thread = .asleep from hthread] at hphase
    obtain ⟨rfl, rfl, htail, _⟩ := hphase
    exact ⟨rfl, htail⟩
  · intro hthread
    cases hcase : logger.thread with
    | none => simp only [PhaseOk, hcase] at hphase
    | asleep => exact absurd hcase hthread
    | draining => exact absurd hcase hdrain
    | ended =>
        simp only [PhaseOk, hcase, hrun] at hphase
        cases hphase.1
    | ready =>
        simp only [PhaseOk, hcase] at hphase ⊢
        exact hphase
    | writing msg =>
        simp only [PhaseOk, hcase] at hphase ⊢
        exact hphase

theorem stop_nodes (h : logger.stop = .ok logger') : logger'.nodes = logger.nodes := by
  obtain ⟨_, rfl⟩ := stop_cases h
  exact signal_nodes _

/-- Only a writer that has ended is joined. -/
theorem join_cases (h : logger.join = .ok logger') :
    logger.thread = .ended ∧ logger' = { logger with file := none, thread := .none } := by
  unfold join at h
  split at h
  · rename_i hthread
    exact ⟨hthread, (Except.ok.inj h).symm⟩
  · cases h

theorem stop_enabled (hold : Holds logger pending) (hrun : logger.running = true) :
    ∃ logger', logger.stop = .ok logger' := by
  unfold stop
  split
  · rename_i hthread
    obtain ⟨cells, _, hphase⟩ := hold
    simp only [PhaseOk, hthread, hrun] at hphase
    cases hphase.1
  · exact ⟨_, rfl⟩

/-- After the join no text is left and the file is closed. -/
theorem join_holds (h : logger.join = .ok logger') (hold : Holds logger pending) :
    pending = [] ∧ logger'.file = none ∧ logger'.thread = .none := by
  obtain ⟨hthread, rfl⟩ := join_cases h
  exact ⟨(hold.ended hthread).2, rfl, rfl⟩

end Shutdown

end AsyncLogger

end OtusCProg.Logger
