import OtusCProg.Library.Runs
import OtusCProg.Logger.Setup

/-!
# Threads that log while one thread shuts the library down

Each client makes calls of `logger_log`, one after another. The look at
`initialized`, the test of `file` and the critical section of
`async_logger_enqueue` are steps of their own, so that the steps of the other
clients, of `logger_shutdown` and of the writers may come in between.
-/

namespace OtusCProg.Logger
open Library AsyncLogger

/-- Where a client stands: outside of `logger_log`, before the test of `file`, before
`async_logger_enqueue`, or before the write to the common file. -/
inductive Position where
  | outside
  | routing (call : Call)
  | enqueuing (call : Call)
  | writing (call : Call)

/-- A thread with the calls it has not begun. -/
structure Client where
  position : Position
  calls : List Call

/-- The test of `logger_log` for an asynchronous logger with an open file. -/
def has_async_logger (g : Globals) (call : Call) : Bool :=
  0 ≤ call.level && call.level < 8 && (g.async_loggers call.level).file.isSome

/-- The call passes the tests of `logger_log` that lead to `async_logger_enqueue`. -/
def goes_async (g : Globals) (call : Call) : Prop :=
  g.logging_enabled = true ∧ call.level ≤ g.current_level ∧ has_async_logger g call = true

instance (g : Globals) (call : Call) : Decidable (goes_async g call) :=
  inferInstanceAs (Decidable (_ ∧ _ ∧ _))

/-- `write_single_log_message` sends the texts of the level to the file it is given. -/
def ReachesFile (g : Globals) (level : Int) : Prop :=
  ¬(level = LOG_INFO ∧ g.common_file = some .stderr)

instance (g : Globals) (level : Int) : Decidable (ReachesFile g level) :=
  inferInstanceAs (Decidable ¬(_ ∧ _))

namespace Client

/-- The next step of a client inside `logger_log`; `msg` is the address of a new node. -/
def move (env : Environment) (msg : Nat) (symbols : Option (List Text)) (g : Globals)
    (client : Client) : Except Halt (Globals × Client) :=
  match client.position with
  | .outside =>
      match client.calls with
      | [] => .error .blocked
      | call :: rest => .ok (if g.initialized then g else do_init env g, ⟨.routing call, rest⟩)
  | .routing call =>
      if ¬g.logging_enabled ∨ call.level > g.current_level then
        .ok (g, { client with position := .outside })
      else if has_async_logger g call then .ok (g, { client with position := .enqueuing call })
      else .ok (g, { client with position := .writing call })
  | .enqueuing call =>
      ((g.async_loggers call.level).enqueue msg (format_log_message call)).map fun logger =>
        (g.setLogger call.level logger, { client with position := .outside })
  | .writing call =>
      .ok (write_single_log_message g symbols g.common_file call.level (format_log_message call),
        { client with position := .outside })

/-- The call that stands before the test of `file`. -/
def testing (client : Client) : Option Call :=
  match client.position with
  | .routing call => some call
  | _ => none

/-- The call that stands between the test of `file` and `async_logger_enqueue`. -/
def handing (client : Client) : Option Call :=
  match client.position with
  | .enqueuing call => some call
  | _ => none

end Client

/-- The clients, what the thread of `logger_shutdown` has left to do, the texts handed to
`async_logger_enqueue`, and the writes of each writer. -/
structure Threads where
  globals : Globals
  clients : List Client
  main : List Action
  handed : Int → List Text
  flushed : Int → List Write

/-- Which thread moves, with the answers of `malloc` and `backtrace_symbols`. -/
inductive Turn where
  | client (i msg : Nat) (symbols : Option (List Text))
  | main
  | writer (level : Int) (symbols : Option (List Text))
  | wakeup (level : Int)

/-- A writer moves. -/
def Turn.OfWriter : Turn → Prop
  | .writer _ _ => True
  | _ => False

namespace Threads

/-- The texts handed over after a step of the client. -/
def hand (handed : Int → List Text) (client : Client) : Int → List Text :=
  match client.handing with
  | none => handed
  | some call =>
      Function.update handed call.level (handed call.level ++ [format_log_message call])

def step (env : Environment) (s : Threads) : Turn → Except Halt Threads
  | .client i msg symbols =>
      match s.clients[i]? with
      | none => .error .blocked
      | some client =>
          (client.move env msg symbols s.globals).map fun (g, next) =>
            { s with
              globals := g
              clients := s.clients.set i next
              handed := hand s.handed client }
  | .main =>
      match s.main with
      | [] => .error .blocked
      | action :: rest =>
          (perform env 0 none s.globals action).map fun (g, next) =>
            { s with globals := g, main := next ++ rest }
  | .writer level symbols =>
      (moveWriter s.globals level symbols).map fun g =>
        { s with
          globals := g
          flushed := Function.update s.flushed level
            (s.flushed level ++ g.written.drop s.globals.written.length) }
  | .wakeup level =>
      (s.globals.async_loggers level).wakeup.map fun logger =>
        { s with globals := s.globals.setLogger level logger }

/-- The step lets no call come to a queue whose writer has ended: the writer ends only while no call
of its level stands between its test and its enqueue, and no call is sent to a writer that has
ended or whose texts do not reach its file. -/
def Timely (s : Threads) : Turn → Prop
  | .client i _ _ =>
      ∀ call ∈ s.clients[i]?.bind Client.testing, goes_async s.globals call →
        (s.globals.async_loggers call.level).thread ≠ .ended ∧ ReachesFile s.globals call.level
  | .writer level _ =>
      (s.globals.async_loggers level).thread = .draining →
        (s.globals.async_loggers level).queue_head = none →
          ∀ client ∈ s.clients, ∀ call ∈ client.handing, call.level ≠ level
  | .main => True
  | .wakeup _ => True

instance (s : Threads) (turn : Turn) : Decidable (Timely s turn) :=
  match turn with
  | .client _ _ _ => inferInstanceAs (Decidable (∀ call ∈ Option.bind _ _, _ → _ ∧ _))
  | .writer _ _ => inferInstanceAs (Decidable (_ → _ → ∀ client ∈ _, ∀ call ∈ Client.handing client, _))
  | .main => isTrue trivial
  | .wakeup _ => isTrue trivial

/-- A state of a run from `s` whose steps all satisfy `allowed` in the state before them. -/
def Reachable (env : Environment) (allowed : Threads → Turn → Prop) : Threads → Threads → Prop :=
  Runs (step env) allowed

/-- The clients have their calls before them; the main thread calls `logger_init` some number of
times, perhaps never, and then `logger_shutdown`. -/
def launch (pre : Text) (inits : Nat) (calls : List (List Call)) : Threads :=
  { globals := start pre
    clients := calls.map (⟨.outside, ·⟩)
    main := List.replicate inits .logger_init ++ [.logger_shutdown]
    handed := fun _ => []
    flushed := fun _ => [] }

section Reaching
variable {env : Environment} {allowed : Threads → Turn → Prop} {s t u : Threads} {turn : Turn}

theorem Reachable.refl : Reachable env allowed s s := Relation.ReflTransGen.refl

theorem Reachable.trans (h : Reachable env allowed s t) (h' : Reachable env allowed t u) :
    Reachable env allowed s u :=
  Relation.ReflTransGen.trans h h'

theorem Reachable.head (hallowed : allowed s turn) (hstep : step env s turn = .ok t)
    (h : Reachable env allowed t u) : Reachable env allowed s u :=
  Runs.cons hallowed hstep h

end Reaching

end Threads

section Alone
variable {env : Environment} {msg : Nat} {symbols : Option (List Text)} {g g' : Globals} {call : Call}
  {rest : List Call}

theorem has_async_logger_iff :
    has_async_logger g call = true ↔
      0 ≤ call.level ∧ call.level < 8 ∧ (g.async_loggers call.level).file.isSome := by
  simp only [has_async_logger, Bool.and_eq_true, decide_eq_true_eq, and_assoc]

/-- A client that is not interrupted does what `logger_log` does in one step. -/
theorem logger_log_alone (h : logger_log env msg symbols g call = .ok g') :
    Relation.ReflTransGen (fun a b => Client.move env msg symbols a.1 a.2 = .ok b)
      (g, ⟨.outside, call :: rest⟩) (g', ⟨.outside, rest⟩) := by
  unfold logger_log at h
  refine Relation.ReflTransGen.head (b := (if g.initialized then g else do_init env g, ⟨.routing call, rest⟩))
    rfl ?_
  generalize (if g.initialized then g else do_init env g) = g at h ⊢
  dsimp only at h
  by_cases hskip : ¬g.logging_enabled ∨ call.level > g.current_level
  · have hsame : g = g' := by
      rcases hskip with hdisabled | hlevel
      · rw [if_pos hdisabled] at h
        exact Except.ok.inj h
      · rw [if_pos hlevel, ite_self] at h
        exact Except.ok.inj h
    subst hsame
    exact Relation.ReflTransGen.single (if_pos hskip)
  · have hnot := not_or.mp hskip
    rw [if_neg hnot.1, if_neg hnot.2] at h
    by_cases hasync : has_async_logger g call = true
    · rw [if_pos (has_async_logger_iff.mp hasync)] at h
      obtain ⟨logger, henq, rfl⟩ := map_eq_ok.mp h
      refine Relation.ReflTransGen.head (b := (g, ⟨.enqueuing call, rest⟩)) ?_
        (Relation.ReflTransGen.single ?_)
      · simp only [Client.move, if_neg hskip, if_pos hasync]
      · simp only [Client.move, henq]
        rfl
    · rw [if_neg fun htest => hasync (has_async_logger_iff.mpr htest)] at h
      obtain rfl := Except.ok.inj h
      refine Relation.ReflTransGen.head (b := (g, ⟨.writing call, rest⟩)) ?_
        (Relation.ReflTransGen.single rfl)
      simp only [Client.move, if_neg hskip, if_neg hasync]

end Alone

end OtusCProg.Logger
