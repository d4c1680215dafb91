import OtusCProg.Logger.Delivery

/-!
# The level that `logger_set_level` sets

Any sequence of calls of the four public functions, with the writer threads in
between. `do_init` reads `LOG_LEVEL` over the level that was set before it,
also when it runs again behind a `logger_shutdown`; so a level holds for sure
only from a call of the setter on an initialised library to the next shutdown.
-/

namespace OtusCProg.Logger
open Library AsyncLogger

/-- A call that a program may make, with a level that `logger_set_level` takes. -/
def Action.Public : Action → Prop
  | .logger_init => True
  | .logger_set_level level => level ∈ valid_levels
  | .logger_log _ => True
  | .logger_shutdown => True
  | _ => False

def Action.SetsLevel : Action → Prop
  | .logger_set_level _ => True
  | _ => False

/-- Whether the library is initialised behind the calls. -/
def initialized_after (calls : List Action) : Bool :=
  calls.foldl (fun initialized call =>
    match call with
    | .logger_init => true
    | .logger_log _ => true
    | .logger_shutdown => false
    | _ => initialized) false

/-- `logger_log` has handed the text of the call to a file, or to the writer of its level. -/
def Emitted (g g' : Globals) (call : Call) : Prop :=
  (∃ w, g'.written = g.written ++ [w] ∧ w.level = call.level ∧ w.text = format_log_message call) ∨
    ∃ msg, (g.async_loggers call.level).nodes msg = none ∧
      (g'.async_loggers call.level).queue_tail = some msg ∧
      (g'.async_loggers call.level).nodes msg = some ⟨format_log_message call, none⟩

section Frame
variable {g g' g'' : Globals} {env : Environment} {level : Int}

/-- The data that decides on a message is the same. -/
structure SameGate (g g' : Globals) : Prop where
  env_prefix : g'.env_prefix = g.env_prefix
  current_level : g'.current_level = g.current_level
  initialized : g'.initialized = g.initialized
  logging_enabled : g'.logging_enabled = g.logging_enabled
  common_file : g'.common_file = g.common_file

theorem SameGate.refl (g : Globals) : SameGate g g := ⟨rfl, rfl, rfl, rfl, rfl⟩

theorem SameGate.trans (h : SameGate g g') (h' : SameGate g' g'') : SameGate g g'' where
  env_prefix := h'.env_prefix.trans h.env_prefix
  current_level := h'.current_level.trans h.current_level
  initialized := h'.initialized.trans h.initialized
  logging_enabled := h'.logging_enabled.trans h.logging_enabled
  common_file := h'.common_file.trans h.common_file

theorem sameGate_setLogger (g : Globals) (level : Int) (logger : AsyncLogger) :
    SameGate g (g.setLogger level logger) :=
  ⟨rfl, rfl, rfl, rfl, rfl⟩

theorem sameGate_write (g : Globals) (symbols : Option (List Text)) (file : Option Sink) (level : Int)
    (msg : Text) : SameGate g (write_single_log_message g symbols file level msg) := by
  obtain ⟨ws, hwrite⟩ := write_single_log_message_frame g symbols file level msg
  rw [hwrite]
  exact ⟨rfl, rfl, rfl, rfl, rfl⟩

/-- Nothing is written, and no node of a queue comes or goes. -/
structure Silent (g g' : Globals) : Prop where
  written : g'.written = g.written
  nodes : ∀ level, (g'.async_loggers level).nodes = (g.async_loggers level).nodes

theorem Silent.refl (g : Globals) : Silent g g := ⟨rfl, fun _ => rfl⟩

theorem Silent.trans (h : Silent g g') (h' : Silent g' g'') : Silent g g'' where
  written := h'.written.trans h.written
  nodes level := (h'.nodes level).trans (h.nodes level)

theorem silent_setLogger {logger : AsyncLogger}
    (h : logger.nodes = (g.async_loggers level).nodes) : Silent g (g.setLogger level logger) where
  written := rfl
  nodes l := by
    by_cases hl : l = level
    · subst hl
      rw [setLogger_async_loggers]
      exact h
    · rw [setLogger_of_ne g logger hl]

/-- One turn of the loop of `do_init`. -/
theorem init_level_frame (env : Environment) (g : Globals) (level : Int) :
    SameGate g (init_level env g level) ∧ Silent g (init_level env g level) := by
  have hrefl : SameGate g g ∧ Silent g g := ⟨.refl g, .refl g⟩
  unfold init_level
  split
  · unfold create_async_logger
    split
    · exact hrefl
    · split
      · have hsilent : Silent g (g.setLogger level { fresh_logger g level with file := none }) :=
          silent_setLogger rfl
        exact ⟨⟨rfl, rfl, rfl, rfl, rfl⟩, rfl, hsilent.nodes⟩
      · split
        · exact ⟨sameGate_setLogger .., silent_setLogger rfl⟩
        · exact ⟨sameGate_setLogger .., silent_setLogger rfl⟩
  · exact hrefl

theorem init_levels_frame (env : Environment) (g : Globals) (levels : List Int) :
    SameGate g (levels.foldl (init_level env) g) ∧ Silent g (levels.foldl (init_level env) g) := by
  induction levels generalizing g with
  | nil => exact ⟨.refl g, .refl g⟩
  | cons level levels ih =>
      obtain ⟨hgate, hsilent⟩ := init_level_frame env g level
      obtain ⟨hgate', hsilent'⟩ := ih (init_level env g level)
      exact ⟨hgate.trans hgate', hsilent.trans hsilent'⟩

theorem init_common_eq (env : Environment) (g : Globals) : ∃ file diagnostics,
    init_common env g = { g with common_file := some file, diagnostics := diagnostics } := by
  unfold init_common
  split
  · exact ⟨_, _, rfl⟩
  · split
    · exact ⟨_, _, rfl⟩
    · exact ⟨_, _, rfl⟩

/-- The level that `do_init` leaves where `level` was set before it. -/
def reread (env : Environment) (pre : Text) (level : Int) : Int :=
  (configured env (start pre) "LOG_LEVEL").elim level level_from_string

theorem init_threshold_eq {pre : Text} (hpre : g.env_prefix = pre) :
    init_threshold env g = { g with current_level := reread env pre g.current_level } := by
  have hconf : configured env g "LOG_LEVEL" = configured env (start pre) "LOG_LEVEL" :=
    configured_congr hpre _
  unfold init_threshold reread
  rw [hconf]
  cases configured env (start pre) "LOG_LEVEL" with
  | none => rfl
  | some str => rfl

/-- What `do_init` leaves where logging is enabled. -/
theorem do_init_spec {pre : Text} (henabled : enabled env pre) (hpre : g.env_prefix = pre)
    (hinit : g.initialized = false) :
    SameGate
        { g with
          current_level := reread env pre g.current_level
          initialized := true
          logging_enabled := true
          common_file := (do_init env g).common_file }
        (do_init env g) ∧
      (do_init env g).common_file ≠ none ∧ Silent g (do_init env g) := by
  have hcheck : check_logging_enabled env g = true := by
    rw [← henabled, enabled, check_logging_enabled, check_logging_enabled, get_env_with_prefix,
      make_env_name, hpre]
    rfl
  obtain ⟨file, diagnostics, hcommon⟩ := init_common_eq env { g with logging_enabled := true }
  let g' : Globals :=
    { g with logging_enabled := true, common_file := some file, diagnostics := diagnostics }
  have hthreshold : init_threshold env g' = { g' with current_level := reread env pre g.current_level } :=
    init_threshold_eq hpre
  rw [do_init, if_neg (by simp [hinit]), if_pos hcheck, hcommon, hthreshold]
  obtain ⟨hgate, hsilent⟩ := init_levels_frame env
    { g with
      logging_enabled := true
      common_file := some file
      diagnostics := diagnostics
      current_level := reread env pre g.current_level } valid_levels
  refine ⟨⟨hgate.env_prefix, hgate.current_level, rfl, hgate.logging_enabled, rfl⟩, ?_, hsilent.written,
    hsilent.nodes⟩
  rw [hgate.common_file]
  exact Option.some_ne_none file

end Frame

/-- `initialized` and `current_level`. -/
structure Gate where
  initialized : Bool
  level : Int

namespace Gate
variable (env : Environment) (pre : Text)

/-- `do_init` on a library that is not initialised. -/
def init (gate : Gate) : Gate :=
  if gate.initialized then gate else ⟨true, reread env pre gate.level⟩

/-- One public call. -/
def call (gate : Gate) : Action → Gate
  | .logger_init => gate.init env pre
  | .logger_set_level level => { gate with level := level }
  | .logger_log _ => gate.init env pre
  | .logger_shutdown => { gate with initialized := false }
  | _ => gate

/-- The calls from the first use of the library on. -/
def after (calls : List Action) : Gate := calls.foldl (Gate.call env pre) ⟨false, LOG_ERROR⟩

end Gate

/-- The data of the library agrees with the gate. -/
structure Gated (pre : Text) (g : Globals) (gate : Gate) : Prop where
  env_prefix : g.env_prefix = pre
  current_level : g.current_level = gate.level
  initialized : g.initialized = gate.initialized
  ready : g.initialized → g.logging_enabled ∧ g.common_file ≠ none

section Gated
variable {env : Environment} {pre : Text} {g g' : Globals} {gate : Gate}

theorem Gated.congr (h : Gated pre g gate) (hsame : SameGate g g') : Gated pre g' gate where
  env_prefix := hsame.env_prefix.trans h.env_prefix
  current_level := hsame.current_level.trans h.current_level
  initialized := hsame.initialized.trans h.initialized
  ready hinit := by
    rw [hsame.initialized] at hinit
    rw [hsame.logging_enabled, hsame.common_file]
    exact h.ready hinit

/-- The lazy initialisation of `logger_log`, and that of `logger_init`. -/
theorem Gated.init (henabled : enabled env pre) (h : Gated pre g gate) :
    Gated pre (if g.initialized then g else do_init env g) (gate.init env pre) ∧
      Silent g (if g.initialized then g else do_init env g) := by
  cases hinit : g.initialized with
  | true =>
      rw [if_pos rfl, Gate.init, if_pos (h.initialized.symm.trans hinit)]
      exact ⟨h, .refl g⟩
  | false =>
      have hgate : gate.initialized = false := h.initialized.symm.trans hinit
      obtain ⟨hsame, hcommon, hsilent⟩ := do_init_spec henabled h.env_prefix hinit
      rw [if_neg Bool.false_ne_true, Gate.init, hgate, if_neg Bool.false_ne_true]
      refine ⟨⟨?_, ?_, ?_, fun _ => ⟨?_, hcommon⟩⟩, hsilent⟩
      · rw [hsame.env_prefix, h.env_prefix]
      · rw [hsame.current_level, h.current_level]
      · rw [hsame.initialized]
      · rw [hsame.logging_enabled]

theorem init_initialized (gate : Gate) : (gate.init env pre).initialized = true := by
  unfold Gate.init
  split
  · assumption
  · rfl

/-- A text that a logger takes is the last one of its queue. -/
theorem enqueue_emitted {call : Call} {msg : Nat} {logger : AsyncLogger}
    (h : (g.async_loggers call.level).enqueue msg (format_log_message call) = .ok logger) :
    Emitted g (g.setLogger call.level logger) call := by
  obtain ⟨hfree, -, ⟨tail, last, -, hlast, rfl⟩ | ⟨-, rfl⟩⟩ := enqueue_cases h
  · have hne : msg ≠ tail := by
      rintro rfl
      rw [hfree] at hlast
      cases hlast
    refine .inr ⟨msg, hfree, ?_, ?_⟩
    · rw [setLogger_async_loggers, signal_queue_tail]
    · rw [setLogger_async_loggers, signal_nodes]
      exact (Function.update_of_ne hne ..).trans (Function.update_self ..)
  · refine .inr ⟨msg, hfree, ?_, ?_⟩
    · rw [setLogger_async_loggers, signal_queue_tail]
    · rw [setLogger_async_loggers, signal_nodes]
      exact Function.update_self ..

theorem Silent.not_emitted (h : Silent g g') (call : Call) : ¬ Emitted g g' call := by
  rintro (⟨w, hwritten, -⟩ | ⟨msg, hfree, -, hnode⟩)
  · rw [h.written] at hwritten
    exact absurd (List.self_eq_append_right.mp hwritten) (List.cons_ne_nil w [])
  · rw [h.nodes, hfree] at hnode
    cases hnode

theorem Silent.emitted_iff {g'' : Globals} (h : Silent g g') (call : Call) :
    Emitted g g'' call ↔ Emitted g' g'' call := by
  simp only [Emitted, h.written, h.nodes]

/-- One call of `logger_log` emits its message exactly where the level behind the initialisation
lets it pass. -/
theorem Gated.logger_log {msg : Nat} {symbols : Option (List Text)} {call : Call}
    (henabled : enabled env pre) (h : Gated pre g gate)
    (hlog : logger_log env msg symbols g call = .ok g') :
    (Emitted g g' call ↔ call.level ≤ (gate.init env pre).level) ∧
      Gated pre g' (gate.init env pre) := by
  obtain ⟨hgated, hsilent⟩ := h.init henabled
  unfold Logger.logger_log at hlog
  rw [hsilent.emitted_iff]
  set g₀ := if g.initialized then g else do_init env g
  obtain ⟨hlogging, hcommon⟩ := hgated.ready (hgated.initialized.trans (init_initialized gate))
  rw [if_neg (not_not.mpr hlogging), hgated.current_level] at hlog
  split at hlog
  · rename_i hlevel
    obtain rfl := Except.ok.inj hlog
    exact ⟨iff_of_false ((Silent.refl g₀).not_emitted call) (not_le.mpr hlevel), hgated⟩
  · rename_i hlevel
    have hle : call.level ≤ (gate.init env pre).level := not_lt.mp hlevel
    dsimp only at hlog
    split at hlog
    · cases henqueue : (g₀.async_loggers call.level).enqueue msg (format_log_message call) with
      | error halt =>
          rw [henqueue] at hlog
          cases hlog
      | ok logger =>
          rw [henqueue] at hlog
          obtain rfl := Except.ok.inj hlog
          exact ⟨iff_of_true (enqueue_emitted henqueue) hle, hgated.congr (sameGate_setLogger ..)⟩
    · obtain ⟨file, hfile⟩ := Option.ne_none_iff_exists'.mp hcommon
      obtain ⟨w, hwrite, hroute⟩ :=
        write_single_log_message_eq g₀ symbols file call.level (format_log_message call)
      obtain rfl := Except.ok.inj hlog
      refine ⟨iff_of_true (.inl ⟨w, ?_, ?_, ?_⟩) hle, hgated.congr (sameGate_write ..)⟩
      · rw [hfile, hwrite]
      · exact congrArg Prod.fst hroute
      · exact congrArg (fun r => r.2.2) hroute

end Gated

/-- A step of `logger_shutdown` on the logger of one level. -/
def Action.OfDestroy : Action → Prop
  | .destroy_async_logger _ => True
  | .pthread_join _ => True
  | _ => False

/-- The calls in front of those that are left have been made: either the next call is to come, or
`logger_shutdown` is under way. -/
inductive Follows (env : Environment) (pre : Text) (calls : List Action) (s : System) : Prop where
  | calling {done : List Action} (hcalls : calls = done ++ s.todo)
      (h : Gated pre s.globals (.after env pre done))
  | closing {done body left : List Action} (hcalls : calls = done ++ left)
      (htodo : s.todo = body ++ .close_common :: left) (hbody : ∀ a ∈ body, a.OfDestroy)
      (hshut : (Gate.after env pre done).initialized = false)
      (h : Gated pre s.globals ⟨true, (Gate.after env pre done).level⟩)

section Run
variable {env : Environment} {pre : Text} {calls : List Action} {s t : System}

theorem after_concat (done : List Action) (a : Action) :
    Gate.after env pre (done ++ [a]) = (Gate.after env pre done).call env pre a := by
  rw [Gate.after, List.foldl_concat]
  rfl

theorem follows_globals {g : Globals} (h : Follows env pre calls s) (hsame : SameGate s.globals g) :
    Follows env pre calls { s with globals := g } := by
  cases h with
  | calling hcalls hgated => exact .calling hcalls (hgated.congr hsame)
  | closing hcalls htodo hbody hshut hgated =>
      exact .closing hcalls htodo hbody hshut (hgated.congr hsame)

/-- The writers leave the gate alone. -/
theorem moveWriter_sameGate {g g' : Globals} {level : Int} {symbols : Option (List Text)}
    (h : moveWriter g level symbols = .ok g') : SameGate g g' := by
  obtain ⟨logger, out, ws, _, rfl⟩ := moveWriter_frame h
  exact ⟨rfl, rfl, rfl, rfl, rfl⟩

/-- A step of `logger_shutdown` on one level sets no more than its logger. -/
theorem perform_ofDestroy {g g' : Globals} {a : Action} {next : List Action} {msg : Nat}
    {symbols : Option (List Text)} (ha : a.OfDestroy)
    (h : perform env msg symbols g a = .ok (g', next)) :
    SameGate g g' ∧ ∀ b ∈ next, b.OfDestroy := by
  cases a with
  | destroy_async_logger level =>
      unfold perform at h
      dsimp only at h
      split at h
      · cases h
        exact ⟨.refl g, nofun⟩
      · cases hstop : (g.async_loggers level).stop with
        | error halt =>
            rw [hstop] at h
            cases h
        | ok logger =>
            rw [hstop] at h
            cases h
            exact ⟨sameGate_setLogger .., fun b hb => List.mem_singleton.mp hb ▸ trivial⟩
  | pthread_join level =>
      unfold perform at h
      dsimp only at h
      cases hjoin : (g.async_loggers level).join with
      | error halt =>
          rw [hjoin] at h
          cases h
      | ok logger =>
          rw [hjoin] at h
          cases h
          exact ⟨sameGate_setLogger .., nofun⟩
  | logger_init => cases ha
  | logger_set_level level => cases ha
  | logger_log call => cases ha
  | logger_shutdown => cases ha
  | close_common => cases ha

/-- A shutdown begins with `initialized` still set, or finds the library not initialised. -/
theorem follows_shutdown {done left : List Action} {g : Globals} {next : List Action} {msg : Nat}
    {symbols : Option (List Text)} (hcalls : calls = done ++ [.logger_shutdown] ++ left)
    (h : Gated pre s.globals (.after env pre done))
    (hperform : perform env msg symbols s.globals .logger_shutdown = .ok (g, next)) :
    Follows env pre calls ⟨g, next ++ left⟩ := by
  unfold perform at hperform
  dsimp only at hperform
  split at hperform
  · rename_i hinit
    cases hperform
    have htodo : valid_levels.map Action.destroy_async_logger ++ [.close_common] ++ left =
        valid_levels.map Action.destroy_async_logger ++ .close_common :: left :=
      List.append_assoc ..
    refine .closing hcalls htodo ?_ ?_ ?_
    · intro b hb
      obtain ⟨level, -, rfl⟩ := List.mem_map.mp hb
      trivial
    · rw [after_concat]
      rfl
    · rw [after_concat]
      exact ⟨h.env_prefix, h.current_level, hinit, h.ready⟩
  · rename_i hinit
    cases hperform
    refine .calling hcalls ?_
    rw [after_concat]
    exact ⟨h.env_prefix, h.current_level, Bool.not_eq_true _ ▸ hinit, h.ready⟩

/-- One public call. -/
theorem follows_call {done left : List Action} {a : Action} {g : Globals} {next : List Action}
    {msg : Nat} {symbols : Option (List Text)} (henabled : enabled env pre)
    (hcalls : calls = done ++ a :: left) (ha : a.Public)
    (h : Gated pre s.globals (.after env pre done))
    (hperform : perform env msg symbols s.globals a = .ok (g, next)) :
    Follows env pre calls ⟨g, next ++ left⟩ := by
  have hcalls' : calls = (done ++ [a]) ++ left := by
    rw [hcalls, List.append_assoc]
    rfl
  cases a with
  | logger_init =>
      cases hperform
      refine .calling hcalls' ?_
      rw [after_concat]
      have hinit := (h.init henabled).1
      have heq : Logger.logger_init env s.globals =
          if s.globals.initialized then s.globals else do_init env s.globals := rfl
      rw [heq]
      exact hinit
  | logger_set_level level =>
      cases hperform
      refine .calling hcalls' ?_
      rw [after_concat]
      have hvalid : level = LOG_ERROR ∨ level = LOG_WARNING ∨ level = LOG_INFO ∨ level = LOG_DEBUG := by
        simpa [valid_levels, Action.Public] using ha
      rw [Logger.logger_set_level, if_pos hvalid]
      exact ⟨h.env_prefix, rfl, h.initialized, h.ready⟩
  | logger_log call =>
      unfold perform at hperform
      dsimp only at hperform
      cases hlog : Logger.logger_log env msg symbols s.globals call with
      | error halt =>
          rw [hlog] at hperform
          cases hperform
      | ok g' =>
          rw [hlog] at hperform
          cases hperform
          refine .calling hcalls' ?_
          rw [after_concat]
          exact (h.logger_log henabled hlog).2
  | logger_shutdown => exact follows_shutdown hcalls' h hperform
  | destroy_async_logger level => cases ha
  | pthread_join level => cases ha
  | close_common => cases ha

/-- What a step of the client thread is. -/
theorem client_cases {msg : Nat} {symbols : Option (List Text)}
    (h : step env s (.client msg symbols) = .ok t) :
    ∃ g next a left, s.todo = a :: left ∧ perform env msg symbols s.globals a = .ok (g, next) ∧
      t = ⟨g, next ++ left⟩ := by
  unfold Logger.step at h
  dsimp only at h
  cases htodo : s.todo with
  | nil =>
      rw [htodo] at h
      cases h
  | cons a left =>
      rw [htodo] at h
      dsimp only at h
      cases hperform : perform env msg symbols s.globals a with
      | error halt =>
          rw [hperform] at h
          cases h
      | ok r =>
          rw [hperform] at h
          exact ⟨r.1, r.2, a, left, rfl, hperform, (Except.ok.inj h).symm⟩

theorem Follows.step {e : Event} (henabled : enabled env pre) (hpublic : ∀ a ∈ calls, a.Public)
    (h : Follows env pre calls s) (hstep : step env s e = .ok t) : Follows env pre calls t := by
  cases e with
  | writer level symbols =>
      cases hmove : moveWriter s.globals level symbols with
      | error halt => simp [Logger.step, hmove, Except.map] at hstep
      | ok g =>
          simp only [Logger.step, hmove, Except.map, Except.ok.injEq] at hstep
          rw [← hstep]
          exact follows_globals h (moveWriter_sameGate hmove)
  | wakeup level =>
      cases hwake : (s.globals.async_loggers level).wakeup with
      | error halt => simp [Logger.step, hwake, Except.map] at hstep
      | ok logger =>
          simp only [Logger.step, hwake, Except.map, Except.ok.injEq] at hstep
          rw [← hstep]
          exact follows_globals h (sameGate_setLogger ..)
  | client msg symbols =>
      obtain ⟨g, next, a, left, htodo, hperform, rfl⟩ := client_cases hstep
      cases h with
      | calling hcalls hgated =>
          rw [htodo] at hcalls
          exact follows_call henabled hcalls (hpublic a (by rw [hcalls]; simp)) hgated hperform
      | @closing done body left' hcalls htodo' hbody hshut hgated =>
          cases body with
          | nil =>
              obtain ⟨rfl, rfl⟩ := List.cons.inj (htodo.symm.trans htodo')
              cases hperform
              refine .calling hcalls ⟨hgated.env_prefix, hgated.current_level, hshut.symm, ?_⟩
              intro hinit
              cases hinit
          | cons b body =>
              obtain ⟨rfl, rfl⟩ := List.cons.inj (htodo.symm.trans htodo')
              obtain ⟨ha, hrest⟩ := List.forall_mem_cons.mp hbody
              obtain ⟨hsame, hnext⟩ := perform_ofDestroy ha hperform
              have htodo'' : next ++ (body ++ .close_common :: left') =
                  next ++ body ++ .close_common :: left' := (List.append_assoc ..).symm
              refine .closing hcalls htodo'' ?_ hshut (hgated.congr hsame)
              intro c hc
              rcases List.mem_append.mp hc with hc | hc
              · exact hnext c hc
              · exact hrest c hc

theorem reachable_follows (henabled : enabled env pre) (hpublic : ∀ a ∈ calls, a.Public)
    (h : Reachable env ⟨start pre, calls⟩ s) : Follows env pre calls s := by
  induction h with
  | refl =>
      have hgated : Gated pre (start pre) (.after env pre []) := ⟨rfl, rfl, rfl, nofun⟩
      exact .calling (List.nil_append calls).symm hgated
  | tail _ hstep ih => exact ih.step henabled hpublic hstep

/-- A log call of a run, by the gate of the calls in front of it. -/
theorem emitted_iff_gate {done rest : List Action} {call : Call} {msg : Nat}
    {symbols : Option (List Text)} (henabled : enabled env pre)
    (hpublic : ∀ a ∈ done ++ .logger_log call :: rest, a.Public)
    (h : Reachable env ⟨start pre, done ++ .logger_log call :: rest⟩ s)
    (htodo : s.todo = .logger_log call :: rest) (hstep : step env s (.client msg symbols) = .ok t) :
    Emitted s.globals t.globals call ↔
      call.level ≤ ((Gate.after env pre done).init env pre).level := by
  obtain ⟨g, next, a, left, htodo', hperform, rfl⟩ := client_cases hstep
  obtain ⟨rfl, rfl⟩ := List.cons.inj (htodo.symm.trans htodo')
  unfold perform at hperform
  dsimp only at hperform
  cases hlog : Logger.logger_log env msg symbols s.globals call with
  | error halt =>
      rw [hlog] at hperform
      cases hperform
  | ok g' =>
      rw [hlog] at hperform
      cases hperform
      cases reachable_follows henabled hpublic h with
      | calling hcalls hgated =>
          rw [htodo] at hcalls
          rw [List.append_cancel_right hcalls]
          exact (hgated.logger_log henabled hlog).1
      | @closing _ body _ _ htodo'' hbody =>
          -- `logger_shutdown` is not over, so that the next action is none of the calls
          cases body with
          | nil => cases htodo.symm.trans htodo''
          | cons b body =>
              obtain ⟨rfl, -⟩ := List.cons.inj (htodo.symm.trans htodo'')
              exact (hbody _ List.mem_cons_self).elim

end Run

section Since
variable (env : Environment) (pre : Text) {gate : Gate} {l : Int} {since : List Action}

theorem after_initialized (calls : List Action) :
    (Gate.after env pre calls).initialized = initialized_after calls := by
  induction calls using List.reverseRecOn with
  | nil => rfl
  | append_singleton calls a ih =>
      rw [after_concat, initialized_after, List.foldl_concat]
      cases a with
      | logger_init => exact init_initialized _
      | logger_log call => exact init_initialized _
      | logger_shutdown => rfl
      | logger_set_level level => exact ih
      | destroy_async_logger level => exact ih
      | pthread_join level => exact ih
      | close_common => exact ih

theorem reread_reread (level : Int) : reread env pre (reread env pre level) = reread env pre level := by
  unfold reread
  cases configured env (start pre) "LOG_LEVEL" with
  | none => rfl
  | some str => rfl

/-- Behind a `do_init`, calls that set no level keep the level that it has left. -/
theorem init_level_foldl (hsince : ∀ a ∈ since, ¬ a.SetsLevel)
    (h : (gate.init env pre).level = reread env pre l) :
    ((since.foldl (Gate.call env pre) gate).init env pre).level = reread env pre l := by
  induction since generalizing gate with
  | nil => exact h
  | cons a since ih =>
      obtain ⟨ha, hrest⟩ := List.forall_mem_cons.mp hsince
      apply ih hrest
      have hinit : ((gate.init env pre).init env pre).level = reread env pre l := by
        rw [Gate.init, if_pos (init_initialized gate)]
        exact h
      cases a with
      | logger_init => exact hinit
      | logger_log call => exact hinit
      | logger_set_level level => exact absurd trivial ha
      | logger_shutdown =>
          cases hgate : gate.initialized with
          | true =>
              rw [Gate.init, if_pos hgate] at h
              show reread env pre gate.level = reread env pre l
              rw [h, reread_reread]
          | false =>
              rw [Gate.init, if_neg (by simp [hgate])] at h
              exact h
      | destroy_async_logger level => exact h
      | pthread_join level => exact h
      | close_common => exact h

/-- Behind the setter on an initialised library, the level holds until the next shutdown. -/
theorem level_foldl (hsince : ∀ a ∈ since, ¬ a.SetsLevel) :
    (.logger_shutdown ∉ since → ((since.foldl (Gate.call env pre) ⟨true, l⟩).init env pre).level = l) ∧
      (.logger_shutdown ∈ since →
        ((since.foldl (Gate.call env pre) ⟨true, l⟩).init env pre).level = reread env pre l) := by
  induction since with
  | nil => exact ⟨fun _ => rfl, nofun⟩
  | cons a since ih =>
      obtain ⟨ha, hrest⟩ := List.forall_mem_cons.mp hsince
      simp only [List.mem_cons, not_or, List.foldl_cons]
      cases a with
      | logger_shutdown => exact ⟨fun h => absurd rfl h.1, fun _ => init_level_foldl env pre hrest rfl⟩
      | logger_set_level level => exact absurd trivial ha
      | logger_init => simpa [Gate.call, Gate.init] using ih hrest
      | logger_log call => simpa [Gate.call, Gate.init] using ih hrest
      | destroy_async_logger level => simpa [Gate.call] using ih hrest
      | pthread_join level => simpa [Gate.call] using ih hrest
      | close_common => simpa [Gate.call] using ih hrest

/-- `LOG_LEVEL` gives the level that `do_init` leaves, where it is set. -/
theorem reread_eq_iff (level : Int) :
    (level ≤ reread env pre l ↔ level ≤ l) ↔
      configured env (start pre) "LOG_LEVEL" = none ∨ (level ≤ threshold env pre ↔ level ≤ l) := by
  unfold reread threshold
  cases configured env (start pre) "LOG_LEVEL" with
  | none => simp
  | some str => simp

end Since

/-- The message of a call behind `logger_set_level(l)` passes the level `l` and no other exactly
where the library was initialised at that call and not shut down since, or where `LOG_LEVEL` is not
set, or where it makes no difference to the message. -/
theorem level_law_iff {env : Environment} {pre : Text} {before since rest : List Action} {l : Int}
    {call : Call} {s t : System} {msg : Nat} {symbols : Option (List Text)}
    (henabled : enabled env pre)
    (hpublic : ∀ a ∈ before ++ .logger_set_level l :: since ++ .logger_log call :: rest, a.Public)
    (hsince : ∀ a ∈ since, ¬ a.SetsLevel)
    (h : Reachable env
      ⟨start pre, before ++ .logger_set_level l :: since ++ .logger_log call :: rest⟩ s)
    (htodo : s.todo = .logger_log call :: rest) (hstep : step env s (.client msg symbols) = .ok t) :
    (Emitted s.globals t.globals call ↔ call.level ≤ l) ↔
      (initialized_after before ∧ .logger_shutdown ∉ since) ∨
        configured env (start pre) "LOG_LEVEL" = none ∨
          (call.level ≤ threshold env pre ↔ call.level ≤ l) := by
  rw [emitted_iff_gate henabled hpublic h htodo hstep, ← reread_eq_iff, ← after_initialized env pre,
    Gate.after, List.foldl_append, List.foldl_cons]
  change (call.level ≤ ((since.foldl (Gate.call env pre)
    ⟨(Gate.after env pre before).initialized, l⟩).init env pre).level ↔ _) ↔
      ((Gate.after env pre before).initialized = true ∧ _) ∨ _
  obtain ⟨hkept, hlost⟩ := level_foldl env pre (l := l) hsince
  cases hinit : (Gate.after env pre before).initialized with
  | false =>
      have hreread : ((since.foldl (Gate.call env pre) ⟨false, l⟩).init env pre).level =
          reread env pre l := init_level_foldl env pre hsince rfl
      simp [hreread]
  | true =>
      by_cases hshut : .logger_shutdown ∈ since
      · simp [hlost hshut, hshut]
      · simp [hkept hshut, hshut]

def debugCall : Call := { infoCall with level := LOG_DEBUG }

/-- Messages of level ERROR only. -/
def errorsOnly : Environment := with_vars [("LOGGING_ENABLED", "1"), ("LOG_LEVEL", "error")]

/-- A program that sets the level to DEBUG behind the calls, and logs a message of that level. -/
def setDebug (before : List Action) : List Action :=
  before ++ .logger_set_level LOG_DEBUG :: [] ++ [.logger_log debugCall]

theorem setDebug_public {before : List Action} (h : ∀ a ∈ before, a.Public) :
    ∀ a ∈ setDebug before, a.Public := by
  have hlast : ∀ a ∈ [Action.logger_set_level LOG_DEBUG, .logger_log debugCall], a.Public := by
    simp [Action.Public, valid_levels]
  intro a ha
  rw [setDebug, List.append_assoc] at ha
  rcases List.mem_append.mp ha with ha | ha
  · exact h a ha
  · exact hlast a ha

/-- A level set behind `logger_init` holds. -/
theorem level_law_iff_init :
    ∃ s t, step errorsOnly s (.client 0 none) = .ok t ∧ Emitted s.globals t.globals debugCall := by
  let g := logger_init errorsOnly (start [])
  let s : System := ⟨logger_set_level g LOG_DEBUG, [.logger_log debugCall]⟩
  have hinit : step errorsOnly ⟨start [], setDebug [.logger_init]⟩ (.client 0 none) =
      .ok ⟨g, setDebug []⟩ := rfl
  have hset : step errorsOnly ⟨g, setDebug []⟩ (.client 0 none) = .ok s := rfl
  have hreach : Reachable errorsOnly ⟨start [], setDebug [.logger_init]⟩ s :=
    (Reachable.refl.tail hinit).tail hset
  have hok : (step errorsOnly s (.client 0 none)).toBool := by decide +kernel
  cases hstep : step errorsOnly s (.client 0 none) with
  | error halt =>
      rw [hstep] at hok
      cases hok
  | ok t =>
      have hpublic : ∀ a ∈ setDebug [.logger_init], a.Public := setDebug_public (by simp [Action.Public])
      have hlaw := level_law_iff (by decide +kernel) hpublic nofun hreach rfl hstep
      exact ⟨s, t, hstep, (hlaw.mpr (.inl ⟨rfl, nofun⟩)).mpr le_rfl⟩

/-- A level set before the first use of the library is replaced by `LOG_LEVEL`. -/
theorem level_set_early_is_lost :
    ¬ ∀ (env : Environment) (pre : Text) (before since rest : List Action) (l : Int) (call : Call)
      (s t : System) (msg : Nat) (symbols : Option (List Text)), enabled env pre →
      (∀ a ∈ before ++ .logger_set_level l :: since ++ .logger_log call :: rest, a.Public) →
      (∀ a ∈ since, ¬ a.SetsLevel) →
      Reachable env ⟨start pre, before ++ .logger_set_level l :: since ++ .logger_log call :: rest⟩ s →
      s.todo = .logger_log call :: rest → step env s (.client msg symbols) = .ok t →
      (Emitted s.globals t.globals call ↔ call.level ≤ l) := by
  intro hall
  let s : System := ⟨logger_set_level (start []) LOG_DEBUG, [.logger_log debugCall]⟩
  have henabled : enabled errorsOnly [] := by decide +kernel
  have hpublic : ∀ a ∈ setDebug [], a.Public := setDebug_public nofun
  have hset : step errorsOnly ⟨start [], setDebug []⟩ (.client 0 none) = .ok s := rfl
  have hreach : Reachable errorsOnly ⟨start [], setDebug []⟩ s := Reachable.refl.tail hset
  have hok : (step errorsOnly s (.client 0 none)).toBool := by decide +kernel
  cases hstep : step errorsOnly s (.client 0 none) with
  | error halt =>
      rw [hstep] at hok
      cases hok
  | ok t =>
      have hiff := hall errorsOnly [] [] [] [] LOG_DEBUG debugCall s t 0 none henabled hpublic nofun
        hreach rfl hstep
      have hgate : Emitted s.globals t.globals debugCall ↔
          debugCall.level ≤
            ((Gate.after errorsOnly [] [.logger_set_level LOG_DEBUG]).init errorsOnly []).level :=
        emitted_iff_gate henabled hpublic hreach rfl hstep
      exact absurd (hgate.mp (hiff.mpr le_rfl)) (by decide +kernel)

end OtusCProg.Logger
