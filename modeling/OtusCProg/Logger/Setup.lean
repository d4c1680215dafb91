import OtusCProg.Logger.Queue

/-!
# Where messages have to go, and what `do_init` sets up

`destination` is the documented routing: the file of the level, else the
common file, else `stdout` for INFO and `stderr` for the rest. `sink` is the
routing that `logger_log` and `write_single_log_message` arrive at together.
-/

namespace OtusCProg.Logger
open Library

/-- The library before its first use, with a prefix for the names of variables. -/
def start (pre : Text) : Globals := { Globals.initial with env_prefix := pre }

/-- A prefix that fits is the one that `logger_set_env_prefix` sets. -/
theorem set_env_initial {pre : Text} (h : pre.length < MAX_ENV_PREFIX) :
    logger_set_env_prefix .initial (some pre) = start pre := by
  have htake : pre.take (MAX_ENV_PREFIX - 1) = pre := List.take_of_length_le (Nat.le_pred_of_lt h)
  simp [ logger_set_env_prefix, start, Globals.initial, htake]

section Destination
variable (env : Environment) (pre : Text)

/-- The file configured for all levels. -/
def commonFile : Option Text := configured env (start pre) "LOG_FILE"

/-- The file configured for one level. -/
def levelFile (level : Int) : Option Text :=
  if level ∈ valid_levels then configured env (start pre) (suffix_of level) else none

/-- The level up to which messages are written. -/
def threshold : Int :=
  match configured env (start pre) "LOG_LEVEL" with
  | none => LOG_ERROR
  | some str => level_from_string str

def enabled : Bool := check_logging_enabled env (start pre)

/-- The message has to be written. -/
def accepted (call : Call) : Bool := enabled env pre && call.level ≤ threshold env pre

/-- Where the message of a level has to go. -/
def destination (level : Int) : Sink :=
  match levelFile env pre level, commonFile env pre with
  | some name, _ => .file name
  | none, some name => .file name
  | none, none => if level = LOG_INFO then .stdout else .stderr

/-- Every message that has to be written, with its destination. -/
def expected (calls : List Call) : List (Sink × Text) :=
  (calls.filter (accepted env pre)).map fun call =>
    (destination env pre call.level, format_log_message call)

/-- `common_file` after the initialisation. -/
def commonSink : Sink :=
  match commonFile env pre with
  | some name => .file name
  | none => .stderr

/-- The sink the code writes messages of a level to. -/
def sink (level : Int) : Sink :=
  if level = LOG_INFO ∧ commonSink env pre = .stderr then .stdout
  else
    match levelFile env pre level with
    | some name => .file name
    | none => commonSink env pre

/-- The configured files open and the threads start. -/
structure Usable : Prop where
  common_opens : ∀ name, commonFile env pre = some name → env.fopen name = .ok ()
  level_opens : ∀ level name, levelFile env pre level = some name → env.fopen name = .ok ()
  threads_start : ∀ level ∈ valid_levels, env.pthread_create level = true

variable {env pre}

theorem commonSink_eq_stderr : commonSink env pre = .stderr ↔ commonFile env pre = none := by
  unfold commonSink
  cases commonFile env pre with
  | none => exact ⟨fun _ => rfl, fun _ => rfl⟩
  | some name => exact ⟨nofun, nofun⟩

/-- The code misses the destination exactly for INFO with a file of its own and no common file. -/
theorem sink_eq_destination {level : Int}
    (h : ¬(level = LOG_INFO ∧ commonFile env pre = none ∧ levelFile env pre level ≠ none)) :
    sink env pre level = destination env pre level := by
  unfold sink destination
  simp only [commonSink_eq_stderr]
  cases hlevel : levelFile env pre level with
  | none =>
      cases hcommon : commonFile env pre with
      | none => simp [commonSink, hcommon]
      | some name => simp [commonSink, hcommon]
  | some name =>
      rw [if_neg]
      rintro ⟨hinfo, hcommon⟩
      exact h ⟨hinfo, hcommon, hlevel ▸ Option.some_ne_none _⟩

theorem destination_ne_stdout (hfile : levelFile env pre LOG_INFO ≠ none) (level : Int) :
    destination env pre level ≠ .stdout := by
  unfold destination
  cases hlevel : levelFile env pre level with
  | some name => exact nofun
  | none =>
      cases commonFile env pre with
      | some name => exact nofun
      | none =>
          have hne : level ≠ LOG_INFO := by
            rintro rfl
            exact hfile hlevel
          simp only [if_neg hne]
          exact nofun

end Destination

section Init
variable {env : Environment} {pre : Text}

theorem configured_congr {g g' : Globals} (h : g.env_prefix = g'.env_prefix) (suffix : String) :
    configured env g suffix = configured env g' suffix := by
  unfold configured get_env_with_prefix make_env_name
  rw [h]

/-- What `create_async_logger` leaves in the element of its level. -/
def opened (level : Int) (name : Text) : AsyncLogger :=
  { AsyncLogger.zero with
    file := some (.file name), thread := .ready, running := true, level := level }

/-- The logger of a level after the initialisation. -/
def initialLogger (env : Environment) (pre : Text) (level : Int) : AsyncLogger :=
  match levelFile env pre level with
  | some name => opened level name
  | none => .zero

/-- One turn of the loop sets the element of its level and nothing else. -/
theorem init_level_eq (husable : Usable env pre) {g : Globals} (hpre : g.env_prefix = pre)
    {level : Int} (hlevel : level ∈ valid_levels) (hzero : g.async_loggers level = .zero) :
    init_level env g level = g.setLogger level (initialLogger env pre level) := by
  have hrange : ¬(level < 0 ∨ 8 ≤ level) := by
    revert hlevel
    simp only [valid_levels, LOG_ERROR, LOG_WARNING, LOG_INFO, LOG_DEBUG, List.mem_cons,
      List.not_mem_nil, or_false]
    omega
  have hconf : configured env g (suffix_of level) = levelFile env pre level := by
    rw [levelFile, if_pos hlevel]
    exact configured_congr hpre _
  unfold init_level initialLogger
  rw [hconf]
  cases hfile : levelFile env pre level with
  | none =>
      simp only [Globals.setLogger, ← hzero, Function.update_eq_self]
  | some name =>
      simp only [create_async_logger, if_neg hrange, husable.level_opens level name hfile,
        husable.threads_start level hlevel, if_true, fresh_logger, hzero]
      rfl

/-- The loop sets every level it goes over. -/
theorem init_levels_eq (husable : Usable env pre) (levels : List Int) {g : Globals}
    (hpre : g.env_prefix = pre) (hlevels : ∀ level ∈ levels, level ∈ valid_levels)
    (hnodup : levels.Nodup) (hzero : ∀ level ∈ levels, g.async_loggers level = .zero) :
    levels.foldl (init_level env) g =
      { g with async_loggers := fun level =>
          if level ∈ levels then initialLogger env pre level else g.async_loggers level } := by
  induction levels generalizing g with
  | nil => simp
  | cons level rest ih =>
      obtain ⟨hnot, hnodup⟩ := List.nodup_cons.mp hnodup
      rw [List.foldl_cons, init_level_eq husable hpre (hlevels level List.mem_cons_self)
        (hzero level List.mem_cons_self)]
      rw [ih (g := g.setLogger level _) hpre (fun l hl => hlevels l (List.mem_cons_of_mem _ hl)) hnodup]
      · simp only [Globals.setLogger, Globals.mk.injEq, true_and, and_true]
        funext l
        by_cases hl : l = level
        · subst hl
          simp [hnot]
        · simp [hl]
      · intro l hl
        have hne : l ≠ level := by
          rintro rfl
          exact hnot hl
        simp only [Globals.setLogger, Function.update_of_ne hne]
        exact hzero l (List.mem_cons_of_mem _ hl)

theorem initialLogger_of_not_valid {level : Int} (h : level ∉ valid_levels) :
    initialLogger env pre level = .zero := by
  rw [initialLogger, levelFile, if_neg h]

/-- The library after `do_init` with logging enabled. -/
theorem do_init_enabled (husable : Usable env pre) (henabled : enabled env pre = true) :
    do_init env (start pre) =
      { start pre with
        logging_enabled := true
        current_level := threshold env pre
        common_file := some (commonSink env pre)
        async_loggers := initialLogger env pre
        initialized := true } := by
  have hcommon : init_common env { start pre with logging_enabled := true } =
      { start pre with logging_enabled := true, common_file := some (commonSink env pre) } := by
    have hconf : configured env { start pre with logging_enabled := true } "LOG_FILE" =
        commonFile env pre := configured_congr rfl _
    unfold init_common commonSink
    rw [hconf]
    cases hfile : commonFile env pre with
    | none => rfl
    | some name => simp only [husable.common_opens name hfile]
  have hthreshold : ∀ g : Globals, g.env_prefix = pre → g.current_level = LOG_ERROR →
      init_threshold env g = { g with current_level := threshold env pre } := by
    intro g hpre hlevel
    have hconf : configured env g "LOG_LEVEL" = configured env (start pre) "LOG_LEVEL" :=
      configured_congr hpre _
    unfold init_threshold threshold
    rw [hconf]
    cases configured env (start pre) "LOG_LEVEL" with
    | none => simp only [← hlevel]
    | some str => rfl
  have hinit : ¬(start pre).initialized = true := Bool.false_ne_true
  have hcheck : check_logging_enabled env (start pre) = true := henabled
  rw [do_init, if_neg hinit, if_pos hcheck, hcommon, hthreshold _ rfl rfl]
  have hloop := init_levels_eq husable valid_levels
    (g := { start pre with
      logging_enabled := true
      common_file := some (commonSink env pre)
      current_level := threshold env pre })
    rfl (fun _ h => h) (by decide) (fun _ _ => rfl)
  refine (congrArg (fun g : Globals => { g with initialized := true }) hloop).trans ?_
  simp only [Globals.mk.injEq, true_and, and_true]
  funext level
  split
  · rfl
  · rename_i hlevel
    exact (initialLogger_of_not_valid hlevel).symm

/-- Without logging `do_init` sets up nothing. -/
theorem do_init_disabled (henabled : enabled env pre = false) :
    do_init env (start pre) = { start pre with initialized := true } := by
  have hinit : ¬(start pre).initialized = true := Bool.false_ne_true
  have hcheck : check_logging_enabled env (start pre) = false := henabled
  rw [do_init, if_neg hinit, hcheck, if_neg Bool.false_ne_true]
  rfl

end Init

end OtusCProg.Logger
