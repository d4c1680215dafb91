import OtusCProg.Logger.Setup
import Mathlib.Data.List.Perm.Basic

/-!
# Which sink every message reaches

A run is `logger_init`, the log calls, and `logger_shutdown`, with the writer
threads interleaved in any order. For each level, what was written followed by
what the logger of the level still holds is what the calls so far demanded.
-/

namespace OtusCProg.Logger
open Library AsyncLogger

section Balance
variable {env : Environment} {pre : Text}

/-- A write without what the library puts behind the text. -/
def Write.route (w : Write) : Int × Sink × Text := (w.level, w.sink, w.text)

/-- The writes the code makes for the calls. -/
def routed (env : Environment) (pre : Text) (calls : List Call) : List (Int × Sink × Text) :=
  (calls.filter (accepted env pre)).map fun call =>
    (call.level, sink env pre call.level, format_log_message call)

/-- At every level, the writes and the texts that are left make up the calls handled. -/
def Balanced (env : Environment) (pre : Text) (written : List Write) (pending : Int → List Text)
    (handled : List Call) : Prop :=
  ∀ level, (written.map Write.route).filter (·.1 = level) ++
      (pending level).map (fun t => (level, sink env pre level, t)) =
    (routed env pre handled).filter (·.1 = level)

variable {written : List Write} {pending : Int → List Text} {handled : List Call} {call : Call}

theorem routed_concat_of_accepted (h : accepted env pre call = true) :
    routed env pre (handled ++ [call]) = routed env pre handled ++
      [(call.level, sink env pre call.level, format_log_message call)] := by
  simp [routed, List.filter_append, h]

/-- A call that is not accepted asks for nothing. -/
theorem Balanced.skip (h : Balanced env pre written pending handled)
    (hcall : accepted env pre call = false) :
    Balanced env pre written pending (handled ++ [call]) := by
  have hsame : routed env pre (handled ++ [call]) = routed env pre handled := by
    simp [routed, List.filter_append, hcall]
  intro level
  rw [hsame]
  exact h level

/-- An accepted call whose text the logger takes. -/
theorem Balanced.enqueue (h : Balanced env pre written pending handled)
    (hcall : accepted env pre call = true) :
    Balanced env pre written
      (Function.update pending call.level (pending call.level ++ [format_log_message call]))
      (handled ++ [call]) := by
  intro level
  rw [routed_concat_of_accepted hcall, List.filter_append, ← h level]
  by_cases hlevel : level = call.level
  · subst hlevel
    simp
  · simp [Function.update_of_ne hlevel, Ne.symm hlevel]

/-- The oldest text of a logger is written. -/
theorem Balanced.write (h : Balanced env pre written pending handled) {level : Int} {t : Text}
    {left : List Text} (hpending : pending level = t :: left) {w : Write}
    (hw : w.route = (level, sink env pre level, t)) :
    Balanced env pre (written ++ [w]) (Function.update pending level left) handled := by
  intro l
  rw [← h l, List.map_append, List.filter_append, List.map_singleton, hw]
  by_cases hl : l = level
  · subst hl
    simp [hpending]
  · simp [Function.update_of_ne hl, Ne.symm hl]

/-- An accepted call whose text is written at once. -/
theorem Balanced.direct (h : Balanced env pre written pending handled)
    (hcall : accepted env pre call = true) (hpending : pending call.level = []) {w : Write}
    (hw : w.route = (call.level, sink env pre call.level, format_log_message call)) :
    Balanced env pre (written ++ [w]) pending (handled ++ [call]) := by
  have hlast : Function.update pending call.level
      (pending call.level ++ [format_log_message call]) call.level = format_log_message call :: [] := by
    rw [Function.update_self, hpending]
    rfl
  have hwrite := (h.enqueue hcall).write hlast hw
  rwa [Function.update_idem, ← hpending, Function.update_eq_self] at hwrite

/-- Lists with the same entries for every key, in the same order, are permutations. -/
theorem perm_of_filter_eq {α κ : Type*} [DecidableEq α] [DecidableEq κ] (key : α → κ)
    {xs ys : List α} (h : ∀ k, xs.filter (key · = k) = ys.filter (key · = k)) : xs.Perm ys := by
  rw [List.perm_iff_count]
  intro a
  have hx : (xs.filter (key · = key a)).count a = xs.count a := List.count_filter (by simp)
  have hy : (ys.filter (key · = key a)).count a = ys.count a := List.count_filter (by simp)
  rw [← hx, ← hy, h (key a)]

theorem Balanced.perm (h : Balanced env pre written pending handled)
    (hpending : ∀ level, pending level = []) :
    (written.map Write.route).Perm (routed env pre handled) := by
  apply perm_of_filter_eq Prod.fst
  intro level
  have hlevel := h level
  rwa [hpending level, List.map_nil, List.append_nil] at hlevel

end Balance

section Invariant

/-- What the client thread has done to the logger of a level. -/
inductive Stage where
  | live
  | stopped
  | closed
deriving DecidableEq

/-- Where the client thread stands. -/
inductive Phase where
  | calling (rest : List Call)
  | closing (closed rest : List Int)
  | joining (closed : List Int) (level : Int) (rest : List Int)
  | finished

/-- The file that was opened for a level. -/
def openedFile (env : Environment) (pre : Text) (level : Int) : Option Text :=
  if enabled env pre then levelFile env pre level else none

/-- What is left of `logger_shutdown` when these levels are not yet destroyed. -/
def shutdown_rest (rest : List Int) : List Action :=
  rest.map .destroy_async_logger ++ [.close_common]

namespace Phase

def todo : Phase → List Action
  | calling rest => rest.map .logger_log ++ [.logger_shutdown]
  | closing _ rest => shutdown_rest rest
  | joining _ level rest => .pthread_join level :: shutdown_rest rest
  | finished => []

def stage : Phase → Int → Stage
  | calling _, _ => .live
  | closing closed _, l => if l ∈ closed then .closed else .live
  | joining closed level _, l =>
      if l ∈ closed then .closed else if l = level then .stopped else .live
  | finished, _ => .closed

/-- The phase agrees with the calls handled so far; only opened loggers are joined. -/
def Fits (env : Environment) (pre : Text) (calls handled : List Call) : Phase → Prop
  | calling rest => handled ++ rest = calls
  | closing closed rest => handled = calls ∧ closed ++ rest = valid_levels
  | joining closed level rest =>
      handled = calls ∧ closed ++ level :: rest = valid_levels ∧ openedFile env pre level ≠ none
  | finished => handled = calls

end Phase

/-- The logger of a level fits the stage and holds the texts `pending`. -/
def LevelOk (name : Option Text) (level : Int) (stage : Stage) (logger : AsyncLogger)
    (pending : List Text) : Prop :=
  match name, stage with
  | none, _ => logger.file = none ∧ logger.thread = .none ∧ pending = []
  | some _, .closed => logger.file = none ∧ logger.thread = .none ∧ pending = []
  | some name, .stopped =>
      logger.file = some (.file name) ∧ logger.level = level ∧ logger.running = false ∧
        Holds logger pending
  | some name, .live =>
      logger.file = some (.file name) ∧ logger.level = level ∧ logger.running = true ∧
        Holds logger pending

/-- The library data between `logger_init` and the end of `logger_shutdown`. -/
structure SetupOk (env : Environment) (pre : Text) (g : Globals) : Prop where
  initialized : g.initialized = true
  logging_enabled : g.logging_enabled = enabled env pre
  current_level : enabled env pre = true → g.current_level = threshold env pre
  common_file : enabled env pre = true → g.common_file = some (commonSink env pre)

/-- The invariant of all runs, with the phase, the calls handled and the texts left. -/
structure Inv (env : Environment) (pre : Text) (calls : List Call) (s : System) (phase : Phase)
    (handled : List Call) (pending : Int → List Text) : Prop where
  fits : phase.Fits env pre calls handled
  todo : s.todo = phase.todo
  setup : phase ≠ .finished → SetupOk env pre s.globals
  levels : ∀ level, LevelOk (openedFile env pre level) level (phase.stage level)
    (s.globals.async_loggers level) (pending level)
  balanced : Balanced env pre s.globals.written pending handled

variable {env : Environment} {pre : Text} {calls handled : List Call} {s : System}
  {phase : Phase} {pending : Int → List Text} {level : Int} {logger : AsyncLogger}

theorem LevelOk.closed {name : Option Text} {texts : List Text}
    (h : LevelOk name level .closed logger texts) : texts = [] := by
  cases name <;> exact h.2.2

/-- A logger with a thread has a file, and holds its texts. -/
theorem LevelOk.of_thread {name : Option Text} {stage : Stage} {texts : List Text}
    (h : LevelOk name level stage logger texts) (hthread : logger.thread ≠ .none) :
    ∃ file, name = some file ∧ stage ≠ .closed ∧ logger.file = some (.file file) ∧
      logger.level = level ∧ Holds logger texts := by
  cases name with
  | none => exact absurd h.2.1 hthread
  | some file =>
      cases stage with
      | closed => exact absurd h.2.1 hthread
      | stopped => exact ⟨file, rfl, nofun, h.1, h.2.1, h.2.2.2⟩
      | live => exact ⟨file, rfl, nofun, h.1, h.2.1, h.2.2.2⟩

theorem LevelOk.holds {file : Text} {stage : Stage} {texts : List Text}
    (h : LevelOk (some file) level stage logger texts) (hstage : stage ≠ .closed) :
    Holds logger texts := by
  cases stage with
  | closed => exact absurd rfl hstage
  | stopped => exact h.2.2.2
  | live => exact h.2.2.2

/-- The logger may change in everything but the fields the client sets. -/
theorem LevelOk.sameSetup {name : Option Text} {stage : Stage} {texts left : List Text}
    {logger' : AsyncLogger} (h : LevelOk name level stage logger texts)
    (hthread : logger.thread ≠ .none) (hsame : SameSetup logger logger')
    (hold : Holds logger' left) : LevelOk name level stage logger' left := by
  obtain ⟨hfile, hrun, hlevel⟩ := hsame
  cases name with
  | none => exact absurd h.2.1 hthread
  | some file =>
      cases stage with
      | closed => exact absurd h.2.1 hthread
      | stopped => exact ⟨hfile.trans h.1, hlevel.trans h.2.1, hrun.trans h.2.2.1, hold⟩
      | live => exact ⟨hfile.trans h.1, hlevel.trans h.2.1, hrun.trans h.2.2.1, hold⟩

theorem setLogger_async_loggers (g : Globals) (level : Int) (logger : AsyncLogger) :
    (g.setLogger level logger).async_loggers level = logger := Function.update_self ..

theorem setLogger_of_ne (g : Globals) {level l : Int} (logger : AsyncLogger) (h : l ≠ level) :
    (g.setLogger level logger).async_loggers l = g.async_loggers l := Function.update_of_ne h ..

/-- Replacing the logger of one level leaves the others as they are. -/
theorem levels_setLogger {name : Int → Option Text} {stage stage' : Int → Stage} {g : Globals}
    {left : List Text}
    (h : ∀ l, LevelOk (name l) l (stage l) (g.async_loggers l) (pending l))
    (hlevel : LevelOk (name level) level (stage' level) logger left)
    (hstage : ∀ l, l ≠ level → stage' l = stage l) (l : Int) :
    LevelOk (name l) l (stage' l) ((g.setLogger level logger).async_loggers l)
      (Function.update pending level left l) := by
  by_cases hl : l = level
  · subst hl
    rw [setLogger_async_loggers, Function.update_self]
    exact hlevel
  · rw [setLogger_of_ne g logger hl, Function.update_of_ne hl, hstage l hl]
    exact h l

theorem SetupOk.setLogger {g : Globals} (h : SetupOk env pre g) :
    SetupOk env pre (g.setLogger level logger) :=
  ⟨h.initialized, h.logging_enabled, h.current_level, h.common_file⟩

/-- The sink `write_single_log_message` takes for a text of the level and this file. -/
def messageSink (g : Globals) (level : Int) (file : Sink) : Sink :=
  if level = LOG_INFO ∧ g.common_file = some .stderr then .stdout else file

theorem messageSink_eq_file {g : Globals} (file : Text) :
    messageSink g level (.file file) = .file file ↔ ¬(level = LOG_INFO ∧ g.common_file = some .stderr) := by
  unfold messageSink
  split
  · rename_i h
    exact ⟨nofun, fun hnot => absurd h hnot⟩
  · rename_i h
    exact ⟨fun _ => h, fun _ => rfl⟩

/-- What `write_single_log_message` adds, for the common file or the file of the level. -/
theorem write_single_log_message_eq (g : Globals) (symbols : Option (List Text)) (file : Sink)
    (level : Int) (msg : Text) :
    ∃ w, write_single_log_message g symbols (some file) level msg =
        { g with written := g.written ++ [w] } ∧
      w.route = (level, messageSink g level file, msg) := by
  unfold write_single_log_message messageSink
  by_cases h : level = LOG_INFO ∧ g.common_file = some .stderr
  · simp only [if_pos h]
    exact ⟨_, rfl, rfl⟩
  · simp only [if_neg h]
    exact ⟨_, rfl, rfl⟩

/-- `write_single_log_message` changes nothing but what is written. -/
theorem write_single_log_message_frame (g : Globals) (symbols : Option (List Text)) (file : Option Sink)
    (level : Int) (t : Text) :
    ∃ ws, write_single_log_message g symbols file level t = { g with written := g.written ++ ws } := by
  cases file with
  | none => exact ⟨[], by rw [List.append_nil]; rfl⟩
  | some file =>
      obtain ⟨w, hwrite, _⟩ := write_single_log_message_eq g symbols file level t
      exact ⟨[w], hwrite⟩

/-- A step of a writer changes the logger of its level and what is written, nothing else. -/
theorem moveWriter_frame {g g' : Globals} {level : Int} {symbols : Option (List Text)}
    (h : moveWriter g level symbols = .ok g') :
    ∃ logger out ws, (g.async_loggers level).async_writer_thread = .ok (logger, out) ∧
      g' = { g.setLogger level logger with written := g.written ++ ws } := by
  unfold moveWriter at h
  obtain ⟨⟨logger, out⟩, hstep, rfl⟩ := map_eq_ok.mp h
  cases out with
  | none =>
      refine ⟨logger, none, [], hstep, ?_⟩
      rw [List.append_nil]
      rfl
  | some msg =>
      obtain ⟨ws, hwrite⟩ := write_single_log_message_frame (g.setLogger level logger) symbols logger.file
        logger.level msg
      exact ⟨logger, some msg, ws, hstep, hwrite⟩

/-- The sink of `write_single_log_message` with the common file of the run. -/
theorem messageSink_eq {g : Globals} (hcommon : g.common_file = some (commonSink env pre)) {file : Sink}
    (hfile : file = match levelFile env pre level with
      | some name => .file name
      | none => commonSink env pre) :
    messageSink g level file = sink env pre level := by
  have hiff : g.common_file = some .stderr ↔ commonSink env pre = .stderr := by
    rw [hcommon, Option.some.injEq]
  unfold messageSink sink
  by_cases h : level = LOG_INFO ∧ commonSink env pre = .stderr
  · rw [if_pos h, if_pos ⟨h.1, hiff.mpr h.2⟩]
  · rw [if_neg h, if_neg fun hcommon => h ⟨hcommon.1, hiff.mp hcommon.2⟩]
    exact hfile

theorem Inv.setup_of_stage (inv : Inv env pre calls s phase handled pending)
    (h : phase.stage level ≠ .closed) : SetupOk env pre s.globals := by
  apply inv.setup
  rintro rfl
  exact h rfl

theorem openedFile_some {name : Text} (h : openedFile env pre level = some name) :
    enabled env pre = true ∧ levelFile env pre level = some name := by
  unfold openedFile at h
  split at h
  · rename_i henabled
    exact ⟨henabled, h⟩
  · cases h

section Threads
variable {symbols : Option (List Text)} {g : Globals}

theorem thread_ne_none {next : AsyncLogger × Option Text}
    (h : logger.async_writer_thread = .ok next) : logger.thread ≠ .none := by
  intro hthread
  rw [async_writer_thread, hthread] at h
  cases h

/-- A step of a writer thread changes its own logger and writes the oldest text or nothing. -/
theorem moveWriter_levelOk {name : Option Text} {stage : Stage} {texts : List Text} {g' : Globals}
    (h : moveWriter g level symbols = .ok g')
    (hlevel : LevelOk name level stage (g.async_loggers level) texts) :
    ∃ file logger' out left ws, name = some file ∧ stage ≠ .closed ∧
      (g.async_loggers level).async_writer_thread = .ok (logger', out) ∧
      g' = { g.setLogger level logger' with written := g.written ++ ws } ∧
      LevelOk name level stage logger' left ∧ texts = out.toList ++ left ∧
      ws.map Write.route = out.toList.map (fun t => (level, messageSink g level (.file file), t)) ∧
      remaining logger' left < remaining (g.async_loggers level) texts := by
  unfold moveWriter at h
  obtain ⟨⟨logger', out⟩, hstep, rfl⟩ := map_eq_ok.mp h
  have hthread := thread_ne_none hstep
  obtain ⟨file, hname, hstage, hfile, hown, hold⟩ := hlevel.of_thread hthread
  obtain ⟨left, hleft, hold', hsame, hless⟩ := async_writer_thread_holds hstep hold
  have hlevel' := hlevel.sameSetup hthread hsame hold'
  cases out with
  | none =>
      refine ⟨file, logger', none, left, [], hname, hstage, hstep, ?_, hlevel', hleft, rfl, hless⟩
      simp only [Globals.setLogger, List.append_nil]
  | some t =>
      obtain ⟨w, hwrite, hroute⟩ := write_single_log_message_eq
        (g.setLogger level logger') symbols (.file file) level t
      have hfile' : logger'.file = some (.file file) := hsame.1.trans hfile
      have hown' : logger'.level = level := hsame.2.2.trans hown
      refine ⟨file, logger', some t, left, [w], hname, hstage, hstep, ?_, hlevel', hleft, ?_, hless⟩
      · simp only [hfile', hown', hwrite]
        rfl
      · exact congrArg (fun route => [route]) hroute

/-- A writer that neither sleeps nor has ended can move. -/
theorem moveWriter_enabled {texts : List Text} (hold : Holds (g.async_loggers level) texts)
    (hasleep : (g.async_loggers level).thread ≠ .asleep)
    (hended : (g.async_loggers level).thread ≠ .ended) : ∃ g', moveWriter g level none = .ok g' := by
  obtain ⟨next, hnext⟩ := async_writer_thread_enabled hold hasleep hended
  unfold moveWriter
  rw [hnext]
  exact ⟨_, rfl⟩

/-- A step of a writer thread keeps the invariant and brings it closer to its end or its sleep. -/
theorem Inv.moveWriter (inv : Inv env pre calls s phase handled pending)
    (h : moveWriter s.globals level symbols = .ok g) :
    ∃ pending', Inv env pre calls { s with globals := g } phase handled pending' ∧
      remaining (g.async_loggers level) (pending' level) <
        remaining (s.globals.async_loggers level) (pending level) := by
  obtain ⟨name, logger', out, left, ws, hname, hstage, _, rfl, hlevel', hleft, hws, hless⟩ :=
    moveWriter_levelOk h (inv.levels level)
  obtain ⟨henabled, hlevelFile⟩ := openedFile_some hname
  have hsetup := inv.setup_of_stage hstage
  have hlevels := levels_setLogger inv.levels hlevel' (fun _ _ => rfl)
  have hsetup' : SetupOk env pre
      { s.globals.setLogger level logger' with written := s.globals.written ++ ws } :=
    ⟨hsetup.initialized, hsetup.logging_enabled, hsetup.current_level, hsetup.common_file⟩
  refine ⟨Function.update pending level left,
    ⟨inv.fits, inv.todo, fun _ => hsetup', hlevels, ?_⟩, ?_⟩
  · cases out with
    | none =>
        obtain rfl := List.map_eq_nil_iff.mp hws
        have hpending : pending level = left := hleft
        rw [← hpending, Function.update_eq_self]
        simpa only [List.append_nil] using inv.balanced
    | some t =>
        obtain ⟨w, rfl, hroute⟩ := List.map_eq_singleton_iff.mp hws
        rw [messageSink_eq (hsetup.common_file henabled) (by rw [hlevelFile])] at hroute
        exact inv.balanced.write hleft hroute
  · simp only [Globals.setLogger, Function.update_self]
    exact hless

/-- A wakeup keeps the invariant. -/
theorem Inv.wakeup (inv : Inv env pre calls s phase handled pending)
    (h : (s.globals.async_loggers level).wakeup = .ok logger) :
    Inv env pre calls { s with globals := s.globals.setLogger level logger } phase handled
      pending := by
  have hthread := wakeup_thread h
  have hlevel := inv.levels level
  obtain ⟨name, _, hstage, _, _, hold⟩ := hlevel.of_thread hthread
  obtain ⟨hold', hsame⟩ := wakeup_holds h hold
  have hlevels := levels_setLogger inv.levels (hlevel.sameSetup hthread hsame hold')
    (fun _ _ => rfl)
  rw [Function.update_eq_self] at hlevels
  exact ⟨inv.fits, inv.todo, fun _ => (inv.setup_of_stage hstage).setLogger, hlevels, inv.balanced⟩

end Threads

section Client
variable {msg : Nat} {symbols : Option (List Text)} {g : Globals} {call : Call}

theorem valid_of_levelFile {name : Text} (h : levelFile env pre level = some name) :
    level ∈ valid_levels := by
  by_contra hvalid
  rw [levelFile, if_neg hvalid] at h
  cases h

theorem valid_range (h : level ∈ valid_levels) : 0 ≤ level ∧ level < 8 := by
  revert h
  simp only [valid_levels, LOG_ERROR, LOG_WARNING, LOG_INFO, LOG_DEBUG, List.mem_cons,
    List.not_mem_nil, or_false]
  omega

/-- A log call is handled: skipped, taken by the logger of its level, or written at once. -/
theorem Inv.logger_log {rest : List Call}
    (inv : Inv env pre calls s (.calling (call :: rest)) handled pending)
    (h : logger_log env msg symbols s.globals call = .ok g) :
    ∃ pending', Inv env pre calls ⟨g, (Phase.calling rest).todo⟩ (.calling rest)
      (handled ++ [call]) pending' := by
  have hsetup := inv.setup nofun
  have hfits : (Phase.calling rest).Fits env pre calls (handled ++ [call]) := by
    have hfits : handled ++ call :: rest = calls := inv.fits
    simpa [Phase.Fits] using hfits
  unfold Logger.logger_log at h
  simp only [hsetup.initialized, if_true, hsetup.logging_enabled] at h
  by_cases hcall : accepted env pre call = true
  · obtain ⟨henabled, hle⟩ : enabled env pre = true ∧ call.level ≤ threshold env pre := by
      simpa [accepted] using hcall
    have hnot : ¬call.level > s.globals.current_level := by
      rw [hsetup.current_level henabled]
      omega
    rw [if_neg (by simp [henabled]), if_neg hnot] at h
    have hlevel := inv.levels call.level
    cases hname : openedFile env pre call.level with
    | none =>
        rw [hname] at hlevel
        obtain ⟨hfile, _, hpending⟩ := hlevel
        rw [if_neg (by simp [hfile]), hsetup.common_file henabled] at h
        obtain rfl := Except.ok.inj h
        obtain ⟨w, hwrite, hroute⟩ := write_single_log_message_eq s.globals symbols
          (commonSink env pre) call.level (format_log_message call)
        have hlevelFile : levelFile env pre call.level = none := by
          simpa [openedFile, henabled] using hname
        rw [messageSink_eq (hsetup.common_file henabled) (by rw [hlevelFile])] at hroute
        rw [hwrite]
        exact ⟨pending, hfits, rfl,
          fun _ => ⟨hsetup.initialized, hsetup.logging_enabled, hsetup.current_level,
            hsetup.common_file⟩,
          inv.levels, inv.balanced.direct hcall hpending hroute⟩
    | some name =>
        rw [hname] at hlevel
        obtain ⟨hfile, hown, hrun, hold⟩ := hlevel
        obtain ⟨hlow, hhigh⟩ := valid_range (valid_of_levelFile (openedFile_some hname).2)
        rw [if_pos ⟨hlow, hhigh, by rw [hfile]; rfl⟩] at h
        obtain ⟨logger', henq, rfl⟩ := map_eq_ok.mp h
        obtain ⟨hold', hsame⟩ := enqueue_holds henq (hold.thread_ne_ended hrun) hold
        refine ⟨_, hfits, rfl, fun _ => hsetup.setLogger, ?_, inv.balanced.enqueue hcall⟩
        refine levels_setLogger inv.levels ?_ (fun _ _ => rfl)
        rw [hname]
        exact ⟨hsame.1.trans hfile, hsame.2.2.trans hown, hsame.2.1.trans hrun, hold'⟩
  · rw [Bool.not_eq_true] at hcall
    have hsame : g = s.globals := by
      by_cases henabled : enabled env pre = true
      · have hgt : call.level > s.globals.current_level := by
          rw [hsetup.current_level henabled]
          have hgt : ¬call.level ≤ threshold env pre := by simpa [accepted, henabled] using hcall
          omega
        rw [if_neg (by simp [henabled]), if_pos hgt] at h
        exact (Except.ok.inj h).symm
      · rw [if_pos henabled] at h
        exact (Except.ok.inj h).symm
    subst hsame
    exact ⟨pending, hfits, rfl, fun _ => hsetup, inv.levels, inv.balanced.skip hcall⟩

theorem Inv.logger_shutdown (inv : Inv env pre calls s (.calling []) handled pending) :
    Inv env pre calls ⟨s.globals, shutdown_rest valid_levels⟩ (.closing [] valid_levels) handled
      pending := by
  have hfits : handled ++ [] = calls := inv.fits
  rw [List.append_nil] at hfits
  exact ⟨⟨hfits, rfl⟩, rfl, fun _ => inv.setup nofun, inv.levels, inv.balanced⟩

section Closing
variable {closed rest : List Int}

theorem notMem_closed (hfits : closed ++ level :: rest = valid_levels) : level ∉ closed := by
  have hnodup : valid_levels.Nodup := by decide
  rw [← hfits, List.nodup_append] at hnodup
  intro hmem
  exact hnodup.2.2 level hmem level List.mem_cons_self rfl

variable {name : Int → Option Text} {loggers : Int → AsyncLogger}

/-- The levels when one without a file is passed. -/
theorem levels_pass (hsplit : closed ++ level :: rest = valid_levels)
    (h : ∀ l, LevelOk (name l) l ((Phase.closing closed (level :: rest)).stage l) (loggers l) (pending l))
    (hfile : (loggers level).file = none) (l : Int) :
    LevelOk (name l) l ((Phase.closing (closed ++ [level]) rest).stage l) (loggers l) (pending l) := by
  have hl := h l
  by_cases hlevel : l = level
  · subst hlevel
    simp only [Phase.stage, List.mem_append, List.mem_singleton, or_true, if_true]
    simp only [Phase.stage, if_neg (notMem_closed hsplit)] at hl
    cases hname : name l with
    | none => rw [hname] at hl; exact hl
    | some file =>
        rw [hname] at hl
        rw [hl.1] at hfile
        cases hfile
  · simpa [Phase.stage, hlevel] using hl

/-- The levels when the logger of one is stopped. -/
theorem levels_stop {g : Globals} (hsplit : closed ++ level :: rest = valid_levels)
    (h : ∀ l, LevelOk (name l) l ((Phase.closing closed (level :: rest)).stage l) (g.async_loggers l)
      (pending l))
    (hfile : (g.async_loggers level).file ≠ none) (hstop : (g.async_loggers level).stop = .ok logger) :
    name level ≠ none ∧ ∀ l, LevelOk (name l) l ((Phase.joining closed level rest).stage l)
      ((g.setLogger level logger).async_loggers l) (pending l) := by
  have hnot := notMem_closed hsplit
  have hl := h level
  simp only [Phase.stage, if_neg hnot] at hl
  obtain ⟨file, hname⟩ : ∃ file, name level = some file := by
    rw [← Option.ne_none_iff_exists']
    intro hname
    rw [hname] at hl
    exact hfile hl.1
  refine ⟨by rw [hname]; exact Option.some_ne_none _, ?_⟩
  rw [hname] at hl
  obtain ⟨hold, hfile', hown, hrun⟩ := stop_holds hstop hl.2.2.1 hl.2.2.2
  rw [← Function.update_eq_self level pending]
  refine levels_setLogger h ?_ (fun l hne => by simp [Phase.stage, hne])
  simp only [Phase.stage, if_neg hnot, if_true, hname]
  exact ⟨hfile'.trans hl.1, hown.trans hl.2.1, hrun, hold⟩

/-- The levels when the writer of one is joined; nothing was left to write. -/
theorem levels_join {g : Globals}
    (h : ∀ l, LevelOk (name l) l ((Phase.joining closed level rest).stage l) (g.async_loggers l)
      (pending l))
    (hjoin : (g.async_loggers level).join = .ok logger) (l : Int) :
    LevelOk (name l) l ((Phase.closing (closed ++ [level]) rest).stage l)
      ((g.setLogger level logger).async_loggers l) (pending l) := by
  have hl := h level
  have hthread : (g.async_loggers level).thread ≠ .none := by
    rw [(join_cases hjoin).1]
    exact nofun
  obtain ⟨file, hname, _, _, _, hold⟩ := hl.of_thread hthread
  obtain ⟨hpending, hfile, hnone⟩ := join_holds hjoin hold
  rw [← Function.update_eq_self level pending]
  refine levels_setLogger h ?_ (fun l hne => by simp [Phase.stage, hne]) l
  rw [hname]
  simp only [Phase.stage, List.mem_append, List.mem_singleton, or_true, if_true]
  exact ⟨hfile, hnone, hpending⟩

/-- Every level is closed when all valid ones are. -/
theorem levels_closed (hname : ∀ l, name l ≠ none → l ∈ valid_levels)
    (h : ∀ l, LevelOk (name l) l ((Phase.closing valid_levels []).stage l) (loggers l) (pending l))
    (l : Int) : LevelOk (name l) l .closed (loggers l) (pending l) := by
  have hl := h l
  cases hfile : name l with
  | none => rw [hfile] at hl; exact hl
  | some file =>
      have hmem : l ∈ valid_levels := hname l (by rw [hfile]; exact Option.some_ne_none _)
      simpa only [Phase.stage, if_pos hmem, hfile] using hl

/-- Passing a level that has no file. -/
theorem Inv.pass (inv : Inv env pre calls s (.closing closed (level :: rest)) handled pending)
    (hfile : (s.globals.async_loggers level).file = none) :
    Inv env pre calls ⟨s.globals, shutdown_rest rest⟩ (.closing (closed ++ [level]) rest) handled
      pending := by
  obtain ⟨hhandled, hsplit⟩ : handled = calls ∧ closed ++ level :: rest = valid_levels := inv.fits
  exact ⟨⟨hhandled, by simpa using hsplit⟩, rfl, fun _ => inv.setup nofun,
    levels_pass hsplit inv.levels hfile, inv.balanced⟩

/-- Stopping the logger of a level. -/
theorem Inv.stop (inv : Inv env pre calls s (.closing closed (level :: rest)) handled pending)
    (hfile : (s.globals.async_loggers level).file ≠ none)
    (h : (s.globals.async_loggers level).stop = .ok logger) :
    Inv env pre calls
      ⟨s.globals.setLogger level logger, .pthread_join level :: shutdown_rest rest⟩
      (.joining closed level rest) handled pending := by
  obtain ⟨hhandled, hsplit⟩ : handled = calls ∧ closed ++ level :: rest = valid_levels := inv.fits
  obtain ⟨hopened, hlevels⟩ := levels_stop hsplit inv.levels hfile h
  exact ⟨⟨hhandled, hsplit, hopened⟩, rfl, fun _ => (inv.setup nofun).setLogger, hlevels,
    inv.balanced⟩

/-- Joining the writer of a level. -/
theorem Inv.join (inv : Inv env pre calls s (.joining closed level rest) handled pending)
    (h : (s.globals.async_loggers level).join = .ok logger) :
    Inv env pre calls ⟨s.globals.setLogger level logger, shutdown_rest rest⟩
      (.closing (closed ++ [level]) rest) handled pending := by
  obtain ⟨hhandled, hsplit, _⟩ := inv.fits
  exact ⟨⟨hhandled, by simpa using hsplit⟩, rfl, fun _ => (inv.setup nofun).setLogger,
    levels_join inv.levels h, inv.balanced⟩

/-- Closing the common file ends the run. -/
theorem Inv.close_common (inv : Inv env pre calls s (.closing closed []) handled pending) :
    Inv env pre calls ⟨Logger.close_common s.globals, []⟩ .finished handled pending := by
  obtain ⟨hhandled, hsplit⟩ : handled = calls ∧ closed ++ [] = valid_levels := inv.fits
  rw [List.append_nil] at hsplit
  subst hsplit
  refine ⟨hhandled, rfl, fun hfinished => absurd rfl hfinished, ?_, inv.balanced⟩
  refine levels_closed (fun l hopened => ?_) inv.levels
  obtain ⟨file, hfile⟩ := Option.ne_none_iff_exists'.mp hopened
  exact valid_of_levelFile (openedFile_some hfile).2

end Closing

/-- The end of the run leaves nothing to write. -/
theorem Inv.finished_perm (inv : Inv env pre calls s phase handled pending) (htodo : s.todo = []) :
    (s.globals.written.map Write.route).Perm (routed env pre calls) := by
  have hphase : phase = .finished := by
    have hempty : phase.todo = [] := inv.todo ▸ htodo
    cases phase with
    | finished => rfl
    | calling rest => simp [Phase.todo] at hempty
    | closing closed rest => simp [Phase.todo, shutdown_rest] at hempty
    | joining closed level rest => cases hempty
  subst hphase
  have hhandled : handled = calls := inv.fits
  have hperm := inv.balanced.perm fun level => (inv.levels level).closed
  rwa [hhandled] at hperm

end Client

section Runs

/-- The client thread makes the calls between `logger_init` and `logger_shutdown`. -/
def program (pre : Text) (calls : List Call) : System :=
  ⟨start pre, .logger_init :: (calls.map .logger_log ++ [.logger_shutdown])⟩

/-- What `logger_init` sets up satisfies the invariant. -/
theorem inv_logger_init (husable : Usable env pre) (calls : List Call) :
    Inv env pre calls ⟨logger_init env (start pre), (Phase.calling calls).todo⟩ (.calling calls) []
      (fun _ => []) := by
  have hinit : logger_init env (start pre) = do_init env (start pre) := rfl
  have hbalanced : Balanced env pre [] (fun _ => []) [] := fun _ => rfl
  cases henabled : enabled env pre with
  | true =>
      rw [hinit, do_init_enabled husable henabled]
      refine ⟨rfl, rfl, fun _ => ⟨rfl, henabled.symm, fun _ => rfl, fun _ => rfl⟩, fun level => ?_,
        hbalanced⟩
      have hname : openedFile env pre level = levelFile env pre level := if_pos henabled
      rw [hname]
      show LevelOk _ level .live (initialLogger env pre level) []
      unfold initialLogger
      cases levelFile env pre level with
      | none => exact ⟨rfl, rfl, rfl⟩
      | some name =>
          refine ⟨rfl, rfl, rfl, [], ⟨rfl, List.nodup_nil, 0, fun _ _ => rfl⟩, rfl, rfl⟩
  | false =>
      rw [hinit, do_init_disabled henabled]
      refine ⟨rfl, rfl, fun _ => ⟨rfl, henabled.symm, ?_, ?_⟩, fun level => ?_, hbalanced⟩
      · intro h
        rw [henabled] at h
        cases h
      · intro h
        rw [henabled] at h
        cases h
      · have hname : openedFile env pre level = none := if_neg (by rw [henabled]; nofun)
        rw [hname]
        exact ⟨rfl, rfl, rfl⟩

/-- Every step keeps the invariant. -/
theorem Inv.step (inv : Inv env pre calls s phase handled pending) {event : Event} {t : System}
    (h : step env s event = .ok t) :
    ∃ phase' handled' pending', Inv env pre calls t phase' handled' pending' := by
  cases event with
  | writer level symbols =>
      simp only [Logger.step] at h
      obtain ⟨g, hmove, rfl⟩ := map_eq_ok.mp h
      obtain ⟨pending', inv', _⟩ := inv.moveWriter hmove
      exact ⟨_, _, _, inv'⟩
  | wakeup level =>
      simp only [Logger.step] at h
      obtain ⟨logger, hwake, rfl⟩ := map_eq_ok.mp h
      exact ⟨_, _, _, inv.wakeup hwake⟩
  | client msg symbols =>
      simp only [Logger.step, inv.todo] at h
      cases phase with
      | finished => cases h
      | calling rest =>
          cases rest with
          | nil =>
              have hinit := (inv.setup nofun).initialized
              simp only [Phase.todo, List.map_nil, List.nil_append, perform, hinit, if_true] at h
              obtain rfl := Except.ok.inj h
              exact ⟨_, _, _, inv.logger_shutdown⟩
          | cons call rest =>
              simp only [Phase.todo, List.map_cons, List.cons_append, perform] at h
              obtain ⟨_, hperform, rfl⟩ := map_eq_ok.mp h
              obtain ⟨g, hlog, rfl⟩ := map_eq_ok.mp hperform
              obtain ⟨pending', inv'⟩ := inv.logger_log hlog
              exact ⟨_, _, _, inv'⟩
      | closing closed rest =>
          cases rest with
          | nil =>
              obtain rfl := Except.ok.inj h
              exact ⟨_, _, _, inv.close_common⟩
          | cons level rest =>
              simp only [Phase.todo, shutdown_rest, List.map_cons, List.cons_append, perform] at h
              by_cases hfile : (s.globals.async_loggers level).file = none
              · rw [if_pos hfile] at h
                obtain rfl := Except.ok.inj h
                exact ⟨_, _, _, inv.pass hfile⟩
              · rw [if_neg hfile] at h
                obtain ⟨_, hperform, rfl⟩ := map_eq_ok.mp h
                obtain ⟨logger, hstop, rfl⟩ := map_eq_ok.mp hperform
                exact ⟨_, _, _, inv.stop hfile hstop⟩
      | joining closed level rest =>
          simp only [Phase.todo, perform] at h
          obtain ⟨_, hperform, rfl⟩ := map_eq_ok.mp h
          obtain ⟨logger, hjoin, rfl⟩ := map_eq_ok.mp hperform
          exact ⟨_, _, _, inv.join hjoin⟩

/-- The only step of the program's first state is `logger_init`. -/
theorem step_program {event : Event} {t : System} (h : step env (program pre calls) event = .ok t) :
    t = ⟨logger_init env (start pre), (Phase.calling calls).todo⟩ := by
  cases event with
  | writer level symbols => cases h
  | wakeup level => cases h
  | client msg symbols => exact (Except.ok.inj h).symm

/-- Every state of a run is the first one or satisfies the invariant. -/
theorem reachable_inv (husable : Usable env pre) (h : Reachable env (program pre calls) s) :
    s = program pre calls ∨ ∃ phase handled pending, Inv env pre calls s phase handled pending := by
  induction h with
  | refl => exact Or.inl rfl
  | tail _ hstep ih =>
      right
      rcases ih with rfl | ⟨phase, handled, pending, inv⟩
      · rw [step_program hstep]
        exact ⟨_, _, _, inv_logger_init husable calls⟩
      · exact inv.step hstep

end Runs

end Invariant

end OtusCProg.Logger
