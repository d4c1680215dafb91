import OtusCProg.Logger.Delivery
import OtusCProg.Logger.Threads

/-!
# Shutting down while other threads log

`do_init` may run again after a shutdown, on whatever the levels were left
with. In a run of timely steps no call comes to a queue whose writer has
ended, and what the writers have written followed by what the queues still
hold is what the calls have handed over.
-/

namespace OtusCProg.Logger
open Library AsyncLogger

section Opening
variable {env : Environment} {pre : Text} {g : Globals} {level : Int} {logger : AsyncLogger}

/-- The file of a level that opens, and whose thread starts. -/
def creatableFile (env : Environment) (pre : Text) (level : Int) : Option Text :=
  (levelFile env pre level).filter fun name => (env.fopen name).isOk && env.pthread_create level

/-- The file that `do_init` opens for a level. -/
def servedFile (env : Environment) (pre : Text) (level : Int) : Option Text :=
  if enabled env pre then creatableFile env pre level else none

theorem levelFile_of_servedFile {name : Text} (h : servedFile env pre level = some name) :
    levelFile env pre level = some name := by
  unfold servedFile at h
  split at h
  · exact (Option.filter_eq_some_iff.mp h).1
  · cases h

/-- Only finitely many nodes are allocated. -/
def AsyncLogger.Bounded (logger : AsyncLogger) : Prop :=
  ∃ bound, ∀ a, bound ≤ a → logger.nodes a = none

/-- No file is open and no thread runs. -/
structure AsyncLogger.Idle (logger : AsyncLogger) : Prop where
  file : logger.file = none
  thread : logger.thread = .none
  bounded : logger.Bounded

/-- The logger waits for its first message, if the level has a file. -/
def Opened (name : Option Text) (level : Int) (logger : AsyncLogger) : Prop :=
  LevelOk name level .live logger [] ∧ logger.Bounded

theorem AsyncLogger.Idle.opened (h : logger.Idle) : Opened none level logger :=
  ⟨⟨h.file, h.thread, rfl⟩, h.bounded⟩

/-- One turn of the loop of `do_init` opens the logger of its level. -/
theorem init_level_opens (env : Environment) (hpre : g.env_prefix = pre) (hlevel : level ∈ valid_levels) :
    ∃ logger diagnostics,
      init_level env g level = { g.setLogger level logger with diagnostics := diagnostics } ∧
      ((g.async_loggers level).Idle → Opened (creatableFile env pre level) level logger) := by
  have hrange : ¬(level < 0 ∨ 8 ≤ level) := by
    have hvalid := valid_range hlevel
    omega
  have hconf : configured env g (suffix_of level) = levelFile env pre level := by
    rw [levelFile, if_pos hlevel]
    exact configured_congr hpre _
  unfold init_level creatableFile
  rw [hconf]
  cases hfile : levelFile env pre level with
  | none =>
      refine ⟨g.async_loggers level, g.diagnostics, ?_, fun hidle => hidle.opened⟩
      simp only [Globals.setLogger, Function.update_eq_self]
  | some name =>
      cases hopen : env.fopen name with
      | error err =>
          simp only [create_async_logger, if_neg hrange, hopen]
          refine ⟨_, _, rfl, fun hidle => ?_⟩
          have hnone : (some name).filter (fun name => (env.fopen name).isOk && env.pthread_create level) =
              none := by simp [hopen, Except.isOk, Except.toBool]
          rw [hnone]
          exact Idle.opened ⟨rfl, hidle.thread, hidle.bounded⟩
      | ok _ =>
          cases hstart : env.pthread_create level with
          | false =>
              simp only [create_async_logger, if_neg hrange, hopen, hstart, Bool.false_eq_true, if_false]
              refine ⟨_, g.diagnostics, rfl, fun hidle => ?_⟩
              have hnone : (some name).filter (fun name => (env.fopen name).isOk && false) = none := by
                simp
              rw [hnone]
              exact Idle.opened ⟨rfl, hidle.thread, hidle.bounded⟩
          | true =>
              simp only [create_async_logger, if_neg hrange, hopen, hstart, if_true]
              refine ⟨_, g.diagnostics, rfl, fun hidle => ?_⟩
              have hsome : (some name).filter (fun name => (env.fopen name).isOk && true) = some name := by
                simp [hopen, Except.isOk, Except.toBool]
              rw [hsome]
              exact ⟨⟨rfl, rfl, rfl, [], ⟨rfl, List.nodup_nil, hidle.bounded⟩, rfl, rfl⟩, hidle.bounded⟩

/-- The loop opens the loggers of the levels it goes over. -/
theorem init_levels_open (env : Environment) (levels : List Int) (hpre : g.env_prefix = pre)
    (hlevels : ∀ level ∈ levels, level ∈ valid_levels) (hnodup : levels.Nodup) :
    ∃ loggers diagnostics, levels.foldl (init_level env) g =
        { g with async_loggers := loggers, diagnostics := diagnostics } ∧
      (∀ level ∈ levels, (g.async_loggers level).Idle →
        Opened (creatableFile env pre level) level (loggers level)) ∧
      ∀ level ∉ levels, loggers level = g.async_loggers level := by
  induction levels generalizing g with
  | nil => exact ⟨g.async_loggers, g.diagnostics, rfl, fun _ h => absurd h List.not_mem_nil, fun _ _ => rfl⟩
  | cons level rest ih =>
      obtain ⟨hnot, hnodup⟩ := List.nodup_cons.mp hnodup
      obtain ⟨logger, diagnostics, hinit, hopened⟩ :=
        init_level_opens env hpre (hlevels level List.mem_cons_self)
      obtain ⟨loggers, diagnostics', hfold, hrest, hsame⟩ :=
        ih (g := { g.setLogger level logger with diagnostics := diagnostics }) hpre
          (fun l hl => hlevels l (List.mem_cons_of_mem _ hl)) hnodup
      refine ⟨loggers, diagnostics', ?_, ?_, ?_⟩
      · rw [List.foldl_cons, hinit, hfold]
        rfl
      · intro l hl hidle
        rcases List.mem_cons.mp hl with rfl | hmem
        · rw [hsame l hnot]
          simp only [Globals.setLogger, Function.update_self]
          exact hopened hidle
        · have hne : l ≠ level := by
            rintro rfl
            exact hnot hmem
          apply hrest l hmem
          simpa only [Globals.setLogger, Function.update_of_ne hne] using hidle
      · intro l hl
        obtain ⟨hne, hl⟩ := not_or.mp (List.mem_cons.not.mp hl)
        rw [hsame l hl]
        exact Function.update_of_ne hne _ _

theorem init_common_frame (env : Environment) (g : Globals) :
    Globals.env_prefix (init_common env g) = g.env_prefix ∧
      (init_common env g).async_loggers = g.async_loggers := by
  unfold init_common
  split
  · exact ⟨rfl, rfl⟩
  · split <;> exact ⟨rfl, rfl⟩

theorem init_threshold_frame (env : Environment) (g : Globals) :
    Globals.env_prefix (init_threshold env g) = g.env_prefix ∧
      (init_threshold env g).async_loggers = g.async_loggers := by
  unfold init_threshold
  split <;> exact ⟨rfl, rfl⟩

/-- `do_init` opens the levels that have a file, when all levels are idle. -/
theorem do_init_opens (hpre : g.env_prefix = pre) (hinit : g.initialized = false)
    (hidle : ∀ level, (g.async_loggers level).Idle) :
    (do_init env g).initialized = true ∧ Globals.env_prefix (do_init env g) = pre ∧
      ∀ level, Opened (servedFile env pre level) level ((do_init env g).async_loggers level) := by
  have hcheck : check_logging_enabled env g = enabled env pre := by
    have hget : get_env_with_prefix env g "LOGGING_ENABLED" =
        get_env_with_prefix env (start pre) "LOGGING_ENABLED" := by
      unfold get_env_with_prefix make_env_name
      rw [hpre]
      rfl
    rw [enabled, check_logging_enabled, check_logging_enabled, hget]
  have hnot : ¬g.initialized = true := by
    rw [hinit]
    exact Bool.false_ne_true
  unfold do_init servedFile
  rw [if_neg hnot, hcheck]
  cases enabled env pre with
  | false => exact ⟨rfl, hpre, fun level => (hidle level).opened⟩
  | true =>
      simp only [if_true]
      obtain ⟨hcommon, hcommonLoggers⟩ := init_common_frame env { g with logging_enabled := true }
      obtain ⟨hlevel, hlevelLoggers⟩ :=
        init_threshold_frame env (init_common env { g with logging_enabled := true })
      obtain ⟨loggers, diagnostics, hfold, hopened, hsame⟩ :=
        init_levels_open env valid_levels ((hlevel.trans hcommon).trans hpre) (fun _ h => h)
          (by decide)
      rw [hfold]
      refine ⟨trivial, (hlevel.trans hcommon).trans hpre, fun level => ?_⟩
      rw [hlevelLoggers, hcommonLoggers] at hopened hsame
      by_cases hvalid : level ∈ valid_levels
      · exact hopened level hvalid (hidle level)
      · have hnone : creatableFile env pre level = none := by
          rw [creatableFile, levelFile, if_neg hvalid]
          rfl
        show Opened _ level (loggers level)
        rw [hnone, hsame level hvalid]
        exact (hidle level).opened

end Opening

/-- Where the thread of `logger_shutdown` stands. -/
inductive Course where
  | ahead (inits : Nat)
  | closing (closed rest : List Int)
  | joining (closed : List Int) (level : Int) (rest : List Int)
  | returned

namespace Course

def main : Course → List Action
  | ahead inits => List.replicate inits .logger_init ++ [.logger_shutdown]
  | closing _ rest => shutdown_rest rest
  | joining _ level rest => .pthread_join level :: shutdown_rest rest
  | returned => []

/-- Outside of `logger_shutdown` the levels are live when the library is initialised. -/
def stage (initialized : Bool) : Course → Int → Stage
  | ahead _, _ => if initialized then .live else .closed
  | closing closed rest, l => (Phase.closing closed rest).stage l
  | joining closed level rest, l => (Phase.joining closed level rest).stage l
  | returned, _ => if initialized then .live else .closed

/-- The levels are gone through in their order while the library stays initialised. -/
def Fits (initialized : Bool) : Course → Prop
  | ahead _ => True
  | closing closed rest => initialized = true ∧ closed ++ rest = valid_levels
  | joining closed level rest => initialized = true ∧ closed ++ level :: rest = valid_levels
  | returned => True

end Course

/-- The library data fit the course of `logger_shutdown`, and the loggers hold the texts `pending`. -/
structure LibraryOk (env : Environment) (pre : Text) (course : Course) (g : Globals)
    (pending : Int → List Text) : Prop where
  fits : course.Fits g.initialized
  named : g.env_prefix = pre
  levels : ∀ level, LevelOk (servedFile env pre level) level (course.stage g.initialized level)
    (g.async_loggers level) (pending level)
  bounded : ∀ level, (g.async_loggers level).Bounded
  reaches : ∀ level, pending level ≠ [] → ReachesFile g level

/-- The writer of the logger has finished its draining, or there is none. -/
def AsyncLogger.Finished (logger : AsyncLogger) : Prop :=
  logger.thread = .ended ∨ logger.thread = .none

/-- No call stands before an enqueue whose text will not reach the file of its level. -/
def InTime (g : Globals) (clients : List Client) : Prop :=
  ∀ client ∈ clients, ∀ call ∈ client.handing,
    ¬(g.async_loggers call.level).Finished ∧ ReachesFile g call.level

/-- The file of the level. -/
def ownFile (env : Environment) (pre : Text) (level : Int) : Sink :=
  .file ((levelFile env pre level).getD [])

/-- The writes to the file of the level, in this order. -/
def ownWrites (env : Environment) (pre : Text) (level : Int) (texts : List Text) :
    List (Int × Sink × Text) :=
  texts.map fun t => (level, ownFile env pre level, t)

/-- At every level, the writes of the writer and the texts that are left make up the texts handed
over, in their order. -/
def Accounted (env : Environment) (pre : Text) (flushed : Int → List Write)
    (pending handed : Int → List Text) : Prop :=
  ∀ level, (flushed level).map Write.route ++ ownWrites env pre level (pending level) =
    ownWrites env pre level (handed level)

section Library
variable {env : Environment} {pre : Text} {course : Course} {g : Globals} {pending : Int → List Text}
  {clients : List Client} {level : Int} {logger : AsyncLogger}

theorem LevelOk.idle {name : Option Text} {texts : List Text}
    (h : LevelOk name level .closed logger texts) (hbounded : logger.Bounded) : logger.Idle := by
  cases name <;> exact ⟨h.1, h.2.1, hbounded⟩

theorem LevelOk.thread_ne_none {name : Option Text} {stage : Stage} {texts : List Text}
    (h : LevelOk name level stage logger texts) (hfile : logger.file.isSome = true) :
    logger.thread ≠ .none := by
  have hclosed : logger.file ≠ none := Option.isSome_iff_ne_none.mp hfile
  cases name with
  | none => exact absurd h.1 hclosed
  | some file =>
      cases stage with
      | closed => exact absurd h.1 hclosed
      | stopped => exact h.2.2.2.thread_ne_none
      | live => exact h.2.2.2.thread_ne_none

theorem LevelOk.nil_of_thread {name : Option Text} {stage : Stage} {texts : List Text}
    (h : LevelOk name level stage logger texts) (hthread : logger.thread = .none) : texts = [] := by
  cases name with
  | none => exact h.2.2
  | some file =>
      cases stage with
      | closed => exact h.2.2
      | stopped => exact absurd hthread h.2.2.2.thread_ne_none
      | live => exact absurd hthread h.2.2.2.thread_ne_none

/-- With all levels idle no call stands before an enqueue. -/
theorem InTime.of_idle {g' : Globals} (h : InTime g clients)
    (hidle : ∀ l, (g.async_loggers l).Idle) : InTime g' clients := by
  intro client hclient call hcall
  exact absurd (Or.inr (hidle call.level).thread) (h client hclient call hcall).1

/-- Outside of `logger_shutdown` the levels go with the initialisation of the library. -/
theorem Course.outside (hfits : course.Fits false) :
    course.Fits true ∧ ∀ l, course.stage false l = .closed ∧ course.stage true l = .live := by
  cases course with
  | ahead inits => exact ⟨trivial, fun _ => ⟨rfl, rfl⟩⟩
  | returned => exact ⟨trivial, fun _ => ⟨rfl, rfl⟩⟩
  | closing closed rest => cases hfits.1
  | joining closed level rest => cases hfits.1

/-- Before `do_init` every level is idle. -/
theorem LibraryOk.uninitialized (lib : LibraryOk env pre course g pending)
    (hinit : g.initialized = false) (l : Int) : (g.async_loggers l).Idle ∧ pending l = [] := by
  have hfits := lib.fits
  have hl := lib.levels l
  rw [hinit] at hfits hl
  rw [((Course.outside hfits).2 l).1] at hl
  exact ⟨hl.idle (lib.bounded l), hl.closed⟩

/-- `do_init` keeps the invariant, whoever runs it. -/
theorem LibraryOk.logger_init (lib : LibraryOk env pre course g pending) :
    LibraryOk env pre course (logger_init env g) pending := by
  unfold Logger.logger_init
  by_cases hinit : g.initialized = true
  · rw [if_pos hinit]
    exact lib
  · rw [if_neg hinit]
    rw [Bool.not_eq_true] at hinit
    have hidle := lib.uninitialized hinit
    obtain ⟨hinit', hpre, hopened⟩ := do_init_opens lib.named hinit fun l => (hidle l).1
    have hfits := lib.fits
    rw [hinit] at hfits
    obtain ⟨hfits', hstage⟩ := Course.outside hfits
    refine ⟨by rw [hinit']; exact hfits', hpre, fun l => ?_, fun l => (hopened l).2,
      fun l hne => absurd (hidle l).2 hne⟩
    rw [hinit', (hstage l).2, (hidle l).2]
    exact (hopened l).1

theorem InTime.logger_init (lib : LibraryOk env pre course g pending) (h : InTime g clients) :
    InTime (logger_init env g) clients := by
  unfold Logger.logger_init
  by_cases hinit : g.initialized = true
  · rw [if_pos hinit]
    exact h
  · rw [if_neg hinit]
    rw [Bool.not_eq_true] at hinit
    exact h.of_idle fun l => (lib.uninitialized hinit l).1

/-- The logger of a level may change, as long as no call stands before it when its writer ends. -/
theorem InTime.setLogger (h : InTime g clients)
    (hfinished : logger.Finished → ¬(g.async_loggers level).Finished →
      ∀ client ∈ clients, ∀ call ∈ client.handing, call.level ≠ level) :
    InTime (g.setLogger level logger) clients := by
  intro client hclient call hcall
  obtain ⟨hnot, hreaches⟩ := h client hclient call hcall
  refine ⟨?_, hreaches⟩
  by_cases hlevel : call.level = level
  · rw [hlevel] at hnot ⊢
    rw [setLogger_async_loggers]
    intro hfin
    exact hfinished hfin hnot client hclient call hcall hlevel
  · rw [setLogger_of_ne g logger hlevel]
    exact hnot

/-- Moving one client. -/
theorem InTime.set (h : InTime g clients) {next : Client} {i : Nat}
    (hnext : ∀ call ∈ next.handing,
      ¬(g.async_loggers call.level).Finished ∧ ReachesFile g call.level) :
    InTime g (clients.set i next) := by
  intro client hclient call hcall
  rcases List.mem_or_eq_of_mem_set hclient with hmem | rfl
  · exact h client hmem call hcall
  · exact hnext call hcall

/-- Moving a client that does not come to stand before an enqueue. -/
theorem InTime.set_of_none (h : InTime g clients) {next : Client} {i : Nat}
    (hnext : next.handing = none) : InTime g (clients.set i next) := by
  apply h.set
  intro call hcall
  rw [hnext] at hcall
  cases hcall

theorem bounded_setLogger (h : ∀ l, (g.async_loggers l).Bounded) (hbounded : logger.Bounded) (l : Int) :
    ((g.setLogger level logger).async_loggers l).Bounded := by
  by_cases hl : l = level
  · subst hl
    rw [setLogger_async_loggers]
    exact hbounded
  · rw [setLogger_of_ne g logger hl]
    exact h l

/-- The logger of a level may change while its stage and its room are kept. -/
theorem LibraryOk.setLogger (lib : LibraryOk env pre course g pending) {left : List Text}
    (hlevel : LevelOk (servedFile env pre level) level (course.stage g.initialized level) logger left)
    (hbounded : logger.Bounded) (hreaches : left ≠ [] → ReachesFile g level) :
    LibraryOk env pre course (g.setLogger level logger) (Function.update pending level left) := by
  refine ⟨lib.fits, lib.named, levels_setLogger lib.levels hlevel fun _ _ => rfl,
    bounded_setLogger lib.bounded hbounded, fun l hne => ?_⟩
  by_cases hl : l = level
  · subst hl
    rw [Function.update_self] at hne
    exact hreaches hne
  · rw [Function.update_of_ne hl] at hne
    exact lib.reaches l hne

end Library

namespace Threads

/-- The invariant of the runs of timely steps. -/
structure Inv (env : Environment) (pre : Text) (s : Threads) (course : Course)
    (pending : Int → List Text) : Prop where
  main : s.main = course.main
  library : LibraryOk env pre course s.globals pending
  in_time : InTime s.globals s.clients
  accounted : Accounted env pre s.flushed pending s.handed

section Steps
variable {env : Environment} {pre : Text} {course : Course} {s : Threads} {pending : Int → List Text}
  {level : Int} {logger : AsyncLogger} {g : Globals} {symbols : Option (List Text)} {msg i : Nat}

/-- A step of a writer moves the oldest text from its queue to the file of its level, or none. -/
theorem Inv.writer (inv : Inv env pre s course pending) (htimely : Timely s (.writer level symbols))
    (h : moveWriter s.globals level symbols = .ok g) :
    ∃ left, Inv env pre
        { s with
          globals := g
          flushed := Function.update s.flushed level
            (s.flushed level ++ g.written.drop s.globals.written.length) }
        course (Function.update pending level left) ∧
      remaining (g.async_loggers level) left <
        remaining (s.globals.async_loggers level) (pending level) := by
  obtain ⟨file, logger', out, left, ws, hname, hstage, hstep, rfl, hlevel', hleft, hws, hless⟩ :=
    moveWriter_levelOk h (inv.library.levels level)
  have hold' : Holds logger' left := (hname ▸ hlevel').holds hstage
  have hlib := inv.library.setLogger hlevel' hold'.bounded fun hne =>
    inv.library.reaches level (by rw [hleft]; exact List.append_ne_nil_of_right_ne_nil _ hne)
  refine ⟨left, ⟨inv.main, ⟨hlib.fits, hlib.named, hlib.levels, hlib.bounded, hlib.reaches⟩,
    ?_, ?_⟩, ?_⟩
  · have hin_time : InTime (s.globals.setLogger level logger') s.clients := by
      apply inv.in_time.setLogger
      intro hfinished _ client hclient call hcall
      rcases hfinished with hended | hnone
      · obtain ⟨hdraining, hhead⟩ := async_writer_thread_ended hstep hended
        exact htimely hdraining hhead client hclient call hcall
      · exact absurd hnone hold'.thread_ne_none
    exact hin_time
  · intro l
    have hl := inv.accounted l
    by_cases hlevel : l = level
    · subst hlevel
      have hroutes : ws.map Write.route = ownWrites env pre l out.toList := by
        rw [hws]
        cases out with
        | none => rfl
        | some t =>
            have hreaches : ReachesFile s.globals l := by
              apply inv.library.reaches
              rw [hleft]
              exact List.cons_ne_nil _ _
            have hown : ownFile env pre l = .file file := by
              rw [ownFile, levelFile_of_servedFile hname]
              rfl
            rw [(messageSink_eq_file _).mpr hreaches]
            simp only [ownWrites, hown]
      rw [hleft] at hl
      simp only [Function.update_self, List.drop_left, List.map_append, hroutes]
      rw [← hl, List.append_assoc, ownWrites, ownWrites, ownWrites, List.map_append]
    · simp only [Function.update_of_ne hlevel]
      exact hl
  · show remaining ((s.globals.setLogger level logger').async_loggers level) left < _
    rw [setLogger_async_loggers]
    exact hless

theorem Inv.wakeup (inv : Inv env pre s course pending)
    (h : (s.globals.async_loggers level).wakeup = .ok logger) :
    Inv env pre { s with globals := s.globals.setLogger level logger } course pending := by
  have hthread := wakeup_thread h
  have hlevel := inv.library.levels level
  obtain ⟨_, _, _, _, _, hold⟩ := hlevel.of_thread hthread
  obtain ⟨hold', hsame⟩ := wakeup_holds h hold
  have hlib := inv.library.setLogger (hlevel.sameSetup hthread hsame hold') hold'.bounded
    (inv.library.reaches level)
  rw [Function.update_eq_self] at hlib
  refine ⟨inv.main, hlib, inv.in_time.setLogger fun hfinished hnot => ?_, inv.accounted⟩
  obtain ⟨_, rfl⟩ := wakeup_cases h
  rcases hfinished with hended | hnone
  · cases hended
  · cases hnone

/-- An enqueued text is the last one its level has to write. -/
theorem Inv.enqueue (inv : Inv env pre s course pending) {client : Client} {call : Call}
    (hclient : s.clients[i]? = some client) (hcall : call ∈ client.handing)
    (h : (s.globals.async_loggers call.level).enqueue msg (format_log_message call) = .ok logger) :
    Inv env pre
      { s with
        globals := s.globals.setLogger call.level logger
        clients := s.clients.set i { client with position := .outside }
        handed := Function.update s.handed call.level
          (s.handed call.level ++ [format_log_message call]) }
      course (Function.update pending call.level (pending call.level ++ [format_log_message call])) := by
  obtain ⟨hnot, hreaches⟩ := inv.in_time client (List.mem_of_getElem? hclient) call hcall
  obtain ⟨hended, hnone⟩ := not_or.mp hnot
  have hlevel := inv.library.levels call.level
  obtain ⟨_, _, _, _, _, hold⟩ := hlevel.of_thread hnone
  obtain ⟨hold', hsame⟩ := enqueue_holds h hended hold
  have hlib := inv.library.setLogger (hlevel.sameSetup hnone hsame hold') hold'.bounded
    fun _ => hreaches
  refine ⟨inv.main, hlib, ?_, fun l => ?_⟩
  · have hin_time : InTime (s.globals.setLogger call.level logger) s.clients := by
      apply inv.in_time.setLogger
      intro hfinished _
      rcases hfinished with hended' | hnone'
      · exact absurd (enqueue_ended h hended') hended
      · exact absurd hnone' hold'.thread_ne_none
    exact hin_time.set_of_none rfl
  · have hl := inv.accounted l
    by_cases hl' : l = call.level
    · subst hl'
      simp only [Function.update_self, ownWrites, List.map_append] at hl ⊢
      rw [← List.append_assoc, hl]
    · simp only [Function.update_of_ne hl']
      exact hl

/-- A step of a client keeps the invariant. -/
theorem Inv.client (inv : Inv env pre s course pending) (htimely : Timely s (.client i msg symbols))
    {client next : Client} (hclient : s.clients[i]? = some client)
    (h : client.move env msg symbols s.globals = .ok (g, next)) :
    ∃ pending', Inv env pre
      { s with globals := g, clients := s.clients.set i next, handed := hand s.handed client }
      course pending' := by
  obtain ⟨position, calls⟩ := client
  cases position with
  | outside =>
      cases calls with
      | nil => cases h
      | cons call rest =>
          obtain ⟨rfl, rfl⟩ := Prod.mk.inj (Except.ok.inj h)
          refine ⟨pending, inv.main, inv.library.logger_init, ?_, inv.accounted⟩
          exact (inv.in_time.logger_init inv.library).set_of_none rfl
  | routing call =>
      simp only [Client.move] at h
      by_cases hskip : ¬s.globals.logging_enabled ∨ call.level > s.globals.current_level
      · rw [if_pos hskip] at h
        obtain ⟨rfl, rfl⟩ := Prod.mk.inj (Except.ok.inj h)
        exact ⟨pending, inv.main, inv.library, inv.in_time.set_of_none rfl,
          inv.accounted⟩
      · rw [if_neg hskip] at h
        by_cases hasync : has_async_logger s.globals call = true
        · rw [if_pos hasync] at h
          obtain ⟨rfl, rfl⟩ := Prod.mk.inj (Except.ok.inj h)
          refine ⟨pending, inv.main, inv.library, inv.in_time.set fun other hnext => ?_, inv.accounted⟩
          obtain rfl : call = other := Option.some.inj hnext
          obtain ⟨henabled, hlevel⟩ := not_or.mp hskip
          have htest : call ∈ s.clients[i]?.bind Client.testing := by
            rw [hclient]
            rfl
          obtain ⟨hended, hreaches⟩ :=
            htimely call htest ⟨not_not.mp henabled, not_lt.mp hlevel, hasync⟩
          refine ⟨not_or.mpr ⟨hended, fun hnone => ?_⟩, hreaches⟩
          have hfile := (has_async_logger_iff.mp hasync).2.2
          exact (inv.library.levels call.level).thread_ne_none hfile hnone
        · rw [if_neg hasync] at h
          obtain ⟨rfl, rfl⟩ := Prod.mk.inj (Except.ok.inj h)
          exact ⟨pending, inv.main, inv.library, inv.in_time.set_of_none rfl,
            inv.accounted⟩
  | enqueuing call =>
      simp only [Client.move] at h
      obtain ⟨logger, henq, hnext⟩ := map_eq_ok.mp h
      obtain ⟨rfl, rfl⟩ := Prod.mk.inj hnext
      exact ⟨_, inv.enqueue hclient rfl henq⟩
  | writing call =>
      obtain ⟨rfl, rfl⟩ := Prod.mk.inj (Except.ok.inj h)
      obtain ⟨ws, hwrite⟩ := write_single_log_message_frame s.globals symbols
        s.globals.common_file call.level (format_log_message call)
      have hlib := inv.library
      rw [hwrite]
      refine ⟨pending, inv.main,
        ⟨hlib.fits, hlib.named, hlib.levels, hlib.bounded, hlib.reaches⟩, ?_, inv.accounted⟩
      have hin_time : InTime s.globals (s.clients.set i ⟨.outside, calls⟩) :=
        inv.in_time.set_of_none rfl
      exact hin_time

section Closing
variable {closed rest : List Int}

theorem Inv.pass (inv : Inv env pre s (.closing closed (level :: rest)) pending)
    (hfile : (s.globals.async_loggers level).file = none) :
    Inv env pre { s with main := shutdown_rest rest } (.closing (closed ++ [level]) rest) pending := by
  have hlib := inv.library
  obtain ⟨hinit, hsplit⟩ : _ ∧ closed ++ level :: rest = valid_levels := hlib.fits
  exact ⟨rfl, ⟨⟨hinit, by simpa using hsplit⟩, hlib.named, levels_pass hsplit hlib.levels hfile,
    hlib.bounded, hlib.reaches⟩, inv.in_time, inv.accounted⟩

theorem Inv.stop (inv : Inv env pre s (.closing closed (level :: rest)) pending)
    (hfile : (s.globals.async_loggers level).file ≠ none)
    (h : (s.globals.async_loggers level).stop = .ok logger) :
    Inv env pre
      { s with
        globals := s.globals.setLogger level logger
        main := .pthread_join level :: shutdown_rest rest }
      (.joining closed level rest) pending := by
  have hlib := inv.library
  obtain ⟨hinit, hsplit⟩ : _ ∧ closed ++ level :: rest = valid_levels := hlib.fits
  have hbounded : logger.Bounded := by
    unfold AsyncLogger.Bounded
    rw [stop_nodes h]
    exact hlib.bounded level
  refine ⟨rfl, ⟨⟨hinit, hsplit⟩, hlib.named, (levels_stop hsplit hlib.levels hfile h).2,
    bounded_setLogger hlib.bounded hbounded, hlib.reaches⟩, ?_, inv.accounted⟩
  apply inv.in_time.setLogger
  intro hfinished hnot
  unfold AsyncLogger.stop signal at h
  split at h
  · cases h
  · obtain rfl := Except.ok.inj h
    split at hfinished
    · rcases hfinished with hended | hnone
      · cases hended
      · cases hnone
    · exact absurd hfinished hnot

theorem Inv.join (inv : Inv env pre s (.joining closed level rest) pending)
    (h : (s.globals.async_loggers level).join = .ok logger) :
    Inv env pre { s with globals := s.globals.setLogger level logger, main := shutdown_rest rest }
      (.closing (closed ++ [level]) rest) pending := by
  have hlib := inv.library
  obtain ⟨hinit, hsplit⟩ : _ ∧ closed ++ level :: rest = valid_levels := hlib.fits
  obtain ⟨hended, hlogger⟩ := join_cases h
  have hbounded : logger.Bounded := by
    rw [hlogger]
    exact hlib.bounded level
  have hlevels : ∀ l, LevelOk (servedFile env pre l) l ((Phase.closing (closed ++ [level]) rest).stage l)
      ((s.globals.setLogger level logger).async_loggers l) (pending l) := levels_join hlib.levels h
  refine ⟨rfl, ⟨⟨hinit, by simpa using hsplit⟩, hlib.named, hlevels,
    bounded_setLogger hlib.bounded hbounded, hlib.reaches⟩, ?_, inv.accounted⟩
  apply inv.in_time.setLogger
  intro _ hnot
  exact absurd (Or.inl hended) hnot

/-- At the end of `logger_shutdown` every level is idle. -/
theorem Inv.close_common (inv : Inv env pre s (.closing closed []) pending) :
    Inv env pre { s with globals := Logger.close_common s.globals, main := [] } .returned pending := by
  have hlib := inv.library
  obtain ⟨hinit, hsplit⟩ : _ ∧ closed ++ [] = valid_levels := hlib.fits
  rw [List.append_nil] at hsplit
  subst hsplit
  have hclosed := levels_closed (fun l hserved => by
    obtain ⟨file, hfile⟩ := Option.ne_none_iff_exists'.mp hserved
    exact valid_of_levelFile (levelFile_of_servedFile hfile)) hlib.levels
  refine ⟨rfl, ⟨trivial, hlib.named, hclosed, hlib.bounded,
    fun l hne => absurd (hclosed l).closed hne⟩, ?_, inv.accounted⟩
  exact inv.in_time.of_idle fun l => (hclosed l).idle (hlib.bounded l)

end Closing

/-- A step of the thread of `logger_shutdown` keeps the invariant. -/
theorem Inv.main_step (inv : Inv env pre s course pending) {action : Action} {rest next : List Action}
    (hmain : s.main = action :: rest)
    (h : perform env 0 none s.globals action = .ok (g, next)) :
    ∃ course', Inv env pre { s with globals := g, main := next ++ rest } course' pending := by
  have hcourse := inv.main
  rw [hmain] at hcourse
  cases course with
  | returned => cases hcourse
  | ahead inits =>
      cases inits with
      | zero =>
          obtain ⟨rfl, rfl⟩ := List.cons.inj hcourse
          simp only [perform] at h
          by_cases hinit : s.globals.initialized = true
          · rw [if_pos hinit] at h
            obtain ⟨rfl, rfl⟩ := Prod.mk.inj (Except.ok.inj h)
            have hlib := inv.library
            refine ⟨.closing [] valid_levels, by rw [List.append_nil]; rfl,
              ⟨⟨hinit, rfl⟩, hlib.named, fun l => ?_, hlib.bounded, hlib.reaches⟩,
              inv.in_time, inv.accounted⟩
            have hl := hlib.levels l
            simp only [Course.stage, hinit, if_true] at hl
            exact hl
          · rw [if_neg hinit] at h
            obtain ⟨rfl, rfl⟩ := Prod.mk.inj (Except.ok.inj h)
            have hlib := inv.library
            exact ⟨.returned, rfl, ⟨trivial, hlib.named, hlib.levels, hlib.bounded, hlib.reaches⟩,
              inv.in_time, inv.accounted⟩
      | succ inits =>
          obtain ⟨rfl, rfl⟩ := List.cons.inj hcourse
          obtain ⟨rfl, rfl⟩ := Prod.mk.inj (Except.ok.inj h)
          have hlib := inv.library.logger_init
          exact ⟨.ahead inits, rfl,
            ⟨trivial, hlib.named, hlib.levels, hlib.bounded, hlib.reaches⟩,
            inv.in_time.logger_init inv.library, inv.accounted⟩
  | closing closed levels =>
      cases levels with
      | nil =>
          obtain ⟨rfl, rfl⟩ := List.cons.inj hcourse
          obtain ⟨rfl, rfl⟩ := Prod.mk.inj (Except.ok.inj h)
          exact ⟨.returned, inv.close_common⟩
      | cons level levels =>
          obtain ⟨rfl, rfl⟩ := List.cons.inj hcourse
          simp only [perform] at h
          by_cases hfile : (s.globals.async_loggers level).file = none
          · rw [if_pos hfile] at h
            obtain ⟨rfl, rfl⟩ := Prod.mk.inj (Except.ok.inj h)
            exact ⟨_, inv.pass hfile⟩
          · rw [if_neg hfile] at h
            obtain ⟨logger, hstop, hnext⟩ := map_eq_ok.mp h
            obtain ⟨rfl, rfl⟩ := Prod.mk.inj hnext
            exact ⟨_, inv.stop hfile hstop⟩
  | joining closed level levels =>
      obtain ⟨rfl, rfl⟩ := List.cons.inj hcourse
      simp only [perform] at h
      obtain ⟨logger, hjoin, hnext⟩ := map_eq_ok.mp h
      obtain ⟨rfl, rfl⟩ := Prod.mk.inj hnext
      exact ⟨_, inv.join hjoin⟩

/-- Every timely step keeps the invariant. -/
theorem Inv.step (inv : Inv env pre s course pending) {turn : Turn} {t : Threads}
    (htimely : Timely s turn) (h : step env s turn = .ok t) :
    ∃ course' pending', Inv env pre t course' pending' := by
  cases turn with
  | client i msg symbols =>
      simp only [Threads.step] at h
      cases hclient : s.clients[i]? with
      | none => rw [hclient] at h; cases h
      | some client =>
          simp only [hclient] at h
          obtain ⟨⟨g, next⟩, hmove, rfl⟩ := map_eq_ok.mp h
          obtain ⟨pending', inv'⟩ := inv.client htimely hclient hmove
          exact ⟨_, _, inv'⟩
  | main =>
      simp only [Threads.step] at h
      cases hmain : s.main with
      | nil => rw [hmain] at h; cases h
      | cons action rest =>
          simp only [hmain] at h
          obtain ⟨⟨g, next⟩, hperform, rfl⟩ := map_eq_ok.mp h
          obtain ⟨course', inv'⟩ := inv.main_step hmain hperform
          exact ⟨_, _, inv'⟩
  | writer level symbols =>
      simp only [Threads.step] at h
      obtain ⟨g, hmove, rfl⟩ := map_eq_ok.mp h
      obtain ⟨left, inv', _⟩ := inv.writer htimely hmove
      exact ⟨_, _, inv'⟩
  | wakeup level =>
      simp only [Threads.step] at h
      obtain ⟨logger, hwake, rfl⟩ := map_eq_ok.mp h
      exact ⟨_, _, inv.wakeup hwake⟩

theorem inv_launch (inits : Nat) (calls : List (List Call)) :
    Inv env pre (launch pre inits calls) (.ahead inits) fun _ => [] := by
  refine ⟨rfl, ⟨trivial, rfl, fun level => ?_, fun _ => ⟨0, fun _ _ => rfl⟩,
    fun _ hne => absurd rfl hne⟩, ?_, fun _ => rfl⟩
  · show LevelOk _ level .closed .zero []
    cases servedFile env pre level <;> exact ⟨rfl, rfl, rfl⟩
  · intro client hclient call hcall
    obtain ⟨_, _, rfl⟩ := List.mem_map.mp hclient
    cases hcall

theorem Reachable.inv {inits : Nat} {calls : List (List Call)}
    (h : Reachable env Timely (launch pre inits calls) s) :
    ∃ course pending, Inv env pre s course pending := by
  refine Runs.invariant (I := fun s => ∃ course pending, Inv env pre s course pending) h
    ⟨_, _, inv_launch inits calls⟩ ?_
  rintro t u turn ⟨_, _, inv⟩ htimely hstep
  exact inv.step htimely hstep

end Steps

section Lossless
variable {env : Environment} {pre : Text} {course : Course} {s t : Threads} {pending : Int → List Text}
  {level : Int}

/-- No call stands before an enqueue on a queue whose writer has finished; at every level the writer
has written the texts handed over to the file of the level, in their order, except for texts that a
writer which has not finished still has to write. -/
structure Lossless (env : Environment) (pre : Text) (s : Threads) : Prop where
  in_time : ∀ client ∈ s.clients, ∀ call ∈ client.handing,
    ¬(s.globals.async_loggers call.level).Finished
  written : ∀ level, ∃ left,
    (s.flushed level).map Write.route ++ ownWrites env pre level left =
        ownWrites env pre level (s.handed level) ∧
      ((s.globals.async_loggers level).Finished → left = []) ∧
      (¬(s.globals.async_loggers level).Finished → Holds (s.globals.async_loggers level) left)

theorem Inv.lossless (inv : Inv env pre s course pending) : Lossless env pre s := by
  refine ⟨fun client hclient call hcall => (inv.in_time client hclient call hcall).1, fun level => ?_⟩
  have hlevel := inv.library.levels level
  refine ⟨pending level, inv.accounted level, fun hfinished => ?_, fun hnot => ?_⟩
  · rcases hfinished with hended | hnone
    · obtain ⟨_, _, _, _, _, hold⟩ := hlevel.of_thread (by rw [hended]; exact nofun)
      exact (hold.ended hended).2
    · exact hlevel.nil_of_thread hnone
  · obtain ⟨_, _, _, _, _, hold⟩ := hlevel.of_thread (not_or.mp hnot).2
    exact hold

/-- The writer of a level alone writes all that its queue holds. -/
theorem Inv.flush_level (n : Nat) (inv : Inv env pre s course pending)
    (hn : remaining (s.globals.async_loggers level) (pending level) = n) :
    ∃ t left, Reachable env (fun s turn => Timely s turn ∧ turn.OfWriter) s t ∧
      Inv env pre t course left ∧ t.handed = s.handed ∧ left level = [] ∧
      ∀ l, pending l = [] → left l = [] := by
  induction n using Nat.strong_induction_on generalizing s pending with | _ n ih => ?_
  by_cases hpending : pending level = []
  · exact ⟨s, pending, .refl, inv, rfl, hpending, fun _ h => h⟩
  · have hlevel := inv.library.levels level
    have hthread : (s.globals.async_loggers level).thread ≠ .none :=
      fun hnone => hpending (hlevel.nil_of_thread hnone)
    obtain ⟨_, _, _, _, _, hold⟩ := hlevel.of_thread hthread
    obtain ⟨g, hmove⟩ := moveWriter_enabled hold
      (fun hasleep => hpending (hold.asleep hasleep).2) (fun hended => hpending (hold.ended hended).2)
    have htimely : Timely s (.writer level none) :=
      fun hdraining hhead => absurd (hold.drained hdraining hhead) hpending
    obtain ⟨left, inv', hless⟩ := inv.writer htimely hmove
    have hself : Function.update pending level left level = left := Function.update_self ..
    obtain ⟨t, left', hreach, hinv, hhanded, hnil, hkeep⟩ := ih _ (hn ▸ hless) inv' (by rw [hself])
    refine ⟨t, left', Reachable.head ⟨htimely, trivial⟩ ?_ hreach, hinv, hhanded, hnil, fun l hl => ?_⟩
    · simp only [Threads.step, hmove]
      rfl
    · apply hkeep
      have hne : l ≠ level := by
        rintro rfl
        exact hpending hl
      rw [Function.update_of_ne hne]
      exact hl

/-- The writers alone write all that these levels hold. -/
theorem Inv.flush_levels (levels : List Int) (inv : Inv env pre s course pending) :
    ∃ t left, Reachable env (fun s turn => Timely s turn ∧ turn.OfWriter) s t ∧
      Inv env pre t course left ∧ t.handed = s.handed ∧ (∀ level ∈ levels, left level = []) ∧
      ∀ l, pending l = [] → left l = [] := by
  induction levels generalizing s pending with
  | nil => exact ⟨s, pending, .refl, inv, rfl, fun _ h => absurd h List.not_mem_nil, fun _ h => h⟩
  | cons level rest ih =>
      obtain ⟨t, left, hreach, inv', hhanded, hnil, hkeep⟩ := inv.flush_level _ rfl
      obtain ⟨u, left', hreach', inv'', hhanded', hrest, hkeep'⟩ := ih inv'
      refine ⟨u, left', hreach.trans hreach', inv'', hhanded'.trans hhanded, ?_,
        fun l hl => hkeep' l (hkeep l hl)⟩
      intro l hl
      rcases List.mem_cons.mp hl with rfl | hmem
      · exact hkeep' l hnil
      · exact hrest l hmem

/-- From every state of a run of timely steps the writers alone can write all texts handed over. -/
theorem Inv.flush (inv : Inv env pre s course pending) :
    ∃ t, Reachable env (fun s turn => Timely s turn ∧ turn.OfWriter) s t ∧ t.handed = s.handed ∧
      ∀ level, (t.flushed level).map Write.route = ownWrites env pre level (s.handed level) := by
  obtain ⟨t, left, hreach, inv', hhanded, hnil, _⟩ := inv.flush_levels valid_levels
  refine ⟨t, hreach, hhanded, fun level => ?_⟩
  have hleft : left level = [] := by
    by_cases hvalid : level ∈ valid_levels
    · exact hnil level hvalid
    · have hlevel := inv'.library.levels level
      have hnone : servedFile env pre level = none := by
        by_contra hserved
        obtain ⟨file, hfile⟩ := Option.ne_none_iff_exists'.mp hserved
        exact hvalid (valid_of_levelFile (levelFile_of_servedFile hfile))
      rw [hnone] at hlevel
      exact hlevel.2.2
  have haccounted := inv'.accounted level
  rw [hleft, hhanded] at haccounted
  simpa only [ownWrites, List.map_nil, List.append_nil] using haccounted

/-- In every run of timely steps no message is lost: no call comes to a queue whose writer has
finished, and what was handed over is written to the file of its level, in its order. -/
theorem shutdown_loses_nothing {inits : Nat} {calls : List (List Call)}
    (h : Reachable env Timely (launch pre inits calls) s) :
    Lossless env pre s ∧
      ∃ t, Reachable env (fun s turn => Timely s turn ∧ turn.OfWriter) s t ∧ t.handed = s.handed ∧
        ∀ level, (t.flushed level).map Write.route = ownWrites env pre level (s.handed level) := by
  obtain ⟨course, pending, inv⟩ := h.inv
  exact ⟨inv.lossless, inv.flush⟩

/-- A writer that ends while a call stands before its enqueue leaves that call too late. -/
theorem late_of_writer {symbols : Option (List Text)} (hnot : ¬Timely s (.writer level symbols))
    (hstep : step env s (.writer level symbols) = .ok t) : ¬Lossless env pre t := by
  simp only [Timely, not_forall, not_not] at hnot
  obtain ⟨hdraining, hhead, client, hclient, call, hcall, rfl⟩ := hnot
  have hmove : moveWriter s.globals call.level symbols = .ok (s.globals.setLogger call.level
      { s.globals.async_loggers call.level with thread := .ended }) := by
    simp only [moveWriter, async_writer_thread, hdraining, hhead]
    rfl
  simp only [step, hmove] at hstep
  obtain rfl := Except.ok.inj hstep
  intro hlossless
  apply hlossless.in_time client hclient call hcall
  rw [setLogger_async_loggers]
  exact Or.inl rfl

/-- A call that is sent to the queue of a writer that has ended is too late. -/
theorem late_of_client {i msg : Nat} {symbols : Option (List Text)} {call : Call}
    (htest : call ∈ s.clients[i]?.bind Client.testing) (hasync : goes_async s.globals call)
    (hended : (s.globals.async_loggers call.level).thread = .ended)
    (hstep : step env s (.client i msg symbols) = .ok t) : ¬Lossless env pre t := by
  obtain ⟨⟨position, calls⟩, hclient, hposition⟩ := Option.bind_eq_some_iff.mp htest
  obtain rfl : position = .routing call := by
    cases position with
    | routing other => rw [Option.some.inj hposition]
    | outside => cases hposition
    | enqueuing other => cases hposition
    | writing other => cases hposition
  obtain ⟨henabled, hlevel, hfile⟩ := hasync
  have hskip : ¬(¬s.globals.logging_enabled ∨ call.level > s.globals.current_level) := by
    rw [not_or, not_not]
    exact ⟨henabled, not_lt.mpr hlevel⟩
  simp only [step, hclient, Client.move, if_neg hskip, if_pos hfile] at hstep
  obtain rfl := Except.ok.inj hstep
  have hmem : (⟨.enqueuing call, calls⟩ : Client) ∈ s.clients.set i ⟨.enqueuing call, calls⟩ := by
    obtain ⟨hi, _⟩ := List.getElem?_eq_some_iff.mp hclient
    exact List.mem_set hi _
  intro hlossless
  exact hlossless.in_time _ hmem call rfl (Or.inl hended)

/-- A file for ERROR only. -/
def errorFileOnly : Environment :=
  with_vars [("LOGGING_ENABLED", "1"), ("ERROR_LOG_FILE", "error.log")]

def errorCall : Call :=
  { level := LOG_ERROR, file := text "sample_app.c", line := 12, func := text "main",
    user_msg := text "down", time_buf := text "2024-01-01 00:00:00" }

/-- The actions and calls left, whether the writer of ERROR is gone, and the ERROR texts handed over
and written. -/
def observe (s : Threads) : Nat × List (Bool × Nat) × Bool × List Text × List (Int × Sink × Text) :=
  (s.main.length, s.clients.map fun client => (client.handing.isSome, client.calls.length),
    (s.globals.async_loggers LOG_ERROR).thread = .none, s.handed LOG_ERROR,
    (s.flushed LOG_ERROR).map Write.route)

/-- The client makes its call, and then the library is shut down. -/
def undisturbed : List Turn :=
  [.main, .client 0 0 none, .client 0 0 none, .client 0 0 none, .main, .main, .writer LOG_ERROR none,
    .writer LOG_ERROR none, .writer LOG_ERROR none, .main, .main, .main, .main, .main]

theorem shutdown_loses_nothing_undisturbed :
    ∃ s, Reachable errorFileOnly Timely (launch [] 1 [[errorCall]]) s ∧ s.main.length = 0 ∧
      Lossless errorFileOnly [] s ∧ (s.flushed LOG_ERROR).map Write.route =
        ownWrites errorFileOnly [] LOG_ERROR [format_log_message errorCall] := by
  have hrun : (takeSteps (step errorFileOnly) Timely (launch [] 1 [[errorCall]]) undisturbed).map observe =
      some (0, [(false, 0)], true, [format_log_message errorCall],
        ownWrites errorFileOnly [] LOG_ERROR [format_log_message errorCall]) := by rfl
  obtain ⟨s, hs, hobserve⟩ := Option.map_eq_some_iff.mp hrun
  have hreach : Reachable errorFileOnly Timely _ s := runs_of_takeSteps hs
  exact ⟨s, hreach, congrArg (·.1) hobserve, (shutdown_loses_nothing hreach).1,
    congrArg (·.2.2.2.2) hobserve⟩

/-- The client is preempted between its test and its enqueue while the library is shut down. -/
def preempted : List Turn :=
  [.main, .client 0 0 none, .client 0 0 none, .main, .main, .writer LOG_ERROR none,
    .writer LOG_ERROR none, .main, .main, .main, .main, .main, .client 0 0 none]

theorem preempted_message_lost :
    ∃ s, Reachable errorFileOnly (fun _ _ => True) (launch [] 1 [[errorCall]]) s ∧
      s.main.length = 0 ∧ (s.globals.async_loggers LOG_ERROR).thread = .none ∧
      s.handed LOG_ERROR = [format_log_message errorCall] ∧ s.flushed LOG_ERROR = [] ∧
      ¬Lossless errorFileOnly [] s := by
  have hrun : (takeSteps (step errorFileOnly) (fun _ _ => True) (launch [] 1 [[errorCall]]) preempted).map observe =
      some (0, [(false, 0)], true, [format_log_message errorCall], []) := by rfl
  obtain ⟨s, hs, hobserve⟩ := Option.map_eq_some_iff.mp hrun
  have hthread : (s.globals.async_loggers LOG_ERROR).thread = .none :=
    of_decide_eq_true (congrArg (·.2.2.1) hobserve)
  have hhanded : s.handed LOG_ERROR = [format_log_message errorCall] :=
    congrArg (·.2.2.2.1) hobserve
  have hflushed : s.flushed LOG_ERROR = [] := List.map_eq_nil_iff.mp (congrArg (·.2.2.2.2) hobserve)
  refine ⟨s, runs_of_takeSteps hs, congrArg (·.1) hobserve, hthread, hhanded, hflushed,
    fun hlossless => ?_⟩
  obtain ⟨left, haccounted, hfinished, _⟩ := hlossless.written LOG_ERROR
  rw [hfinished (Or.inr hthread), hhanded, hflushed] at haccounted
  cases haccounted

end Lossless

end Threads

end OtusCProg.Logger
