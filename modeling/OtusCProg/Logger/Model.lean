import OtusCProg.Library.CText
import OtusCProg.Library.LinkedChain

/-!
# The logging library of `12_error_handling`

The static data of `logger.c`, its functions, and the system of one client
thread and the writer threads. Every critical section of a mutex is one step;
a writer holds its mutex during the whole final drain. A byte counts as
written when it is handed to `fwrite`, and memory is assumed to be available.
-/

namespace OtusCProg.Logger
open Library

def LOG_ERROR : Int := 3
def LOG_WARNING : Int := 4
def LOG_INFO : Int := 6
def LOG_DEBUG : Int := 7

def MAX_ENV_PREFIX : Nat := 64

/-- Where `fwrite` may send bytes. -/
inductive Sink where
  | stderr
  | stdout
  | file (name : Text)
deriving DecidableEq

/-- One `fwrite` of a message: its level, the sink, the text, and what is put behind the text. -/
structure Write where
  level : Int
  sink : Sink
  text : Text
  trailer : Text
deriving DecidableEq

/-- Where a writer thread stands; `none` before it is created and after it is joined. -/
inductive Writer where
  | none
  | ready
  | asleep
  | writing (msg : Nat)
  | draining
  | ended
deriving DecidableEq

/-- `struct async_logger`, with its thread and the `log_message_t` nodes of its queue. -/
structure AsyncLogger where
  file : Option Sink
  thread : Writer
  nodes : Heap Text
  queue_head : Option Nat
  queue_tail : Option Nat
  running : Bool
  level : Int

/-- Why a step does not happen: it has to wait, or it follows a pointer to no live node. -/
inductive Halt where
  | blocked
  | dangling
deriving DecidableEq

namespace AsyncLogger

/-- `pthread_cond_signal` -/
def signal (logger : AsyncLogger) : AsyncLogger :=
  if logger.thread = .asleep then { logger with thread := .ready } else logger

/-- `async_logger_enqueue`, where `malloc` returns the address `msg`. -/
def enqueue (logger : AsyncLogger) (msg : Nat) (msg_text : Text) : Except Halt AsyncLogger :=
  if logger.thread = .draining ∨ (logger.nodes msg).isSome then .error .blocked
  else
    match logger.queue_tail with
    | some tail =>
        match logger.nodes tail with
        | some last =>
            .ok (signal { logger with
              nodes := linkAfter logger.nodes tail msg last.value msg_text
              queue_tail := some msg })
        | none => .error .dangling
    | none =>
        .ok (signal { logger with
          nodes := Function.update logger.nodes msg (some ⟨msg_text, none⟩)
          queue_head := some msg
          queue_tail := some msg })

/-- The next step of `async_writer_thread`, and the text it writes in that step. -/
def async_writer_thread (logger : AsyncLogger) : Except Halt (AsyncLogger × Option Text) :=
  match logger.thread with
  | .none => .error .blocked
  | .asleep => .error .blocked
  | .ended => .error .blocked
  | .ready =>
      if logger.running then
        match logger.queue_head with
        | none => .ok ({ logger with thread := .asleep }, none)
        | some msg =>
            match logger.nodes msg with
            | none => .error .dangling
            | some node =>
                .ok ({ logger with
                  thread := .writing msg
                  queue_head := node.next
                  queue_tail := if node.next = none then none else logger.queue_tail }, none)
      else .ok ({ logger with thread := .draining }, none)
  | .writing msg =>
      match logger.nodes msg with
      | none => .error .dangling
      | some node =>
          .ok ({ logger with
            thread := .ready
            nodes := Function.update logger.nodes msg none }, some node.value)
  | .draining =>
      match logger.queue_head with
      | none => .ok ({ logger with thread := .ended }, none)
      | some msg =>
          match logger.nodes msg with
          | none => .error .dangling
          | some node =>
              .ok ({ logger with
                queue_head := node.next
                nodes := Function.update logger.nodes msg none }, some node.value)

/-- `pthread_cond_wait` may return without a signal. -/
def wakeup (logger : AsyncLogger) : Except Halt AsyncLogger :=
  if logger.thread = .asleep then .ok { logger with thread := .ready } else .error .blocked

/-- The critical section of `destroy_async_logger`. -/
def stop (logger : AsyncLogger) : Except Halt AsyncLogger :=
  if logger.thread = .draining then .error .blocked
  else .ok (signal { logger with running := false })

/-- The rest of `destroy_async_logger`, from `pthread_join` on. -/
def join (logger : AsyncLogger) : Except Halt AsyncLogger :=
  if logger.thread = .ended then .ok { logger with file := none, thread := .none }
  else .error .blocked

end AsyncLogger

/-- The static data of the library, and everything it has written so far. -/
structure Globals where
  env_prefix : Text
  logging_enabled : Bool
  current_level : Int
  common_file : Option Sink
  async_loggers : Int → AsyncLogger
  initialized : Bool
  written : List Write
  diagnostics : List Text

/-- A zeroed element of `async_loggers`. -/
def AsyncLogger.zero : AsyncLogger :=
  { file := none, thread := .none, nodes := fun _ => none, queue_head := none, queue_tail := none,
    running := false, level := 0 }

def Globals.initial : Globals :=
  { env_prefix := [], logging_enabled := false, current_level := LOG_ERROR, common_file := none,
    async_loggers := fun _ => .zero, initialized := false, written := [], diagnostics := [] }

/-- What the library asks of the system: the environment, whether a file opens
for appending (else the text of `errno`), and whether a thread starts. -/
structure Environment where
  getenv : Text → Option Text
  fopen : Text → Except Text Unit
  pthread_create : Int → Bool

section Init
variable (env : Environment) (g : Globals)

def make_env_name (suffix : Text) : Text := (g.env_prefix ++ suffix).take 255

def get_env_with_prefix (suffix : String) : Option Text :=
  env.getenv (make_env_name g (text suffix))

/-- The variable, when it is set and not empty. -/
def configured (suffix : String) : Option Text :=
  Option.filter (· ≠ []) <| get_env_with_prefix env g suffix

def is_valid_level (level : Int) : Bool :=
  level = LOG_ERROR || level = LOG_WARNING || level = LOG_INFO || level = LOG_DEBUG

def level_from_string (str : Text) : Int :=
  if str = text "error" ∨ str = text "ERROR" then LOG_ERROR
  else if str = text "warning" ∨ str = text "WARNING" then LOG_WARNING
  else if str = text "info" ∨ str = text "INFO" then LOG_INFO
  else if str = text "debug" ∨ str = text "DEBUG" then LOG_DEBUG
  else
    let (val, rest) := strtol str
    let level := MachineInt.toSigned 32 val
    if rest = [] ∧ is_valid_level level then level else LOG_ERROR

def check_logging_enabled : Bool :=
  match get_env_with_prefix env g "LOGGING_ENABLED" with
  | none => false
  | some value => strcaseeq value (text "1") || strcaseeq value (text "true")

/-- Replace one element of `async_loggers`. -/
def Globals.setLogger (g : Globals) (level : Int) (logger : AsyncLogger) : Globals :=
  { g with async_loggers := Function.update g.async_loggers level logger }

/-- The logger that `create_async_logger` has prepared when it opens the file. -/
def fresh_logger (level : Int) : AsyncLogger :=
  { g.async_loggers level with
    level := level, running := true, queue_head := none, queue_tail := none }

def create_async_logger (level : Int) (filename : Text) : Globals :=
  if level < 0 ∨ 8 ≤ level then g
  else
    match env.fopen filename with
    | .error err =>
        { g.setLogger level { fresh_logger g level with file := none } with
          diagnostics := g.diagnostics ++
            [text "logger: невозможно открыть '" ++ filename ++ text "' для уровня " ++
              decimal level ++ text ": " ++ err ++ text ", используя общий файл журнала\n"] }
    | .ok _ =>
        if env.pthread_create level then
          g.setLogger level { fresh_logger g level with file := some (.file filename), thread := .ready }
        else g.setLogger level { fresh_logger g level with file := none }

def valid_levels : List Int := [LOG_ERROR, LOG_WARNING, LOG_INFO, LOG_DEBUG]

def suffix_of (lvl : Int) : String :=
  if lvl = LOG_ERROR then "ERROR_LOG_FILE"
  else if lvl = LOG_WARNING then "WARNING_LOG_FILE"
  else if lvl = LOG_INFO then "INFO_LOG_FILE"
  else "DEBUG_LOG_FILE"

/-- One turn of the loop of `do_init`. -/
def init_level (lvl : Int) : Globals :=
  match configured env g (suffix_of lvl) with
  | some filename => create_async_logger env g lvl filename
  | none => g

/-- Open the common file of the library. -/
def init_common : Globals :=
  match configured env g "LOG_FILE" with
  | none => { g with common_file := some .stderr }
  | some name =>
      match env.fopen name with
      | .ok _ => { g with common_file := some (.file name) }
      | .error err =>
          { g with
            common_file := some .stderr
            diagnostics := g.diagnostics ++
              [text "logger: невозможно открыть LOG_FILE '" ++ name ++ text "': " ++ err ++
                text ", будет использован stderr\n"] }

/-- Read the level of the library. -/
def init_threshold : Globals :=
  match configured env g "LOG_LEVEL" with
  | none => g
  | some str => { g with current_level := level_from_string str }

def do_init : Globals :=
  if g.initialized then g
  else if check_logging_enabled env g then
    let g := init_threshold env (init_common env { g with logging_enabled := true })
    { valid_levels.foldl (init_level env) g with initialized := true }
  else { g with logging_enabled := false, initialized := true }

def logger_set_env_prefix (pre : Option Text) : Globals :=
  if g.initialized then g
  else { g with env_prefix := (pre.getD []).take (MAX_ENV_PREFIX - 1) }

def logger_init : Globals := if g.initialized then g else do_init env g

def logger_set_level (level : Int) : Globals :=
  if level = LOG_ERROR ∨ level = LOG_WARNING ∨ level = LOG_INFO ∨ level = LOG_DEBUG then
    { g with current_level := level }
  else g

end Init

/-- One call of `logger_log`: its arguments, the text its format gives, and the time. -/
structure Call where
  level : Int
  file : Text
  line : Int
  func : Text
  user_msg : Text
  time_buf : Text

def level_str (level : Int) : Text :=
  if level = LOG_ERROR then text "ERROR"
  else if level = LOG_WARNING then text "WARNING"
  else if level = LOG_INFO then text "INFO"
  else if level = LOG_DEBUG then text "DEBUG"
  else text "UNKNOWN"

def format_log_message (call : Call) : Text :=
  if call.level = LOG_INFO then
    call.time_buf ++ text " [" ++ level_str call.level ++ text "] " ++ call.user_msg
  else
    call.time_buf ++ text " [" ++ level_str call.level ++ text "] " ++ call.file ++ text ":" ++
      decimal call.line ++ text " " ++ call.func ++ text "(): " ++ call.user_msg

/-- `get_stack_trace_string`, where `symbols` is the answer of `backtrace_symbols`. -/
def get_stack_trace_string (symbols : Option (List Text)) : Option Text :=
  symbols.map fun names =>
    text "\nСтек вызовов:\n" ++ names.flatMap fun name => text "  " ++ name ++ text "\n"

/-- What stands behind the text in a file or on `stderr`. -/
def file_trailer (current_level : Int) (symbols : Option (List Text)) : Text :=
  if current_level = LOG_DEBUG then (get_stack_trace_string symbols).getD [] ++ text "\n"
  else text "\n"

def write_single_log_message (g : Globals) (symbols : Option (List Text)) (file : Option Sink)
    (level : Int) (msg : Text) : Globals :=
  match file with
  | none => g
  | some file =>
      if level = LOG_INFO ∧ g.common_file = some .stderr then
        { g with written := g.written ++
            [⟨level, .stdout, msg, if (13 : UInt8) ∈ msg then [] else text "\n"⟩] }
      else
        { g with written := g.written ++ [⟨level, file, msg, file_trailer g.current_level symbols⟩] }

/-- `logger_log`; `msg` is the address of a new node, `symbols` the stack. -/
def logger_log (env : Environment) (msg : Nat) (symbols : Option (List Text)) (g : Globals)
    (call : Call) : Except Halt Globals :=
  let g := if g.initialized then g else do_init env g
  if ¬g.logging_enabled then .ok g
  else if call.level > g.current_level then .ok g
  else
    let msg_text := format_log_message call
    if 0 ≤ call.level ∧ call.level < 8 ∧ (g.async_loggers call.level).file.isSome then
      (g.async_loggers call.level).enqueue msg msg_text |>.map (g.setLogger call.level)
    else .ok (write_single_log_message g symbols g.common_file call.level msg_text)

/-- What the client thread does, one step at a time. -/
inductive Action where
  | logger_init
  | logger_set_level (level : Int)
  | logger_log (call : Call)
  | logger_shutdown
  | destroy_async_logger (level : Int)
  | pthread_join (level : Int)
  | close_common

/-- The end of `logger_shutdown`. -/
def close_common (g : Globals) : Globals :=
  { g with
    common_file := if g.common_file = some .stderr then g.common_file else none
    initialized := false }

/-- Perform one action: the new data, and what the action has the thread do next. -/
def perform (env : Environment) (msg : Nat) (symbols : Option (List Text)) (g : Globals) :
    Action → Except Halt (Globals × List Action)
  | .logger_init => .ok (logger_init env g, [])
  | .logger_set_level level => .ok (logger_set_level g level, [])
  | .logger_log call => (logger_log env msg symbols g call).map (·, [])
  | .logger_shutdown =>
      if g.initialized then .ok (g, valid_levels.map .destroy_async_logger ++ [.close_common])
      else .ok (g, [])
  | .destroy_async_logger level =>
      if (g.async_loggers level).file = none then .ok (g, [])
      else (g.async_loggers level).stop.map fun l => (g.setLogger level l, [.pthread_join level])
  | .pthread_join level => (g.async_loggers level).join.map fun l => (g.setLogger level l, [])
  | .close_common => .ok (close_common g, [])

/-- The client thread with what it has left to do, and the data. -/
structure System where
  globals : Globals
  todo : List Action

/-- Which thread moves, with the answers of `malloc` and `backtrace_symbols`. -/
inductive Event where
  | client (msg : Nat) (symbols : Option (List Text))
  | writer (level : Int) (symbols : Option (List Text))
  | wakeup (level : Int)

/-- Move the writer of a level, and write the text it hands out. -/
def moveWriter (g : Globals) (level : Int) (symbols : Option (List Text)) : Except Halt Globals :=
  (g.async_loggers level).async_writer_thread.map fun (logger, out) =>
    match out with
    | none => g.setLogger level logger
    | some msg => write_single_log_message (g.setLogger level logger) symbols logger.file logger.level msg

def step (env : Environment) (s : System) : Event → Except Halt System
  | .client msg symbols =>
      match s.todo with
      | [] => .error .blocked
      | action :: rest =>
          (perform env msg symbols s.globals action).map fun (g, next) => ⟨g, next ++ rest⟩
  | .writer level symbols => (moveWriter s.globals level symbols).map fun g => { s with globals := g }
  | .wakeup level =>
      (s.globals.async_loggers level).wakeup.map fun l =>
        { s with globals := s.globals.setLogger level l }

/-- The states of all runs from `s`. -/
inductive Reachable (env : Environment) (s : System) : System → Prop where
  | refl : Reachable env s s
  | tail {t u : System} {e : Event} : Reachable env s t → step env t e = .ok u → Reachable env s u

end OtusCProg.Logger
