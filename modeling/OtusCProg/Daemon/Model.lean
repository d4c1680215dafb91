import OtusCProg.Library.CBuffer
import OtusCProg.Library.Runs
import OtusCProg.LogReader.Model
import Mathlib.Logic.Function.Basic

/-!
# The processes of `15_daemon` around their pid file

Every call that looks at or changes the file system or the processes is a step
of its own, so that the steps of other processes may come in between. `kill`
with signal 0 tells exactly whether a process is alive, and a pid is never used
again. The pid path is no symbolic link. Reading the file is one step;
`create_pid_file` is two, its `fopen` and its `fclose`, which writes the line.
-/

namespace OtusCProg.Daemon
open Library
open LogReader (fgets)

def INT_MAX : Nat := 2147483647

/-- The names of a file system, and the bytes of its files. -/
structure Files where
  dir : Text → Option Nat
  data : Nat → Text
  next : Nat
  fresh : ∀ {name file}, dir name = some file → file < next

namespace Files

/-- The bytes of a file; a missing file has none. -/
def contents (fs : Files) (name : Text) : Text := ((fs.dir name).map fs.data).getD []

def unlink (fs : Files) (name : Text) : Files where
  dir := Function.update fs.dir name none
  data := fs.data
  next := fs.next
  fresh := by
    intro other file h
    rw [Function.update_apply] at h
    split at h
    · cases h
    · exact fs.fresh h

/-- The bytes at the start of an open file are written over. -/
def write (fs : Files) (file : Nat) (bytes : Text) : Files :=
  { fs with
    data := Function.update fs.data file (bytes ++ (fs.data file).drop bytes.length) }

/-- A new file under a name that has none. -/
def create (fs : Files) (name : Text) : Files where
  dir := Function.update fs.dir name (some fs.next)
  data := Function.update fs.data fs.next []
  next := fs.next + 1
  fresh := by
    intro other file h
    rw [Function.update_apply] at h
    split at h
    · cases h
      exact Nat.lt_succ_self _
    · exact Nat.lt_succ_of_lt (fs.fresh h)

/-- `fopen(name, "w")`: the open file, empty. -/
def fopen (fs : Files) (name : Text) : Nat × Files :=
  match fs.dir name with
  | none => (fs.next, fs.create name)
  | some file => (file, { fs with data := Function.update fs.data file [] })

/-- After `fopen` the name is that of the open file, which is empty. -/
theorem fopen_spec (fs : Files) (name : Text) :
    (fs.fopen name).2.dir name = some (fs.fopen name).1 ∧
      (fs.fopen name).2.data (fs.fopen name).1 = [] := by
  unfold fopen
  split
  · exact ⟨Function.update_self .., Function.update_self ..⟩
  · rename_i hdir
    exact ⟨hdir, Function.update_self ..⟩

end Files

/-- Where a process of the daemon stands: the call it makes next. A process of another program is
`other`. -/
inductive Phase where
  | unborn
  | other
  | check_pid_file
  | kill (pid : Nat)
  | unlink
  | fork
  | setsid
  | fork2
  | chdir
  | create_pid_file
  | fprintf (file : Nat)
  | run_server
  | remove_pid_file
  | exit
  | dead
deriving DecidableEq

structure Process where
  phase : Phase
  daemonize_flag : Bool
  cwd : Text

/-- The configuration and the working directory all processes are started with; `locate` is the name
in the file system that a path stands for in a directory. -/
structure Setup where
  cwd : Text
  pid_path : Text
  locate : Text → Text → Text

structure State where
  files : Files
  procs : Nat → Process

/-- What `check_pid_file` makes of a file. -/
inductive Check where
  | free
  | malformed
  | pid (pid : Nat)
deriving DecidableEq

/-- The pid on a line; `ERANGE` comes with a number that is out of range. -/
def parse_pid (buf : Text) : Check :=
  let (pid_long, endptr) := strtol buf
  if endptr = buf ∨ (endptr.head? ≠ some 10 ∧ endptr ≠ []) ∨ pid_long ≤ 0 ∨
      pid_long > INT_MAX then
    .malformed
  else .pid pid_long.toNat

/-- `check_pid_file` up to `kill`, from the bytes of the file. -/
def read_pid_file (bytes : Text) : Check :=
  let buf := (fgets (32 - 1) bytes).1
  if buf = [] then .free else parse_pid (cstr buf)

/-- What `create_pid_file` prints. -/
def pid_line (pid : Nat) : Text := decimal pid ++ [10]

namespace State

def put (s : State) (p : Nat) (process : Process) : State :=
  { s with procs := Function.update s.procs p process }

def move (s : State) (p : Nat) (phase : Phase) : State := s.put p { s.procs p with phase }

def phase (s : State) (p : Nat) : Phase := (s.procs p).phase

/-- `kill(p, 0) == 0` -/
def alive (s : State) (p : Nat) : Prop := s.phase p ≠ .unborn ∧ s.phase p ≠ .dead

instance (s : State) (p : Nat) : Decidable (s.alive p) := inferInstanceAs (Decidable (_ ∧ _))

/-- The pid can be given to a new process. -/
def unused (s : State) (p : Nat) : Prop := s.phase p = .unborn ∧ 0 < p ∧ p ≤ INT_MAX

instance (s : State) (p : Nat) : Decidable (s.unused p) := inferInstanceAs (Decidable (_ ∧ _ ∧ _))

/-- The name the pid path stands for in the directory of the process. -/
def pid_file (setup : Setup) (s : State) (p : Nat) : Text :=
  setup.locate (s.procs p).cwd setup.pid_path

/-- What the pid file holds for the process. -/
def pid_contents (setup : Setup) (s : State) (p : Nat) : Text :=
  s.files.contents (s.pid_file setup p)

/-- `check_pid_file` has returned 0. -/
def pass (s : State) (p : Nat) : State :=
  s.move p (if (s.procs p).daemonize_flag then .fork else .create_pid_file)

/-- `fork`: the parent exits and the child goes on; without a child the process exits. -/
def fork (s : State) (p : Nat) (next : Phase) : Option Nat → Except Unit State
  | none => .ok (s.move p .exit)
  | some child =>
      if s.unused child then
        .ok ((s.move p .exit).put child { s.procs p with phase := next })
      else .error ()

end State

/-- The steps of the processes, with the answers of the system: whether a call succeeds, the pid of
a child, the number of bytes written. A process may be killed at any time. -/
inductive Event where
  | start (p : Nat) (daemonize_flag : Bool)
  | other (p : Nat)
  | die (p : Nat)
  | read (p : Nat) (ok : Bool)
  | kill (p : Nat)
  | unlink (p : Nat) (ok : Bool)
  | fork (p : Nat) (child : Option Nat)
  | setsid (p : Nat) (ok : Bool)
  | chdir (p : Nat) (ok : Bool)
  | create (p : Nat) (ok : Bool)
  | write (p n : Nat)
  | finish (p : Nat)
  | remove (p : Nat) (ok : Bool)

/-- A step of a process that does not stand before it is an error. -/
def step (setup : Setup) (s : State) : Event → Except Unit State
  | .start p daemonize_flag =>
      if s.unused p then .ok (s.put p ⟨.check_pid_file, daemonize_flag, setup.cwd⟩)
      else .error ()
  | .other p => if s.unused p then .ok (s.move p .other) else .error ()
  | .die p => if s.alive p then .ok (s.move p .dead) else .error ()
  | .read p ok =>
      if s.phase p = .check_pid_file then
        match read_pid_file (if ok then s.pid_contents setup p else []) with
        | .free => .ok (s.pass p)
        | .malformed => .ok (s.move p .exit)
        | .pid pid => .ok (s.move p (.kill pid))
      else .error ()
  | .kill p =>
      match s.phase p with
      | .kill pid => .ok (s.move p (if s.alive pid then .exit else .unlink))
      | _ => .error ()
  | .unlink p ok =>
      if s.phase p = .unlink then
        let files := if ok then s.files.unlink (s.pid_file setup p) else s.files
        .ok ({ s with files }.pass p)
      else .error ()
  | .fork p child =>
      match s.phase p with
      | .fork => s.fork p .setsid child
      | .fork2 => s.fork p .chdir child
      | _ => .error ()
  | .setsid p ok =>
      if s.phase p = .setsid then .ok (s.move p (if ok then .fork2 else .exit)) else .error ()
  | .chdir p ok =>
      if s.phase p = .chdir then
        .ok (if ok then s.put p { s.procs p with phase := .create_pid_file, cwd := text "/" }
          else s.move p .exit)
      else .error ()
  | .create p ok =>
      if s.phase p = .create_pid_file then
        if ok then
          let (file, files) := s.files.fopen (s.pid_file setup p)
          .ok ({ s with files }.move p (.fprintf file))
        else .ok (s.move p .exit)
      else .error ()
  | .write p n =>
      match s.phase p with
      | .fprintf file =>
          .ok ({ s with files := s.files.write file ((pid_line p).take n) }.move p .run_server)
      | _ => .error ()
  | .finish p =>
      if s.phase p = .run_server then .ok (s.move p .remove_pid_file) else .error ()
  | .remove p ok =>
      if s.phase p = .remove_pid_file then
        let files := if ok then s.files.unlink (s.pid_file setup p) else s.files
        .ok ({ s with files }.move p .exit)
      else .error ()

/-- No process runs, and the file system is any. -/
def initial (files : Files) : State := ⟨files, fun _ => ⟨.unborn, false, []⟩⟩

/-- At most one process is inside `run_server`. -/
def SingleInstance (s : State) : Prop :=
  ∀ p q, s.phase p = .run_server → s.phase q = .run_server → p = q

end OtusCProg.Daemon
