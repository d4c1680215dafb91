import OtusCProg.Library.CText
import OtusCProg.Library.Custody
import Mathlib.Data.Finset.Insert

/-!
# The socket server of the daemon

`run_server` with the descriptors it opens, the copy it makes of its path, and the
handler it leaves for `exit`. The kernel reports one event after the other while
`accept` waits. A signal only clears `keep_running`; the `accept` it interrupts
fails. A `send` to a client that is gone raises `SIGPIPE`, which nothing handles.
`sigaction` with these arguments does not fail, nor does `atexit`, which has room
for 32 handlers while the process registers two.
-/

namespace OtusCProg.Daemon
open Library

/-- What `run_server` holds: the copy in `g_socket_path` and its descriptors. -/
inductive Handle where
  | g_socket_path
  | server_fd
  | client_fd (n : Nat)
deriving DecidableEq, Repr

/-- No handle needs another one. -/
def Handle.depends : Handle → List Handle := fun _ => []

/-- What happens while `accept` waits: a signal, a failure, or a client, with what `stat` says of
the file and how many bytes of the response `send` takes: none where it fails, and no number where
the client is gone. -/
inductive SocketEvent where
  | signal
  | failed
  | client (stat : Except Text Int) (taken : Option Nat)

/-- The calls that succeed: those in front of the loop, with the `unlink` of an old socket, and the
`unlink` of the new one behind it or behind a `listen` that fails; and whether a signal comes before
the loop begins. -/
structure Opening where
  strdup : Bool
  socket : Bool
  unlink_old : Bool
  bind : Bool
  listen : Bool
  unlink_new : Bool
  signalled : Bool

/-- The server so far: what `send` took, one text for each client, what it told `perror`, the names of
sockets, whether `cleanup_socket` is registered, and its handles. -/
structure Server where
  keep_running : Bool
  sent : List Text
  errors : List Text
  names : Finset Text
  registered : Bool
  history : List (Custody Handle)

/-- How the call of `run_server` stands. -/
inductive Ending where
  | returned (ret : Int)
  | waiting
  | killed
deriving DecidableEq, Repr

/-- `sizeof(response)` is 256. -/
def response (stat : Except Text Int) : Text :=
  match stat with
  | .ok size => (decimal size ++ [10]).take 255
  | .error message => (text "error: " ++ message ++ [10]).take 255

namespace Server

def start (names : Finset Text) : Server := ⟨true, [], [], names, false, []⟩

def note (s : Server) (e : Custody Handle) : Server := { s with history := s.history ++ [e] }

def perror (s : Server) (call : String) : Server := { s with errors := s.errors ++ [text call] }

def unlink (succeeds : Bool) (s : Server) (name : Text) : Server :=
  if succeeds then { s with names := s.names.erase name } else s

/-- The label `except`. -/
def except (s : Server) : Ending × Server := (.returned (-1), s.note (.release .g_socket_path))

/-- The end of `run_server` behind the loop. -/
def finish (k : Opening) (socket_path : Text) (s : Server) : Ending × Server :=
  (.returned 0,
    ((s.note (.release .server_fd)).unlink k.unlink_new socket_path).note (.release .g_socket_path))

/-- `accept` returns a descriptor, and `send` writes to it. -/
def accepted (s : Server) : Server :=
  (s.note (.acquire (.client_fd s.sent.length))).note (.use (.client_fd s.sent.length))

/-- What `send` takes of the response is sent, and the descriptor is closed. -/
def answered (stat : Except Text Int) (taken : Nat) (s : Server) : Server :=
  { s.note (.release (.client_fd s.sent.length)) with sent := s.sent ++ [(response stat).take taken] }

/-- The loop, from an `accept` that waits. -/
def serve (k : Opening) (socket_path : Text) : List SocketEvent → Server → Ending × Server
  | [], s => (.waiting, s)
  | .signal :: events, s => serve k socket_path events { s with keep_running := false }
  | .failed :: events, s =>
      if s.keep_running then serve k socket_path events (s.perror "accept")
      else s.finish k socket_path
  | .client stat (some taken) :: events, s =>
      let s := s.accepted.answered stat taken
      if s.keep_running then serve k socket_path events s else s.finish k socket_path
  | .client _ none :: _, s => (.killed, s.accepted)

/-- The name that `bind` makes; `sun_path` has room for so many bytes and a terminator. -/
def bound (room : Nat) (socket_path : Text) : Text := socket_path.take room

def run_server (k : Opening) (room : Nat) (socket_path : Text) (events : List SocketEvent)
    (s : Server) : Ending × Server :=
  if !k.strdup then (.returned (-1), s.perror "strdup")
  else
    let s := s.note (.acquire .g_socket_path)
    if !k.socket then (s.perror "socket").except
    else
      let s := (s.note (.acquire .server_fd)).unlink k.unlink_old socket_path
      if !k.bind ∨ bound room socket_path ∈ s.names then
        ((s.perror "bind").note (.release .server_fd)).except
      else
        let s := { s with names := insert (bound room socket_path) s.names }
        if !k.listen then
          (((s.perror "listen").note (.release .server_fd)).unlink k.unlink_new socket_path).except
        else
          let s := { s with registered := true, keep_running := !k.signalled }
          if s.keep_running then serve k socket_path events s else s.finish k socket_path

/-- `exit` runs `cleanup_socket` where it is registered; `freed` is what it finds at the pointer. -/
def run_handlers (unlinks : Bool) (freed : Text) (s : Server) : Server :=
  if s.registered then (s.note (.use .g_socket_path)).unlink unlinks freed else s

/-- What the clients of some events get, as far as `send` takes the response to each. -/
def answers (events : List SocketEvent) : List Text :=
  events.filterMap fun event =>
    match event with
    | .client stat (some taken) => some ((response stat).take taken)
    | _ => none

/-- What the process holds: nothing when `run_server` has returned. -/
def holds (clients : Nat) : Ending → Finset Handle
  | .returned _ => ∅
  | .waiting => {.server_fd, .g_socket_path}
  | .killed => {.client_fd clients, .server_fd, .g_socket_path}

/-- The names behind the loop. -/
def unlinked (k : Opening) (socket_path : Text) (names : Finset Text) : Finset Text :=
  if k.unlink_new then names.erase socket_path else names

/-- How the loop stands that began at `s`. -/
structure Serves (k : Opening) (socket_path : Text) (events : List SocketEvent) (s : Server)
    (r : Ending × Server) : Prop where
  held : Custody.replay Handle.depends r.2.history = some (holds r.2.sent.length r.1)
  sent : ∃ handled, handled <+: answers events ∧ r.2.sent = s.sent ++ handled ∧
    (r.1 = .waiting → handled = answers events)
  registered : r.2.registered = s.registered
  ret : ∀ ret, r.1 = .returned ret → ret = 0 ∧ r.2.names = unlinked k socket_path s.names

@[simp] theorem history_unlink (succeeds : Bool) (s : Server) (name : Text) :
    (s.unlink succeeds name).history = s.history := by
  cases succeeds <;> rfl

@[simp] theorem sent_unlink (succeeds : Bool) (s : Server) (name : Text) :
    (s.unlink succeeds name).sent = s.sent := by
  cases succeeds <;> rfl

@[simp] theorem registered_unlink (succeeds : Bool) (s : Server) (name : Text) :
    (s.unlink succeeds name).registered = s.registered := by
  cases succeeds <;> rfl

theorem names_unlink (k : Opening) (s : Server) (socket_path : Text) :
    (s.unlink k.unlink_new socket_path).names = unlinked k socket_path s.names := by
  rw [unlink, unlinked]
  split <;> rfl

section Loop
variable {k : Opening} {socket_path : Text} {events : List SocketEvent} {s : Server}

theorem finish_serves {handled : List Text} {s' : Server}
    (hheld : Custody.replay Handle.depends s'.history = some {.server_fd, .g_socket_path})
    (hhandled : handled <+: answers events) (hsent : s'.sent = s.sent ++ handled)
    (hnames : s'.names = s.names) (hregistered : s'.registered = s.registered) :
    Serves k socket_path events s (s'.finish k socket_path) := by
  have hclosed : Custody.replay Handle.depends (s'.history ++ [.release .server_fd]) =
      some (insert .g_socket_path ∅) :=
    Custody.replay_release hheld (by simp) (by simp [Handle.depends])
  have hfreed : Custody.replay Handle.depends
      (s'.history ++ [.release .server_fd] ++ [.release .g_socket_path]) = some ∅ :=
    Custody.replay_release hclosed (Finset.notMem_empty _) (by simp [Handle.depends])
  refine ⟨?_, ⟨handled, hhandled, ?_, by simp [finish]⟩, ?_, ?_⟩
  · simpa [finish, note, holds] using hfreed
  · simpa [finish, note] using hsent
  · simpa [finish, note] using hregistered
  · intro ret hret
    refine ⟨(Ending.returned.inj hret).symm, ?_⟩
    calc
      _ = ((s'.note (.release .server_fd)).unlink k.unlink_new socket_path).names := rfl
      _ = unlinked k socket_path s'.names := names_unlink ..
      _ = unlinked k socket_path s.names := by rw [hnames]

/-- The loop serves its clients one after the other, and closes each before the next. -/
theorem serve_serves (hheld : Custody.replay Handle.depends s.history =
    some {.server_fd, .g_socket_path}) :
    Serves k socket_path events s (s.serve k socket_path events) := by
  induction events generalizing s with
  | nil =>
      refine ⟨hheld, ⟨[], List.prefix_rfl, by simp [serve], by simp [answers]⟩, rfl, ?_⟩
      simp [serve]
  | cons event events ih =>
      cases event with
      | signal =>
          have hrest := ih (s := { s with keep_running := false }) hheld
          exact ⟨hrest.held, hrest.sent, hrest.registered, hrest.ret⟩
      | failed =>
          rw [serve]
          split
          · have hrest := ih (s := s.perror "accept") hheld
            exact ⟨hrest.held, hrest.sent, hrest.registered, hrest.ret⟩
          · exact finish_serves hheld List.nil_prefix (by simp) rfl rfl
      | client stat taken =>
          have hopened : Custody.replay Handle.depends s.accepted.history =
              some (insert (.client_fd s.sent.length) {.server_fd, .g_socket_path}) :=
            Custody.replay_use (Custody.replay_acquire hheld (by simp) (by simp [Handle.depends]))
              (Finset.mem_insert_self ..)
          cases taken with
          | none =>
              exact ⟨hopened, ⟨[], List.nil_prefix, by simp [serve, accepted, note], by simp [serve]⟩, rfl,
                by simp [serve]⟩
          | some taken =>
              have hclosed : Custody.replay Handle.depends (s.accepted.answered stat taken).history =
                  some {.server_fd, .g_socket_path} :=
                Custody.replay_release hopened (by simp) (by simp [Handle.depends])
              have hanswers : answers (.client stat (some taken) :: events) =
                  (response stat).take taken :: answers events := rfl
              rw [serve]
              split
              · have hrest := ih hclosed
                obtain ⟨handled, hhandled, hsent, hall⟩ := hrest.sent
                refine ⟨hrest.held, ⟨(response stat).take taken :: handled, ?_, ?_, ?_⟩,
                  hrest.registered, hrest.ret⟩
                · rw [hanswers]
                  exact (List.prefix_cons_inj _).mpr hhandled
                · rw [hsent, List.append_cons]
                  rfl
                · intro hwaiting
                  rw [hall hwaiting, hanswers]
              · have hfirst : [(response stat).take taken] <+:
                    answers (.client stat (some taken) :: events) :=
                  (List.prefix_cons_inj _).mpr List.nil_prefix
                exact finish_serves hclosed hfirst rfl rfl rfl

/-- The loop goes on where it waits. -/
theorem serve_append (front events : List SocketEvent) (s : Server) :
    s.serve k socket_path (front ++ events) =
      if (s.serve k socket_path front).1 = .waiting then
        (s.serve k socket_path front).2.serve k socket_path events
      else s.serve k socket_path front := by
  induction front generalizing s with
  | nil => rfl
  | cons event front ih =>
      rw [List.cons_append]
      cases event with
      | signal => exact ih _
      | failed =>
          rw [serve, serve]
          split
          · exact ih _
          · rfl
      | client stat taken =>
          cases taken with
          | none => rfl
          | some taken =>
              rw [serve, serve]
              split
              · exact ih _
              · rfl

/-- Behind a signal, what `accept` returns next is the last. -/
theorem serve_last (event : SocketEvent) (hevent : event ≠ .signal) (hstop : s.keep_running = false) :
    (s.serve k socket_path (event :: events)).1 ≠ .waiting ∧
      s.serve k socket_path (event :: events) = s.serve k socket_path [event] := by
  cases event with
  | signal => exact absurd rfl hevent
  | failed =>
      rw [serve, serve, hstop]
      exact ⟨Ending.noConfusion, rfl⟩
  | client stat taken =>
      cases taken with
      | none => exact ⟨Ending.noConfusion, rfl⟩
      | some taken =>
          have hstopped : (s.accepted.answered stat taken).keep_running = false := hstop
          rw [serve, serve, hstopped]
          exact ⟨Ending.noConfusion, rfl⟩

end Loop

section Life
variable (k : Opening) (room : Nat) (socket_path : Text) (names : Finset Text)

/-- The names when the loop begins. -/
def listening : Finset Text :=
  insert (bound room socket_path) (if k.unlink_old then names.erase socket_path else names)

/-- The socket is open, under its name if it could be made. -/
def socketed : Server :=
  (((start names).note (.acquire .g_socket_path)).note (.acquire .server_fd)).unlink k.unlink_old socket_path

/-- The server when the loop begins. -/
def ready : Server :=
  { socketed k socket_path names with
    names := listening k room socket_path names
    registered := true
    keep_running := !k.signalled }

/-- How a call of `run_server` stands in front of the loop: it failed, or it comes to the loop, which a
signal may have ended before it begins. -/
inductive Opened : Prop
  | failed (s : Server) (hrun : ∀ events, run_server k room socket_path events (start names) =
        (.returned (-1), s))
      (hheld : Custody.replay Handle.depends s.history = some ∅) (hsent : s.sent = [])
      (hregistered : s.registered = false)
  | loops (hrun : ∀ events, run_server k room socket_path events (start names) =
        if k.signalled then (ready k room socket_path names).finish k socket_path
        else (ready k room socket_path names).serve k socket_path events)

theorem run_server_opened : Opened k room socket_path names := by
  obtain ⟨strdup, socket, unlink_old, bind, listen, unlink_new, signalled⟩ := k
  cases strdup with
  | false => exact .failed _ (fun _ => rfl) rfl rfl rfl
  | true =>
      cases socket with
      | false => exact .failed _ (fun _ => rfl) rfl rfl rfl
      | true =>
          by_cases hbind : (!bind) = true ∨ bound room socket_path ∈
              (socketed ⟨true, true, unlink_old, bind, listen, unlink_new, signalled⟩ socket_path names).names
          · refine .failed _ (fun _ => if_pos hbind) ?_ ?_ ?_
            all_goals cases unlink_old <;> rfl
          · cases listen with
            | false =>
                refine .failed _ (fun _ => if_neg hbind) ?_ ?_ ?_
                all_goals cases unlink_old <;> cases unlink_new <;> rfl
            | true =>
                refine .loops fun events => (if_neg hbind).trans ?_
                cases unlink_old <;> cases signalled <;> rfl

theorem ready_held : Custody.replay Handle.depends (ready k room socket_path names).history =
    some {.server_fd, .g_socket_path} := by
  have hhistory : (ready k room socket_path names).history =
      [.acquire .g_socket_path, .acquire .server_fd] := history_unlink ..
  rw [hhistory]
  rfl

/-- The loop, begun or not, keeps what `Serves` says. -/
theorem run_server_serves (events : List SocketEvent) {r : Ending × Server}
    (hr : r = if k.signalled then (ready k room socket_path names).finish k socket_path
      else (ready k room socket_path names).serve k socket_path events) :
    Serves k socket_path events (ready k room socket_path names) r := by
  have hheld := ready_held k room socket_path names
  rw [hr]
  split
  · exact finish_serves hheld List.nil_prefix (by simp) rfl rfl
  · exact serve_serves hheld

/-- The name that `bind` made is still there behind the loop if and only if `unlink` failed or the
path did not fit. -/
theorem bound_mem_iff : bound room socket_path ∈
    unlinked k socket_path (listening k room socket_path names) ↔
      k.unlink_new = false ∨ room < socket_path.length := by
  have hfits : bound room socket_path ≠ socket_path ↔ room < socket_path.length := by
    rw [bound, ne_eq, List.take_eq_self_iff, not_le]
  rw [unlinked, listening]
  cases k.unlink_new with
  | false => simp
  | true => simp [hfits]

/-- The handler that `run_server` leaves for `exit` reads its path, which is freed by then, if and
only if `run_server` returned 0. -/
theorem exit_touches_freed_path (events : List SocketEvent) (unlinks : Bool) (freed : Text) :
    let r := run_server k room socket_path events (start names)
    Custody.replay Handle.depends (r.2.run_handlers unlinks freed).history = none ↔
      r.1 = .returned 0 := by
  intro r
  rcases run_server_opened k room socket_path names with ⟨s, hrun, hheld, -, hregistered⟩ | ⟨hrun⟩
  · have hr : r = (.returned (-1), s) := hrun events
    have hquiet : s.run_handlers unlinks freed = s := by
      rw [run_handlers, hregistered]
      rfl
    simp [hr, hquiet, hheld]
  · have hserves : Serves k socket_path events (ready k room socket_path names) r :=
      run_server_serves k room socket_path names events (hrun events)
    have hregistered : r.2.registered = true := hserves.registered
    have hhistory : (r.2.run_handlers unlinks freed).history = r.2.history ++ [.use .g_socket_path] := by
      rw [run_handlers, if_pos hregistered]
      exact history_unlink ..
    rw [hhistory, Custody.replay_snoc _ hserves.held, Custody.apply]
    cases hending : r.1 with
    | returned ret => simp [holds, (hserves.ret ret hending).1]
    | waiting => simp [holds]
    | killed => simp [holds]

end Life

end Server

end OtusCProg.Daemon
