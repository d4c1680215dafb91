import OtusCProg.Library.Runs
import OtusCProg.HttpServer.ResponseStream

/-!
# Delivery of error responses

One connection from `accept` on, with the filters that `kqueue` watches for
it; readiness comes in any order. A response of `send_error` is sent to its
end as long as no `READ` event comes with the receive buffer full: there
`recv` is called without room, and its 0 is taken for the end of the stream.
-/

namespace OtusCProg.HttpServer
open Library

/-- A readiness event, with the answers of the system to its handler. `recv` answers with no bytes
where the client has closed its side. -/
inductive Readiness where
  | read (site : Site) (a : ReadAnswers)
  | write (a : WriteAnswers)

def Readiness.filter : Readiness → Filter
  | .read _ _ => .read
  | .write _ => .write

def Readiness.handle (conn : Connection) : Readiness → Outcome
  | .read site a => handle_read site conn a
  | .write a => handle_write conn a

/-- The filters that are watched after an action. -/
def rearm (armed : Filter → Bool) : Action → Filter → Bool
  | .added _ filter => Function.update armed filter true
  | .deleted _ filter => Function.update armed filter false
  | _ => armed

/-- An action that puts an error response into `send_buf`. -/
def Action.isError : Action → Bool
  | .built code => code != 200
  | _ => false

/-- A connection with its watched filters and what was done so far; the error response that was put
into `send_buf`; and whether the client or the system is the reason for closing. -/
structure Session where
  conn : Connection
  armed : Filter → Bool
  trace : List Action
  response : Option Text
  excused : Bool

/-- Behind `accept_connection`. -/
def Session.initial (fd : Nat) : Session where
  conn := .cleared (some fd)
  armed := fun filter => filter = .read
  trace := []
  response := none
  excused := false

/-- The client has closed its side, `send` has failed, or the registration behind the actions. -/
def Readiness.excuses (actions : List Action) : Readiness → Bool
  | .read _ a =>
      (match a.recv with
        | .data [] => true
        | _ => false) || (actions.any Action.isError && !a.registered)
  | .write a =>
      match a.pending with
      | .error => true
      | _ => false

/-- A handler has run. -/
def Session.handled (s : Session) (e : Readiness) (o : Outcome) : Session where
  conn := o.1
  armed := o.2.foldl rearm s.armed
  trace := s.trace ++ o.2
  response :=
    if o.2.any Action.isError then some (o.1.send_buf.bytes.take o.1.send_len) else s.response
  excused := s.excused || e.excuses o.2

/-- Only watched filters report. -/
inductive NotReady where
  | disarmed

def Session.step (s : Session) (e : Readiness) : Except NotReady Session :=
  if s.armed e.filter then .ok (s.handled e (e.handle s.conn)) else .error .disarmed

/-- A closed connection has sent its error response to the end, or the client or the system is the
reason. -/
def Session.Delivered (s : Session) : Prop :=
  s.conn.fd = none → ∀ response, s.response = some response →
    accepted s.trace = response ∨ s.excused

/-- No `READ` event with the receive buffer full, unless there is nothing to read or the client has
closed its side. -/
def Session.HasRoom (s : Session) : Readiness → Prop
  | .read _ a => s.conn.recv_len < RECV_BUF_SIZE - 1 ∨ a.recv = .again ∨ a.recv = .data []
  | .write _ => True

/-- An error response is pending behind what was accepted. -/
structure Responding (conn : Connection) (sent response : Text) : Prop where
  fd : conn.fd ≠ none
  file_fd : conn.file_fd = none
  state : conn.state = .sending_header
  send_len : conn.send_len ≤ SEND_BUF_SIZE
  send_sent : conn.send_sent < conn.send_len
  stream : sent ++ conn.pending = response

section SendError
variable {conn : Connection} {code : Nat} {status : Text}

/-- The codes and texts that the server responds with. -/
def errors : List (Nat × Text) :=
  [(400, text "Bad Request"), (405, text "Method Not Allowed"), (403, text "Forbidden"),
    (414, text "URI Too Long"), (404, text "Not Found"), (500, text "Internal Server Error"),
    (413, text "Payload Too Large")]

theorem length_errors : ∀ e ∈ errors,
    (head e.1 e.2 (text "text/plain") e.2.length ++ e.2).length < SEND_BUF_SIZE := by
  decide +kernel

/-- The response of `send_error` stands in `send_buf` as a whole. -/
theorem take_send_error (conn : Connection) (h : (code, status) ∈ errors) :
    (send_error conn code status true).1.send_len < SEND_BUF_SIZE ∧
      (send_error conn code status true).1.send_buf.bytes.take
          (send_error conn code status true).1.send_len =
        head code status (text "text/plain") status.length ++ status := by
  have hlen := length_errors (code, status) h
  rw [List.length_append] at hlen
  have htake := take_build_http_status conn (Nat.lt_of_le_of_lt (Nat.le_add_right _ _) hlen)
  simp only [send_error, watch_write, if_true, Outcome.after]
  set built := build_http_status conn code status (text "text/plain") status.length
  have hbuilt : built.send_len = (head code status (text "text/plain") status.length).length := rfl
  rw [← hbuilt] at hlen htake
  have hcopy := built.send_buf.take_memcpy built.send_len status hlen.le
  rw [if_pos hlen, ← htake]
  exact ⟨hlen, hcopy⟩

/-- The other fields behind `send_error`. -/
theorem fields_send_error (conn : Connection) (code : Nat) (status : Text) :
    (send_error conn code status true).1.fd = conn.fd ∧
      (send_error conn code status true).1.file_fd = conn.file_fd ∧
      (send_error conn code status true).1.recv_len = conn.recv_len ∧
      (send_error conn code status true).1.state = .sending_header ∧
      (send_error conn code status true).1.send_sent = 0 := by
  simp only [send_error, watch_write, if_true, Outcome.after]
  split <;> exact ⟨rfl, rfl, rfl, rfl, rfl⟩

theorem responding_send_error (hfd : conn.fd ≠ none) (hfile : conn.file_fd = none)
    (h : (code, status) ∈ errors) :
    Responding (send_error conn code status true).1 []
      ((send_error conn code status true).1.send_buf.bytes.take
        (send_error conn code status true).1.send_len) := by
  obtain ⟨hlen, htake⟩ := take_send_error conn h
  obtain ⟨hfd', hfile', -, hstate, hsent⟩ := fields_send_error conn code status
  have hpos : 0 < (head code status (text "text/plain") status.length ++ status).length := by
    simp only [head, List.append_assoc, List.length_append]
    exact Nat.add_pos_left (by decide) _
  rw [← htake, List.length_take] at hpos
  refine ⟨by rwa [hfd'], hfile'.trans hfile, hstate, hlen.le, ?_, ?_⟩
  · rw [hsent]
    exact hpos.trans_le (Nat.min_le_left ..)
  · rw [Connection.pending, hsent]
    rfl

/-- `handle_request` answers with an error of the list. -/
theorem reply_to_mem_errors {site : Site} {recv_buf : Text}
    (h : reply_to site recv_buf = .error code status) : (code, status) ∈ errors := by
  have hfile : ∀ full_path, reply_file site full_path = .error code status → (code, status) ∈ errors := by
    intro full_path hreply
    unfold reply_file at hreply
    split at hreply
    · cases hreply; decide
    · cases hreply; decide
    · cases hreply; decide
    · split_ifs at hreply <;> cases hreply <;> decide
  unfold reply_to at h
  split at h
  · cases h; decide
  · split at h
    · cases h; decide
    · dsimp only [reply_path] at h
      split_ifs at h
      · cases h; decide
      · cases h; decide
      · exact hfile _ h

end SendError

section Actions
variable {conn : Connection}

/-- An action that neither builds a response nor asks for a filter. -/
def Action.Passive : Action → Prop
  | .added _ _ => False
  | .built _ => False
  | _ => True

theorem passive_close : ∀ action ∈ (close_connection conn).2, action.Passive := by
  cases hfd : conn.fd <;> cases hfile : conn.file_fd <;>
    simp [close_connection, hfd, hfile, Action.Passive]

theorem passive_after {actions : List Action} {o : Outcome} (hactions : ∀ action ∈ actions, action.Passive)
    (h : ∀ action ∈ o.2, action.Passive) : ∀ action ∈ (o.after actions).2, action.Passive := by
  intro action hmem
  rcases List.mem_append.mp hmem with hmem | hmem
  · exact hactions action hmem
  · exact h action hmem

theorem passive_fail : ∀ action ∈ ((close_connection conn).after [.failed]).2, action.Passive :=
  passive_after (by simp [Action.Passive]) passive_close

theorem passive_send_pending {answer : Send} {next : Connection → Outcome}
    (hnext : ∀ conn, ∀ action ∈ (next conn).2, action.Passive) :
    ∀ action ∈ (send_pending conn answer next).2, action.Passive := by
  cases answer with
  | again => nofun
  | error => exact passive_fail
  | accepted n =>
      apply passive_after
      · simp [Action.Passive]
      · split
        · nofun
        · exact hnext _

theorem passive_send_block (a : WriteAnswers) : ∀ action ∈ (send_block a conn).2, action.Passive := by
  unfold send_block
  split
  · exact passive_fail
  · exact passive_close
  · exact passive_send_pending fun _ => nofun

/-- `handle_write` builds no response and asks for no filter. -/
theorem passive_handle_write (a : WriteAnswers) :
    ∀ action ∈ (handle_write conn a).2, action.Passive := by
  unfold handle_write
  split
  · nofun
  · apply passive_send_pending
    intro conn
    split
    · exact passive_send_block a
    · exact passive_close
  · split
    · exact passive_send_pending fun _ => passive_send_block a
    · exact passive_send_block a
  · nofun

theorem any_isError_of_passive {actions : List Action} (h : ∀ action ∈ actions, action.Passive) :
    actions.any Action.isError = false := by
  rw [List.any_eq_false]
  intro action hmem
  have hpassive := h action hmem
  cases action <;> simp_all [Action.Passive, Action.isError]

/-- Passive actions leave no new filter watched. -/
theorem rearm_of_passive {actions : List Action} (h : ∀ action ∈ actions, action.Passive)
    {armed : Filter → Bool} {filter : Filter} (harmed : actions.foldl rearm armed filter) :
    armed filter := by
  induction actions generalizing armed with
  | nil => exact harmed
  | cons action actions ih =>
      have hrest := ih (fun b hb => h b (List.mem_cons_of_mem _ hb)) harmed
      have hpassive := h action List.mem_cons_self
      cases action with
      | deleted fd filter' =>
          rw [rearm, Function.update_apply] at hrest
          split at hrest
          · cases hrest
          · exact hrest
      | added fd filter' => cases hpassive
      | accepted fd => exact hrest
      | closed fd => exact hrest
      | opened fd path => exact hrest
      | built code => exact hrest
      | sent bytes => exact hrest
      | failed => exact hrest

end Actions

section Write
variable {conn : Connection} {sent response : Text}

/-- Something of a response is pending. -/
theorem Responding.pending_ne_nil (h : Responding conn sent response) : conn.pending ≠ [] := by
  apply List.ne_nil_of_length_pos
  rw [length_pending h.send_len]
  exact Nat.sub_pos_of_lt h.send_sent

/-- One call of `handle_write`: the response goes on, or the connection is closed at its end or
behind a failed `send`. -/
theorem Responding.handle_write (h : Responding conn sent response) (a : WriteAnswers) :
    (Responding (handle_write conn a).1 (sent ++ accepted (handle_write conn a).2) response ∧
        (handle_write conn a).1.recv_len = conn.recv_len ∧ a.pending ≠ .error) ∨
      ((handle_write conn a).1.fd = none ∧
        (sent ++ accepted (handle_write conn a).2 = response ∨ a.pending = .error)) := by
  obtain ⟨fd, hfd⟩ := Option.ne_none_iff_exists'.mp h.fd
  simp only [HttpServer.handle_write, hfd, h.state]
  cases hanswer : a.pending with
  | again =>
      left
      refine ⟨?_, rfl, by simp⟩
      simpa [send_pending] using h
  | error => exact .inr ⟨rfl, .inr rfl⟩
  | accepted n =>
      have hadvance := pending_advance conn n
      have hstream : sent ++ conn.pending.take n ++ conn.pending.drop n = response := by
        rw [List.append_assoc, List.take_append_drop]
        exact h.stream
      simp only [send_pending, Outcome.after, h.file_fd]
      split
      · rename_i hmore
        left
        refine ⟨⟨h.fd, rfl, h.state, h.send_len, hmore, ?_⟩, rfl, by simp⟩
        rw [hadvance] at hstream
        simp only [accepted_cons, accepted_nil, Action.bytes, List.append_nil]
        exact hstream
      · rename_i hdone
        right
        refine ⟨rfl, .inl ?_⟩
        have hempty : conn.pending.drop n = [] := by
          rw [hadvance]
          exact pending_eq_nil h.send_len (Nat.not_lt.mp hdone)
        rw [hempty, List.append_nil] at hstream
        simpa using hstream

end Write

/-- Where a connection stands: it reads, it sends an error response, it serves a file, or it is
closed. -/
inductive Session.Delivering (s : Session) : Prop where
  | reading (hfd : s.conn.fd ≠ none) (hfile : s.conn.file_fd = none)
      (hlen : s.conn.recv_len < RECV_BUF_SIZE - 1) (hresponse : s.response = none)
      (hsent : accepted s.trace = []) (hexcused : s.excused = false) (harmed : s.armed .write = false)
  | responding {response : Text} (hresponse : s.response = some response)
      (h : Responding s.conn (accepted s.trace) response) (hexcused : s.excused = false)
      (hfull : s.armed .read → RECV_BUF_SIZE - 1 ≤ s.conn.recv_len)
  | serving (hresponse : s.response = none) (harmed : s.armed .read = false)
  | closed (hfd : s.conn.fd = none)
      (h : ∀ response, s.response = some response → accepted s.trace = response ∨ s.excused)

section Step
variable {s t : Session} {conn : Connection} {site : Site}

theorem Session.Delivering.delivered (h : s.Delivering) : s.Delivered := by
  intro hfd response hresponse
  cases h with
  | reading hopen => exact absurd hfd hopen
  | responding _ hresponding => exact absurd hfd hresponding.fd
  | serving hnone =>
      rw [hnone] at hresponse
      cases hresponse
  | closed _ hall => exact hall response hresponse

/-- A `READ` event that does not bring the end of the stream excuses a failed registration only. -/
theorem excuses_read {a : ReadAnswers} {actions : List Action} (hrecv : a.recv ≠ .data []) :
    (Readiness.read site a).excuses actions = (actions.any Action.isError && !a.registered) := by
  simp only [Readiness.excuses, Bool.false_or]

/-- A handler closes the connection without a response. -/
theorem delivering_close {e : Readiness} (actions : List Action) (hresponse : s.response = none)
    (hactions : actions.any Action.isError = false) :
    (s.handled e ((close_connection conn).after actions)).Delivering := by
  refine .closed rfl fun response hsome => ?_
  have hnone : ((close_connection conn).after actions).2.any Action.isError = false := by
    simp [Outcome.after, hactions, any_isError_of_passive passive_close]
  rw [Session.handled, hnone] at hsome
  cases hresponse.symm.trans hsome

/-- A handler puts an error response into `send_buf`, behind `actions`. -/
theorem delivering_send_error {a : ReadAnswers} (actions : List Action) {code : Nat} {status : Text}
    (hfd : conn.fd ≠ none) (hfile : conn.file_fd = none) (herror : (code, status) ∈ errors)
    (hsent : accepted (s.trace ++ actions) = []) (hexcused : s.excused = false)
    (hrecv : a.recv ≠ .data [])
    (hfull : actions.foldl rearm s.armed .read → RECV_BUF_SIZE - 1 ≤ conn.recv_len) :
    (s.handled (.read site a) ((send_error conn code status a.registered).after actions)).Delivering := by
  have hcode : code ≠ 200 := by
    have hall : ∀ e ∈ errors, e.1 ≠ 200 := by decide
    exact hall _ herror
  have hbuilt : ∀ o : Outcome, ((o.after [.built code]).after actions).2.any Action.isError = true := by
    intro o
    simp [Outcome.after, Action.isError, hcode]
  cases hregistered : a.registered with
  | false =>
      -- the connection is closed at once, and the failed registration is the reason
      refine .closed rfl fun _ _ => .inr ?_
      have herrors : ((send_error conn code status false).after actions).2.any Action.isError = true :=
        hbuilt _
      simp only [Session.handled, excuses_read hrecv, herrors, hregistered]
      simp
  | true =>
      obtain ⟨fd, hsome⟩ := Option.ne_none_iff_exists'.mp hfd
      have hresponding := responding_send_error hfd hfile herror
      obtain ⟨hfd', -, hlen, -, -⟩ := fields_send_error conn code status
      have hactions : (send_error conn code status true).2 = [.built code, .added fd .write] := by
        simp only [send_error, watch_write, if_true, Outcome.after]
        split <;> simp [build_http_status, hsome]
      have herrors : ((send_error conn code status true).after actions).2.any Action.isError = true :=
        hbuilt _
      have hresponse :
          (s.handled (.read site a) ((send_error conn code status true).after actions)).response =
            some ((send_error conn code status true).1.send_buf.bytes.take
              (send_error conn code status true).1.send_len) := by
        rw [Session.handled, herrors]
        rfl
      refine .responding hresponse ?_ ?_ ?_
      · have haccepted : accepted (s.trace ++ (actions ++ (send_error conn code status true).2)) = [] := by
          rw [← List.append_assoc, accepted_append, hsent, hactions]
          rfl
        rw [← haccepted] at hresponding
        exact hresponding
      · simp only [Session.handled, excuses_read hrecv, hexcused, hregistered]
        simp
      · intro harmed
        simp only [Session.handled, Outcome.after, hactions, List.foldl_append, List.foldl_cons,
          List.foldl_nil, rearm, Function.update_apply, reduceCtorEq, if_false] at harmed
        simp only [Session.handled, Outcome.after, hlen]
        exact hfull harmed

/-- A `READ` event while the connection reads. -/
theorem delivering_read {a : ReadAnswers} (hfd : s.conn.fd ≠ none) (hfile : s.conn.file_fd = none)
    (hlen : s.conn.recv_len < RECV_BUF_SIZE - 1) (hresponse : s.response = none)
    (hsent : accepted s.trace = []) (hexcused : s.excused = false) (harmed : s.armed .write = false) :
    (s.handled (.read site a) (handle_read site s.conn a)).Delivering := by
  obtain ⟨fd, hsome⟩ := Option.ne_none_iff_exists'.mp hfd
  have hclose : (s.handled (.read site a) (close_connection s.conn)).Delivering :=
    delivering_close [] hresponse rfl
  have hwait : ∀ conn : Connection, conn.fd = some fd → conn.file_fd = none →
      conn.recv_len < RECV_BUF_SIZE - 1 → a.recv ≠ .data [] →
      (s.handled (.read site a) (conn, [])).Delivering := by
    intro conn hfd' hfile' hlen' hrecv
    refine .reading (by rw [Session.handled, hfd']; nofun) hfile' hlen' hresponse ?_ ?_ harmed
    · rw [Session.handled, List.append_nil, hsent]
    · simp only [Session.handled, excuses_read hrecv, hexcused]
      rfl
  simp only [handle_read, hsome]
  cases hrecv : a.recv with
  | again => exact hwait s.conn hsome hfile hlen (by rw [hrecv]; nofun)
  | error => exact hclose
  | data bytes =>
      dsimp only
      split
      · exact hclose
      · rename_i hbytes
        have hdata : a.recv ≠ .data [] := by
          rw [hrecv]
          rintro ⟨⟩
          exact hbytes List.take_nil
        set conn := s.conn.receive (bytes.take (RECV_BUF_SIZE - s.conn.recv_len - 1))
        have hconn : conn.fd ≠ none := hfd
        split
        · unfold handle_request
          cases hreply : reply_to site (cstr conn.recv_buf.bytes) with
          | error code status =>
              refine delivering_send_error [.deleted fd .read] hconn hfile (reply_to_mem_errors hreply) ?_ hexcused hdata ?_
              · simp [hsent]
              · simp [rearm]
          | file full_path st =>
              dsimp only
              cases a.registered with
              | true =>
                  refine .serving ?_ ?_
                  · simp [Session.handled, Outcome.after, Action.isError, watch_write,
                      build_http_status, hresponse]
                  · simp [Session.handled, Outcome.after, watch_write, build_http_status, rearm, conn,
                      Connection.receive, hsome]
              | false =>
                  exact delivering_close [.deleted fd .read, .opened a.file_fd full_path, .built 200]
                    hresponse rfl
        · split
          · rename_i hfull
            exact delivering_send_error [] hconn hfile (by decide)
              (by rw [List.append_nil, hsent]) hexcused hdata fun _ => hfull
          · rename_i hless
            exact hwait conn hsome hfile (Nat.not_le.mp hless) hdata

/-- A `WRITE` event while an error response is pending. -/
theorem delivering_write {response : Text} {a : WriteAnswers} (hresponse : s.response = some response)
    (h : Responding s.conn (accepted s.trace) response) (hexcused : s.excused = false)
    (hfull : s.armed .read → RECV_BUF_SIZE - 1 ≤ s.conn.recv_len) :
    (s.handled (.write a) (handle_write s.conn a)).Delivering := by
  have hpassive : ∀ action ∈ (handle_write s.conn a).2, action.Passive := passive_handle_write a
  have hkept : (s.handled (.write a) (handle_write s.conn a)).response = some response := by
    simp only [Session.handled, any_isError_of_passive hpassive]
    exact hresponse
  rcases h.handle_write a with ⟨hresponding, hlen, hanswer⟩ | ⟨hfd, hdone⟩
  · refine .responding hkept ?_ ?_ ?_
    · rw [Session.handled, accepted_append]
      exact hresponding
    · simp only [Session.handled, Readiness.excuses, hexcused]
      cases hpending : a.pending with
      | error => exact absurd hpending hanswer
      | accepted n => rfl
      | again => rfl
    · intro harmed
      rw [Session.handled, hlen]
      exact hfull (rearm_of_passive hpassive harmed)
  · refine .closed hfd fun response' hsome => ?_
    obtain rfl : response = response' := Option.some.inj (hkept.symm.trans hsome)
    rw [Session.handled, accepted_append]
    refine hdone.imp id fun herror => ?_
    simp [Readiness.excuses, herror]

/-- A connection that is closed does nothing. -/
theorem handle_of_closed (e : Readiness) (hfd : s.conn.fd = none) : e.handle s.conn = (s.conn, []) := by
  cases e with
  | read site a => simp only [Readiness.handle, handle_read, hfd]
  | write a => simp only [Readiness.handle, handle_write, hfd]

theorem step_eq_ok {e : Readiness} :
    s.step e = .ok t ↔ s.armed e.filter ∧ s.handled e (e.handle s.conn) = t := by
  rw [Session.step]
  split
  · simp [*]
  · simp [*]

/-- One event that does not come with the receive buffer full. -/
theorem Session.Delivering.step {e : Readiness} (h : s.Delivering) (hroom : s.HasRoom e)
    (hstep : s.step e = .ok t) : t.Delivering := by
  obtain ⟨hready, rfl⟩ := step_eq_ok.mp hstep
  cases h with
  | reading hfd hfile hlen hresponse hsent hexcused harmed =>
      cases e with
      | read site a => exact delivering_read hfd hfile hlen hresponse hsent hexcused harmed
      | write a => exact absurd (harmed.symm.trans hready) nofun
  | responding hresponse hresponding hexcused hfull =>
      cases e with
      | write a => exact delivering_write hresponse hresponding hexcused hfull
      | read site a =>
          obtain ⟨fd, hsome⟩ := Option.ne_none_iff_exists'.mp hresponding.fd
          rcases hroom with hless | hagain | hend
          · exact absurd (hfull hready) hless.not_ge
          · have hkeep : handle_read site s.conn a = (s.conn, []) := by
              simp only [handle_read, hsome, hagain]
            simp only [Readiness.handle, hkeep]
            refine .responding hresponse ?_ ?_ hfull
            · rw [Session.handled, List.append_nil]
              exact hresponding
            · rw [Session.handled, excuses_read (by rw [hagain]; nofun), hexcused]
              rfl
          · refine .closed ?_ fun _ _ => .inr ?_
            · simp [Session.handled, Readiness.handle, handle_read, hsome, hend, close_connection]
            · simp [Session.handled, Readiness.excuses, hend]
  | serving hresponse harmed =>
      cases e with
      | read site a => exact absurd (harmed.symm.trans hready) nofun
      | write a =>
          have hpassive : ∀ action ∈ (handle_write s.conn a).2, action.Passive := passive_handle_write a
          refine .serving ?_ ?_
          · simp only [Session.handled, Readiness.handle, any_isError_of_passive hpassive]
            exact hresponse
          · rw [← Bool.not_eq_true]
            intro harmed'
            exact absurd (harmed.symm.trans (rearm_of_passive hpassive harmed')) nofun
  | closed hfd hall =>
      rw [handle_of_closed e hfd]
      refine .closed hfd fun response hsome => ?_
      rw [Session.handled, List.append_nil]
      exact (hall response hsome).imp id fun hexcused => by simp [hexcused]

/-- A `READ` event with the receive buffer full and something to read drops the response. -/
theorem Session.Delivering.step_full {e : Readiness} (h : s.Delivering) (hopen : s.conn.fd ≠ none)
    (hroom : ¬ s.HasRoom e) (hstep : s.step e = .ok t) : ¬ t.Delivered := by
  obtain ⟨hready, rfl⟩ := step_eq_ok.mp hstep
  cases e with
  | write a => exact absurd trivial hroom
  | read site a =>
      simp only [HasRoom, not_or, not_lt] at hroom
      obtain ⟨hfull, hagain, hend⟩ := hroom
      cases h with
      | reading hfd hfile hlen => exact absurd hfull hlen.not_ge
      | serving hresponse harmed => exact absurd (harmed.symm.trans hready) nofun
      | closed hfd => exact absurd hfd hopen
      | responding hresponse hresponding hexcused =>
          obtain ⟨fd, hsome⟩ := Option.ne_none_iff_exists'.mp hopen
          have hclose : handle_read site s.conn a = close_connection s.conn := by
            simp only [handle_read, hsome]
            cases hrecv : a.recv with
            | again => exact absurd hrecv hagain
            | error => rfl
            | data bytes =>
                have hnone : bytes.take (RECV_BUF_SIZE - s.conn.recv_len - 1) = [] := by
                  rw [List.take_eq_nil_iff]
                  left
                  omega
                exact if_pos hnone
          have hquiet : (close_connection s.conn).2.any Action.isError = false :=
            any_isError_of_passive passive_close
          simp only [Readiness.handle, hclose]
          intro hdelivered
          have hresponse' : (s.handled (.read site a) (close_connection s.conn)).response =
              s.response := by
            simp only [Session.handled, hquiet]
            rfl
          rcases hdelivered rfl _ (hresponse'.trans hresponse) with hall | hexcuse
          · rw [Session.handled, accepted_append, accepted_close, List.append_nil,
              ← hresponding.stream] at hall
            exact hresponding.pending_ne_nil (List.self_eq_append_right.mp hall)
          · simp [Session.handled, excuses_read hend, hexcused, hquiet] at hexcuse

end Step

theorem delivering_initial (fd : Nat) : (Session.initial fd).Delivering :=
  .reading nofun rfl (show 0 < RECV_BUF_SIZE - 1 by decide) rfl rfl rfl rfl

/-- In every run without a `READ` event on a full receive buffer, an error response is sent to its
end; and the first such event drops it. -/
theorem error_response_delivered {fd : Nat} {s : Session}
    (h : Runs Session.step Session.HasRoom (.initial fd) s) :
    s.Delivered ∧ ∀ e t, s.conn.fd ≠ none → s.step e = .ok t → (t.Delivered ↔ s.HasRoom e) := by
  have hdelivering : s.Delivering := h.invariant (delivering_initial fd) Session.Delivering.step
  refine ⟨hdelivering.delivered, fun e t hopen hstep => ⟨fun hdelivered => ?_, fun hroom => ?_⟩⟩
  · by_contra hroom
    exact hdelivering.step_full hopen hroom hstep hdelivered
  · exact (hdelivering.step hroom hstep).delivered

/-- The session behind two events. -/
def Session.afterTwo (s : Session) (e e' : Readiness) : Session :=
  let s' := s.handled e (e.handle s.conn)
  s'.handled e' (e'.handle s'.conn)

theorem runs_afterTwo {allowed : Session → Readiness → Prop} {s : Session} {e e' : Readiness}
    (hready : s.armed e.filter) (hready' : (s.handled e (e.handle s.conn)).armed e'.filter)
    (hallowed : allowed s e) (hallowed' : allowed (s.handled e (e.handle s.conn)) e') :
    Runs Session.step allowed s (s.afterTwo e e') :=
  .cons hallowed (step_eq_ok.mpr ⟨hready, rfl⟩)
    (.cons hallowed' (step_eq_ok.mpr ⟨hready', rfl⟩) .refl)

/-- A request line of one word, and a client that takes the response in one piece. -/
def shortRequest : Session :=
  (Session.initial 5).afterTwo (.read .empty ⟨.data (text "GET\r\n\r\n"), 0, true⟩)
    (.write ⟨.accepted SEND_BUF_SIZE, fun _ _ => none, .again⟩)

theorem error_response_delivered_shortRequest :
    shortRequest.conn.fd = none ∧ shortRequest.response = some (accepted shortRequest.trace) := by
  have hrun : Runs Session.step Session.HasRoom (.initial 5) shortRequest :=
    runs_afterTwo rfl (by decide +kernel) (.inl (by decide +kernel)) trivial
  have hdelivered := (error_response_delivered hrun).1
  have hend : shortRequest.conn.fd = none ∧ shortRequest.excused = false ∧
      shortRequest.response.isSome := by
    decide +kernel
  obtain ⟨hclosed, hexcused, hsome⟩ := hend
  obtain ⟨response, hresponse⟩ := Option.isSome_iff_exists.mp hsome
  refine ⟨hclosed, ?_⟩
  rcases hdelivered hclosed response hresponse with hall | hexcuse
  · rw [hall, hresponse]
  · rw [hexcused] at hexcuse
    cases hexcuse

/-- Bytes without the end of the headers that fill the buffer. -/
def longRequest : Readiness := .read .empty ⟨.data (List.replicate (RECV_BUF_SIZE - 1) 65), 0, true⟩

/-- A byte behind a full buffer closes the connection before the 413 is sent. -/
theorem full_buffer_drops_response :
    ¬ ∀ (fd : Nat) (s : Session), Runs Session.step (fun _ _ => True) (.initial fd) s → s.Delivered := by
  intro hall
  let s := Session.initial 5
  let s' := s.handled longRequest (longRequest.handle s.conn)
  let e : Readiness := .read .empty ⟨.data [65], 0, true⟩
  have hroom : s.HasRoom longRequest := .inl (by decide)
  have hdelivering : s'.Delivering :=
    (delivering_initial 5).step hroom (step_eq_ok.mpr ⟨rfl, rfl⟩)
  have hfull : s'.armed .read ∧ s'.conn.fd ≠ none ∧ RECV_BUF_SIZE - 1 ≤ s'.conn.recv_len := by
    decide +kernel
  obtain ⟨harmed, hopen, hlen⟩ := hfull
  have hnoroom : ¬ s'.HasRoom e := by
    rintro (hless | hagain | hend)
    · exact absurd hlen hless.not_ge
    · cases hagain
    · cases hend
  have hrun : Runs Session.step (fun _ _ => True) s (s.afterTwo longRequest e) :=
    runs_afterTwo rfl harmed trivial trivial
  have hdelivered : (s.afterTwo longRequest e).Delivered := hall 5 _ hrun
  have hstep : s'.step e = .ok (s.afterTwo longRequest e) := step_eq_ok.mpr ⟨harmed, rfl⟩
  exact hdelivering.step_full hopen hnoroom hstep hdelivered

end OtusCProg.HttpServer
