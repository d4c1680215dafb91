import OtusCProg.HttpServer.Isolation
import OtusCProg.HttpServer.Segmentation

/-!
# One response for each client

The bytes that a client has sent, as far as `recv` took them, determine the
response; what the client is sent is always in front of it, whatever the
other clients do.
-/

namespace OtusCProg.HttpServer
open Library

/-- The bytes received so far, behind one more event; `recv` takes no more than fits. -/
def receive (received : Text) : Readiness → Text
  | .read _ a =>
      match a.recv with
      | .data bytes => received ++ bytes.take (RECV_BUF_SIZE - received.length - 1)
      | _ => received
  | .write _ => received

/-- The bytes that a connection has received. -/
def received (events : List Readiness) : Text := events.foldl receive []

/-- The text of an error response. -/
def error_text (code : Nat) (status : Text) : Text :=
  head code status (text "text/plain") status.length ++ status

/-- The response to a request, with the content of the file that it names; it is empty as long as the
request goes on. -/
def reply_text (site : Site) (content : Text → Text) (request : Text) : Text :=
  if terminated (cstr request) then
    match reply_to site (cstr request) with
    | .error code status => error_text code status
    | .file full_path st => head 200 (text "OK") (get_mime_type full_path) st.st_size ++ content full_path
  else if RECV_BUF_SIZE - 1 ≤ request.length then error_text 413 (text "Payload Too Large")
  else []

/-- The files do not change while the connection sees `events`: it finds one site, and from a
descriptor that `open` returned for a path, `pread` reads the content of the file at that path. -/
structure Constant (site : Site) (content : Text → Text) (trace : List Action)
    (events : List Readiness) : Prop where
  site : ∀ site' a, .read site' a ∈ events → site' = site
  content : ∀ g path, .opened g path ∈ trace → ∀ a, .write a ∈ events →
    ReadsFile (content path) (a.pread g)

/-- Where a session stands in its dialogue. -/
inductive Session.Stage (site : Site) (content : Text → Text) (events : List Readiness) (t : Session) : Prop where
  | reading (hholds : Holds t.conn (received events)) (hfile : t.conn.file_fd = none)
      (hsent : accepted t.trace = []) (harmed : t.armed .write = false)
      (hgoes : ¬terminated (cstr (received events)) ∧ (received events).length < RECV_BUF_SIZE - 1)
  | responding (h : Responding t.conn (accepted t.trace) (reply_text site content (received events)))
      (hfull : t.armed .read → RECV_BUF_SIZE - 1 ≤ (received events).length ∧
        t.conn.recv_len = (received events).length)
  | serving {g : Nat} {header path : Text} (hopened : .opened g path ∈ t.trace)
      (h : Sending g header (content path) t.conn (accepted t.trace))
      (hresponse : reply_text site content (received events) = header ++ content path) (harmed : t.armed .read = false)
  | closed (hfd : t.conn.fd = none)
      ( hprefix : accepted t.trace <+: reply_text site content (received events))
      (hall : ∀ a, events.getLast? = some (.write a) → .failed ∉ t.trace →
        accepted t.trace = reply_text site content (received events))

section Stages
variable {site : Site} {content : Text → Text} {events : List Readiness} {t : Session} {conn : Connection}

@[simp] theorem received_snoc (events : List Readiness) (e : Readiness) :
    received (events ++ [e]) = receive (received events) e := by
  simp [received]

/-- A `READ` event that closes the connection before anything was sent. -/
theorem stage_close_unsent {a : ReadAnswers} {o : Outcome} (hfd : o.1.fd = none)
    (hsent : accepted t.trace = []) (ho : accepted o.2 = []) :
    (t.handled (.read site a) o).Stage site content (events ++ [.read site a]) := by
  refine .closed hfd ?_ fun a' hlast => ?_
  · simp [Session.handled, hsent, ho]
  · simp at hlast

/-- An error response is put into `send_buf`, behind `actions`. -/
theorem stage_send_error {a : ReadAnswers} (actions : List Action) {code : Nat} {status : Text}
    (hfd : conn.fd ≠ none) (hfile : conn.file_fd = none) (herror : (code, status) ∈ errors)
    (hsent : accepted t.trace = []) (hactions : accepted actions = [])
    (hresponse : reply_text site content (received (events ++ [.read site a])) = error_text code status)
    (hfull : actions.foldl rearm t.armed .read →
      RECV_BUF_SIZE - 1 ≤ (received (events ++ [.read site a])).length ∧
        conn.recv_len = (received (events ++ [.read site a])).length) :
    (t.handled (.read site a) ((send_error conn code status a.registered).after actions)).Stage site content
      (events ++ [.read site a]) := by
  cases hregistered : a.registered with
  | false =>
      refine stage_close_unsent rfl hsent ?_
      simp [send_error, watch_write, Outcome.after, hactions]
  | true =>
      obtain ⟨fd, hsome⟩ := Option.ne_none_iff_exists'.mp hfd
      have hresponding := responding_send_error hfd hfile herror
      rw [(take_send_error conn herror).2] at hresponding
      obtain ⟨-, -, hlen, -, -⟩ := fields_send_error conn code status
      have hbuilt : (send_error conn code status true).2 = [.built code, .added fd .write] := by
        simp only [send_error, watch_write, if_true, Outcome.after]
        split <;> simp [build_http_status, hsome]
      refine .responding ?_ ?_
      · have haccepted : accepted (t.trace ++ (actions ++ (send_error conn code status true).2)) = [] := by
          simp [hsent, hactions, hbuilt]
        rw [hresponse]
        simp only [Session.handled, Outcome.after, haccepted]
        exact hresponding
      · intro harmed
        simp only [Session.handled, Outcome.after, hbuilt, List.foldl_append, List.foldl_cons,
          List.foldl_nil, rearm, Function.update_apply, reduceCtorEq, if_false] at harmed
        simp only [Session.handled, Outcome.after, hlen]
        exact hfull harmed

/-- The request is complete. -/
theorem stage_handle_request {a : ReadAnswers} {fd : Nat} (hholds : Holds conn (received (events ++ [.read site a])))
    (hfile : conn.file_fd = none) (hsent : accepted t.trace = [])
    (hterminated : terminated (cstr (received (events ++ [.read site a])))) :
    (t.handled (.read site a) ((handle_request site conn a).after [.deleted fd .read])).Stage site content
      (events ++ [.read site a]) := by
  have hcstr := hholds.cstr_eq
  cases hreply : reply_to site (cstr conn.recv_buf.bytes) with
  | error code status =>
      have hrequest : handle_request site conn a = send_error conn code status a.registered := by
        simp only [handle_request, hreply]
      rw [hrequest]
      refine stage_send_error [.deleted fd .read] hholds.fd hfile (reply_to_mem_errors hreply) hsent rfl ?_ ?_
      · rw [hcstr] at hreply
        simp only [reply_text, hterminated, if_true, hreply]
      · simp [rearm]
  | file full_path st =>
      cases hregistered : a.registered with
      | false =>
          refine stage_close_unsent ?_ hsent ?_
          · simp [handle_request, hreply, hregistered, watch_write, Outcome.after, close_connection]
          · simp [handle_request, hreply, hregistered, watch_write, Outcome.after]
      | true =>
          obtain ⟨sock, hsock⟩ := Option.ne_none_iff_exists'.mp hholds.fd
          have hanswering := handle_request_answering hholds.fd hregistered hreply
          have hactions : (handle_request site conn a).2 =
              [.opened a.file_fd full_path, .built 200, .added sock .write] := by
            simp [handle_request, hreply, hregistered, watch_write, Outcome.after, build_http_status, hsock]
          have haccepted : accepted (t.trace ++ ([.deleted fd .read] ++ (handle_request site conn a).2)) = [] := by
            simp [hsent, hactions]
          have hfile_fd : (handle_request site conn a).1.file_fd = some a.file_fd := by
            simp [handle_request, hreply, hregistered, watch_write, Outcome.after, build_http_status]
          have hsending : Sending _ _ (content full_path) (handle_request site conn a).1 [] :=
            hanswering.sending hfile_fd
          rw [← haccepted] at hsending
          refine .serving ?_ hsending ?_ ?_
          · simp [Session.handled, Outcome.after, hactions]
          · rw [hcstr] at hreply
            simp only [reply_text, hterminated, if_true, hreply]
          · simp [Session.handled, Outcome.after, hactions, rearm]

/-- A `READ` event while the connection reads. -/
theorem stage_read {a : ReadAnswers} (hholds : Holds t.conn (received events))
    (hfile : t.conn.file_fd = none) (hsent : accepted t.trace = []) (harmed : t.armed .write = false)
    (hgoes : ¬terminated (cstr (received events)) ∧ (received events).length < RECV_BUF_SIZE - 1) :
    (t.handled (.read site a) (handle_read site t.conn a)).Stage site content (events ++ [.read site a]) := by
  obtain ⟨fd, hfd⟩ := Option.ne_none_iff_exists'.mp hholds.fd
  simp only [handle_read, hfd]
  cases hrecv : a.recv with
  | error => exact stage_close_unsent rfl hsent (accepted_close t.conn)
  | again =>
      have hreceived : received (events ++ [.read site a]) = received events := by
        simp only [received_snoc, receive, hrecv]
      refine .reading ?_ hfile ?_ harmed ?_
      · rw [hreceived]
        exact hholds
      · simp [Session.handled, hsent]
      · rw [hreceived]
        exact hgoes
  | data bytes =>
      have hreceived : received (events ++ [.read site a]) =
          received events ++ bytes.take (RECV_BUF_SIZE - t.conn.recv_len - 1) := by
        simp only [received_snoc, receive, hrecv, hholds.recv_len]
      dsimp only
      split
      · exact stage_close_unsent rfl hsent (accepted_close t.conn)
      · set conn := t.conn.receive (bytes.take (RECV_BUF_SIZE - t.conn.recv_len - 1)) with hconn
        have hnext : Holds conn (received (events ++ [.read site a])) := by
          rw [hreceived]
          exact hholds.receive (List.length_take_le ..)
        rw [hnext.cstr_eq]
        split
        · rename_i hterminated
          exact stage_handle_request hnext hfile hsent hterminated
        · rename_i hopen
          split
          · rename_i hfull
            rw [hnext.recv_len] at hfull
            refine stage_send_error [] hnext.fd hfile (by decide) hsent rfl ?_ fun _ => ⟨hfull, hnext.recv_len⟩
            rw [reply_text, if_neg hopen, if_pos hfull]
          · rename_i hless
            rw [hnext.recv_len] at hless
            refine .reading hnext hfile ?_ harmed ⟨hopen, Nat.not_le.mp hless⟩
            simp [Session.handled, hsent]

/-- A `READ` event while an error response is pending: the buffer is full, and nothing is received. -/
theorem stage_read_full {a : ReadAnswers}
    (h : Responding t.conn (accepted t.trace) (reply_text site content (received events)))
    (hfull : RECV_BUF_SIZE - 1 ≤ (received events).length)
    (hlen : t.conn.recv_len = (received events).length) :
    (t.handled (.read site a) (handle_read site t.conn a)).Stage site content (events ++ [.read site a]) := by
  obtain ⟨fd, hfd⟩ := Option.ne_none_iff_exists'.mp h.fd
  have hnone : ∀ bytes : Text, bytes.take (RECV_BUF_SIZE - (received events).length - 1) = [] := by
    intro bytes
    rw [List.take_eq_nil_iff]
    left
    omega
  have hreceived : received (events ++ [.read site a]) = received events := by
    cases hrecv : a.recv <;> simp [receive, hrecv, hnone]
  have hclose : (t.handled (.read site a) (close_connection t.conn)).Stage site content
      (events ++ [.read site a]) := by
    refine .closed rfl ?_ fun a' hlast => by simp at hlast
    rw [hreceived, ← h.stream]
    simp [Session.handled]
  simp only [handle_read, hfd]
  cases hrecv : a.recv with
  | error => exact hclose
  | again =>
      refine .responding ?_ fun _ => ?_
      · rw [hreceived]
        simpa [Session.handled] using h
      · rw [hreceived]
        exact ⟨hfull, hlen⟩
  | data bytes =>
      dsimp only
      rw [hlen, if_pos (hnone bytes)]
      exact hclose

/-- A `WRITE` event while an error response is pending. -/
theorem stage_write_error {a : WriteAnswers}
    (h : Responding t.conn (accepted t.trace) (reply_text site content (received events)))
    (hfull : t.armed .read → RECV_BUF_SIZE - 1 ≤ (received events).length ∧
      t.conn.recv_len = (received events).length) :
    (t.handled (.write a) (handle_write t.conn a)).Stage site content (events ++ [.write a]) := by
  have hreceived : received (events ++ [.write a]) = received events := received_snoc ..
  obtain ⟨fd, hfd⟩ := Option.ne_none_iff_exists'.mp h.fd
  rcases h.handle_write a with ⟨hresponding, hlen, -⟩ | ⟨hclosed, hdone⟩
  · refine .responding ?_ fun harmed => ?_
    · rw [hreceived, Session.handled, accepted_append]
      exact hresponding
    · rw [hreceived, Session.handled, hlen]
      exact hfull (rearm_of_passive (passive_handle_write a) harmed)
  · by_cases herror : a.pending = .error
    · have hactions : (handle_write t.conn a).2 = .failed :: (close_connection t.conn).2 := by
        simp [handle_write, hfd, h.state, send_pending, herror, Outcome.after]
      refine .closed hclosed ?_ fun a' _ hfailed => ?_
      · rw [hreceived, ← h.stream]
        simp [Session.handled, hactions]
      · simp [Session.handled, hactions] at hfailed
    · have hwhole : accepted (t.trace ++ (handle_write t.conn a).2) = reply_text site content (received events) := by
        rw [accepted_append]
        exact hdone.resolve_right herror
      refine .closed hclosed ?_ fun a' _ _ => ?_
      · rw [hreceived, Session.handled, hwhole]
      · rw [hreceived, Session.handled, hwhole]

/-- A `WRITE` event while a file is served. -/
theorem stage_write_file {a : WriteAnswers} {g : Nat} {header path : Text}
    (hopened : .opened g path ∈ t.trace) (hread : ReadsFile (content path) (a.pread g))
    (h : Sending g header (content path) t.conn (accepted t.trace))
    (hresponse : reply_text site content (received events) = header ++ content path) (harmed : t.armed .read = false) :
    (t.handled (.write a) (handle_write t.conn a)).Stage site content (events ++ [.write a]) := by
  have hreceived : received (events ++ [.write a]) = received events := received_snoc ..
  rcases served_handle_write hread (.inl h) with hsending | ⟨hfd, hprefix, hall⟩
  · refine .serving (List.mem_append_left _ hopened) hsending (hreceived ▸ hresponse) ?_
    rw [← Bool.not_eq_true]
    intro harmed'
    exact absurd (harmed.symm.trans (rearm_of_passive (passive_handle_write a) harmed')) nofun
  · refine .closed hfd ?_ fun _ _ hfailed => ?_
    · rw [hreceived, hresponse]
      exact hprefix
    · rw [hreceived, hresponse]
      exact hall hfailed

theorem Constant.of_handled {e : Readiness} {o : Outcome}
    (h : Constant site content (t.handled e o).trace (events ++ [e])) :
    Constant site content t.trace events where
  site site' a ha := h.site site' a (List.mem_append_left _ ha)
  content g path hopened a ha :=
    h.content g path (List.mem_append_left _ hopened) a (List.mem_append_left _ ha)

/-- Every session is in a stage of its dialogue. -/
theorem Session.After.stage {fd : Nat} (h : Session.After fd events t) (hconstant : Constant site content t.trace events) :
    t.Stage site content events := by
  induction h with
  | accepted => exact .reading (holds_accepted fd) rfl rfl rfl ⟨by decide, by decide⟩
  | @handled events s t e _ hopen hstep ih =>
      have hmem : e ∈ events ++ [e] := List.mem_append_right _ List.mem_cons_self
      obtain ⟨hready, rfl⟩ := step_eq_ok.mp hstep
      cases e with
      | read site' a =>
          obtain rfl := hconstant.site site' a hmem
          cases ih hconstant.of_handled with
          | reading hholds hfile hsent harmed hgoes => exact stage_read hholds hfile hsent harmed hgoes
          | responding h hfull => exact stage_read_full h (hfull hready).1 (hfull hready).2
          | serving _ _ _ harmed => exact absurd (harmed.symm.trans hready) nofun
          | closed hfd => exact absurd hfd hopen
      | write a =>
          cases ih hconstant.of_handled with
          | reading _ _ _ harmed => exact absurd (harmed.symm.trans hready) nofun
          | responding h hfull => exact stage_write_error h hfull
          | serving hopened h hresponse harmed =>
              have hread := hconstant.content _ _ (List.mem_append_left _ hopened) a hmem
              exact stage_write_file hopened hread h hresponse harmed
          | closed hfd => exact absurd hfd hopen

theorem Session.Stage.isPrefix (h : t.Stage site content events) :
    accepted t.trace <+: reply_text site content (received events) := by
  cases h with
  | reading _ _ hsent =>
      rw [hsent]
      exact List.nil_prefix
  | responding h =>
      rw [← h.stream]
      exact List.prefix_append ..
  | serving _ h hresponse =>
      rw [hresponse]
      exact h.isPrefix
  | closed _ hprefix => exact hprefix

end Stages

section Runs
variable {C : Server → Prop} {s : Observed} {slot number : Nat} {e : Readiness}

/-- An iteration in which the client `fd` comes. -/
def Observed.comes (s : Observed) (fd : Nat) : Observed := { s with system := s.system.comes fd }

theorem Observed.run_comes {fd : Nat} (hbatch : s.system.batch = none) (hnew : s.system.kernel.fds fd = none)
    (hC : C (s.system.accept (some ⟨fd, true, true⟩) []).server) : Observed.Run C s (s.comes fd) := by
  let t : System := { s.system with batch := some [.listening] }
  have hpoll : s.Step { s with system := t } := by
    refine .quiet (by simp [hbatch]) (.poll hbatch (Nat.one_le_iff_ne_zero.mpr nofun) (List.nodup_singleton _) ?_)
    simp [Kernel.Reports]
  have haccept : Observed.Step { s with system := t } { s with system := t.accept (some ⟨fd, true, true⟩) [] } := by
    refine .quiet nofun (.accept rfl ?_)
    intro c hc
    obtain rfl := Option.some.inj hc
    exact hnew
  have hfree : Observed.Step { s with system := t.accept (some ⟨fd, true, true⟩) [] } (s.comes fd) :=
    .quiet nofun (.free rfl)
  refine Relation.ReflTransGen.trans (.single ⟨hpoll, by simp [hbatch]⟩) ?_
  exact .head ⟨haccept, nofun⟩ (.single ⟨hfree, fun _ => hC⟩)

/-- An iteration with one event of client `number` in slot `slot`. -/
def Observed.turn (s : Observed) (slot number : Nat) (e : Readiness) : Observed :=
  let t := s.handled slot number e []
  { t with system := t.system.free }

theorem Observed.run_turn (fd : Nat) (hbatch : s.system.batch = none)
    (hreport : s.system.kernel.Reports (.ready fd e.filter slot number)) (hnew : e.New s.system.kernel)
    (hC : C (s.handled slot number e []).system.server) : Observed.Run C s (s.turn slot number e) := by
  have hpoll : s.Step { s with system := { s.system with batch := some [.ready fd e.filter slot number] } } := by
    refine .quiet (by simp [hbatch]) (.poll hbatch (Nat.one_le_iff_ne_zero.mpr nofun) (List.nodup_singleton _) ?_)
    intro e' he'
    rw [List.mem_singleton.mp he']
    exact hreport
  have hready : Observed.Step { s with system := { s.system with batch := some [.ready fd e.filter slot number] } }
      (s.handled slot number e []) := .ready rfl hnew
  have hfree : (s.handled slot number e []).Step (s.turn slot number e) := .quiet nofun (.free rfl)
  refine Relation.ReflTransGen.trans (.single ⟨hpoll, by simp [hbatch]⟩) ?_
  exact .head ⟨hready, nofun⟩ (.single ⟨hfree, fun _ => hC⟩)

end Runs

/-- Two clients have come; the first has begun a request, the second asked for the file. -/
def asked : Observed :=
  (((Observed.initial 3).comes 5).comes 6).turn 0 0 (.read .oneFile begins)
    |>.turn 1 1 (.read .oneFile asks)

/-- The second client has been served. -/
def served : Observed := (asked.turn 1 1 (.write takes)).turn 1 1 (.write takes)

theorem run_asked : Observed.Run Server.NoMove (.initial 3) asked := by
  have hfirst : Observed.Run Server.NoMove (.initial 3) ((Observed.initial 3).comes 5) :=
    Observed.run_comes rfl rfl (noMove_of_open (by decide))
  have hsecond : Observed.Run Server.NoMove _ (((Observed.initial 3).comes 5).comes 6) :=
    Observed.run_comes rfl (by decide) (noMove_of_open (by decide))
  have hbegins : Observed.Run Server.NoMove _
      ((((Observed.initial 3).comes 5).comes 6).turn 0 0 (.read .oneFile begins)) :=
    Observed.run_turn 5 rfl ⟨by decide, by decide⟩ (show _ = none by decide)
      (noMove_of_open (by decide +kernel))
  have hasks : Observed.Run Server.NoMove _ asked :=
    Observed.run_turn 6 rfl ⟨by decide +kernel, by decide +kernel⟩
      (show _ = none by decide +kernel) (noMove_of_open (by decide +kernel))
  exact hfirst.trans (hsecond.trans (hbegins.trans hasks))

theorem run_served : Observed.Run Server.NoMove (.initial 3) served := by
  have hhead : Observed.Run Server.NoMove asked (asked.turn 1 1 (.write takes)) :=
    Observed.run_turn 6 rfl ⟨by decide +kernel, by decide +kernel⟩ trivial
      (noMove_of_open (by decide +kernel))
  have hend : Observed.Run Server.NoMove _ served :=
    Observed.run_turn 6 rfl ⟨by decide +kernel, by decide +kernel⟩ trivial
      (noMove_of_open (by decide +kernel))
  exact run_asked.trans (hhead.trans hend)

theorem seen_turn {s : Observed} {slot number : Nat} (e : Readiness)
    (h : (s.system.server.conns slot).fd.isSome) :
    (s.turn slot number e).seen number = s.seen number ++ [e] := by
  simp only [Observed.turn, Observed.handled, h, if_true, Function.update_self]

theorem seen_served : served.seen 1 = [.read .oneFile asks, .write takes, .write takes] := by
  have hasked : asked.seen 1 = [.read .oneFile asks] := seen_turn _ (by decide +kernel)
  rw [served, seen_turn _ (by decide +kernel), seen_turn _ (by decide +kernel), hasked]
  rfl

/-- `pread` answers with what is left of the file. -/
theorem readsFile_takes (g : Nat) : ReadsFile (text "hi") (takes.pread g) := by
  intro offset bytes h
  obtain rfl := Option.some.inj h
  refine ⟨List.prefix_rfl, ?_, List.drop_eq_nil_iff.mp⟩
  calc
    _ ≤ (text "hi").length := by simp
    _ ≤ SEND_BUF_SIZE := by decide

end OtusCProg.HttpServer
