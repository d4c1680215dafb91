import OtusCProg.HttpServer.Model

/-!
# The response stream

What `send` has accepted, followed by what is pending in `send_buf`, is the
header followed by the part of the file that was read. Each path through
`handle_write` keeps this equation, so that no short count loses, repeats or
reorders a byte.
-/

namespace OtusCProg.HttpServer
open Library

/-- The bytes that an action puts on the socket. -/
@[simp] def Action.bytes : Action → Text
  | .sent bytes => bytes
  | _ => []

/-- The bytes that `send` accepted. -/
def accepted (trace : List Action) : Text := trace.flatMap Action.bytes

@[simp] theorem accepted_nil : accepted [] = [] := rfl

@[simp] theorem accepted_cons (action : Action) (t : List Action) :
    accepted (action :: t) = action.bytes ++ accepted t :=
  List.flatMap_cons

@[simp] theorem accepted_append (t u : List Action) : accepted (t ++ u) = accepted t ++ accepted u :=
  List.flatMap_append

@[simp] theorem accepted_close (conn : Connection) : accepted (close_connection conn).2 = [] := by
  cases hfd : conn.fd <;> cases hfile : conn.file_fd <;> simp [close_connection, hfd, hfile]

/-- `pread` answers from the content `F`: with some bytes from the offset on, none of them only
at the end. -/
def ReadsFile (F : Text) (pread : Nat → Option Text) : Prop :=
  ∀ offset bytes, pread offset = some bytes →
    bytes <+: F.drop offset ∧ bytes.length ≤ SEND_BUF_SIZE ∧ (bytes = [] → F.length ≤ offset)

/-- What `handle_request` leaves after a 200 with `header` in `send_buf`. -/
structure Answering (header : Text) (conn : Connection) : Prop where
  fd : conn.fd ≠ none
  file_fd : conn.file_fd ≠ none
  state : conn.state = .sending_header
  file_offset : conn.file_offset = 0
  send_len : conn.send_len = header.length
  send_sent : conn.send_sent = 0
  send_buf : conn.send_buf.bytes.take header.length = header

/-- The connection is open and serves the file `g`, and accepted and pending bytes are the stream read
so far. -/
structure Sending (g : Nat) (header F : Text) (conn : Connection) (sent : Text) : Prop where
  fd : conn.fd ≠ none
  file_fd : conn.file_fd = some g
  state : conn.state = .sending_header ∨ conn.state = .sending_file
  send_len : conn.send_len ≤ SEND_BUF_SIZE
  send_sent : conn.send_sent ≤ conn.send_len
  stream : sent ++ conn.pending = header ++ F.take conn.file_offset

/-- Where the stream stands after the actions `trace`. -/
def Served (g : Nat) (header F : Text) (conn : Connection) (trace : List Action) : Prop :=
  Sending g header F conn (accepted trace) ∨
    conn.fd = none ∧ accepted trace <+: header ++ F ∧
      (.failed ∉ trace → accepted trace = header ++ F)

section Stream
variable {g : Nat} {header F : Text} {conn : Connection} {trace : List Action}

theorem length_pending (h : conn.send_len ≤ SEND_BUF_SIZE) :
    conn.pending.length = conn.send_len - conn.send_sent := by
  have hbuf := conn.send_buf.length_eq
  simp only [Connection.pending, List.length_take, List.length_drop]
  omega

theorem pending_eq_nil (h : conn.send_len ≤ SEND_BUF_SIZE) (hdone : conn.send_len ≤ conn.send_sent) :
    conn.pending = [] := by
  apply List.eq_nil_of_length_eq_zero
  rw [length_pending h]
  omega

/-- `send` moves bytes from the pending ones to the accepted ones. -/
theorem pending_advance (conn : Connection) (n : Nat) :
    conn.pending.drop n =
      { conn with send_sent := conn.send_sent + (conn.pending.take n).length }.pending := by
  have hdrop : conn.pending.drop n = conn.pending.drop (conn.pending.take n).length := by
    rw [List.length_take]
    rcases Nat.le_total n conn.pending.length with h | h
    · rw [Nat.min_eq_left h]
    · rw [Nat.min_eq_right h, List.drop_of_length_le h, List.drop_length]
  rw [hdrop, Connection.pending, List.drop_take, List.drop_drop, Connection.pending, Nat.sub_sub]


theorem Answering.sending (h : Answering header conn) (hfile : conn.file_fd = some g) : Sending g header F conn [] where
  fd := h.fd
  file_fd := hfile
  state := .inl h.state
  send_len := by
    have hlen := congrArg List.length h.send_buf
    have hbuf := conn.send_buf.length_eq
    rw [List.length_take] at hlen
    rw [h.send_len]
    omega
  send_sent := by
    rw [h.send_sent]
    exact Nat.zero_le _
  stream := by
    rw [Connection.pending, h.send_sent, h.send_len, h.file_offset]
    simpa using h.send_buf

theorem Sending.isPrefix (h : Sending g header F conn (accepted trace)) :
    accepted trace <+: header ++ F := by
  calc
    accepted trace <+: accepted trace ++ conn.pending := List.prefix_append ..
    _ = header ++ F.take conn.file_offset := h.stream
    _ <+: header ++ F := (List.prefix_append_right_inj header).mpr ( List.take_prefix ..)

/-- An outcome of `handle_write` behind `trace` that keeps the stream. -/
def KeepsStream (g : Nat) (header F : Text) (trace : List Action) (o : Outcome) : Prop :=
  Served g header F o.1 (trace ++ o.2)

theorem KeepsStream.after {actions : List Action} {o : Outcome} (h : KeepsStream g header F (trace ++ actions) o) :
    KeepsStream g header F trace (o.after actions) := by
  rw [KeepsStream, List.append_assoc] at h
  exact h

theorem Sending.keeps (h : Sending g header F conn (accepted trace)) :
    KeepsStream g header F trace (conn, []) := by
  left
  rw [List.append_nil]
  exact h

/-- Closing where the whole stream is accepted. -/
theorem Sending.keeps_close (h : Sending g header F conn (accepted trace))
    (hall : accepted trace = header ++ F) : KeepsStream g header F trace (close_connection conn) := by
  right
  refine ⟨rfl, ?_, ?_⟩
  · simpa using h.isPrefix
  · intro _
    simpa using hall

/-- Closing behind a failure. -/
theorem Sending.keeps_fail (h : Sending g header F conn (accepted trace)) :
    KeepsStream g header F trace ((close_connection conn).after [.failed]) := by
  apply KeepsStream.after
  right
  refine ⟨rfl, ?_, ?_⟩
  · simpa using h.isPrefix
  · intro hfailed
    simp at hfailed

/-- A `send` keeps the stream where `next` does with nothing left to send. -/
theorem Sending.keeps_pending {answer : Send} {next : Connection → Outcome}
    (h : Sending g header F conn (accepted trace))
    (hnext : ∀ sent bytes, Sending g header F { conn with send_sent := sent } (accepted (trace ++ bytes)) →
      { conn with send_sent := sent }.pending = [] →
        KeepsStream g header F (trace ++ bytes) (next { conn with send_sent := sent })) :
    KeepsStream g header F trace (send_pending conn answer next) := by
  cases answer with
  | again => exact h.keeps
  | error => exact h.keeps_fail
  | accepted n =>
      have hlen := length_pending h.send_len
      have hadvance := pending_advance conn n
      have hsent : Sending g header F
          { conn with send_sent := conn.send_sent + (conn.pending.take n).length }
          (accepted (trace ++ [.sent (conn.pending.take n)])) := by
        refine ⟨h.fd, h.file_fd, h.state, h.send_len, ?_, ?_⟩
        · have hle := h.send_sent
          simp only [List.length_take]
          omega
        · rw [← hadvance]
          simpa using h.stream
      apply KeepsStream.after
      split
      · exact hsent.keeps
      · rename_i hdone
        apply hnext _ _ hsent
        exact pending_eq_nil h.send_len (Nat.not_lt.mp hdone)

/-- With nothing left to send, the next block keeps the stream. -/
theorem Sending.keeps_block {a : WriteAnswers} (hread : ReadsFile F (a.pread g))
    (h : Sending g header F conn (accepted trace)) (hstate : conn.state = .sending_file)
    (hempty : conn.pending = []) : KeepsStream g header F trace (send_block a conn) := by
  have hstream := h.stream
  rw [hempty, List.append_nil] at hstream
  unfold send_block
  rw [h.file_fd, Option.bind_some]
  cases hp : a.pread g conn.file_offset with
  | none => exact h.keeps_fail
  | some bytes =>
      obtain ⟨hpart, hlen, hend⟩ := hread _ _ hp
      rw [Option.map_some, List.take_of_length_le hlen]
      cases bytes with
      | nil =>
          apply h.keeps_close
          rw [hstream, List.take_of_length_le (hend rfl)]
      | cons c bytes =>
          apply Sending.keeps_pending
          · refine ⟨h.fd, rfl, .inr hstate, hlen, Nat.zero_le _, ?_⟩
            have hcopy := conn.send_buf.take_memcpy 0 (c :: bytes) (by simpa using hlen)
            rw [Nat.zero_add, List.take_zero, List.nil_append] at hcopy
            rw [hstream, List.append_assoc, List.take_add, ← List.prefix_iff_eq_take.mp hpart]
            simpa [Connection.pending] using hcopy
          · intro sent bytes' hsending _
            exact hsending.keeps

theorem Served.isPrefix (h : Served g header F conn trace) : accepted trace <+: header ++ F := by
  rcases h with h | ⟨-, h, -⟩
  · exact h.isPrefix
  · exact h

/-- One call of `handle_write`. -/
theorem served_handle_write {a : WriteAnswers} (hread : ReadsFile F (a.pread g))
    (h : Served g header F conn trace) : KeepsStream g header F trace (handle_write conn a) := by
  rcases h with h | ⟨hfd, hclosed⟩
  · obtain ⟨fd, hfd⟩ := Option.ne_none_iff_exists'.mp h.fd
    rcases h.state with hstate | hstate
    · simp only [handle_write, hfd, hstate]
      apply h.keeps_pending
      intro sent bytes hsending hempty
      simp only [h.file_fd]
      have hstream := hsending.stream
      rw [hempty, List.append_nil] at hstream
      apply Sending.keeps_block hread _ rfl (by simp [Connection.pending])
      exact ⟨h.fd, rfl, .inr rfl, Nat.zero_le _, Nat.le_refl _,
        by simpa [Connection.pending] using hstream⟩
    · simp only [handle_write, hfd, hstate]
      split
      · apply h.keeps_pending
        intro sent bytes hsending hempty
        exact hsending.keeps_block hread hstate hempty
      · rename_i hdone
        exact h.keeps_block hread hstate (pending_eq_nil h.send_len (Nat.not_lt.mp hdone))
  · right
    simp only [handle_write, hfd, List.append_nil]
    exact ⟨trivial, hclosed⟩

end Stream

/-- Calls of `handle_write` one after the other. -/
def handle_writes (conn : Connection) : List WriteAnswers → Outcome
  | [] => (conn, [])
  | a :: answers =>
      let (conn, actions) := handle_write conn a
      (handle_writes conn answers).after actions

theorem served_handle_writes {g : Nat} {header F : Text} {conn : Connection} {trace : List Action}
    {answers : List WriteAnswers} (hread : ∀ a ∈ answers, ReadsFile F (a.pread g))
    (h : Served g header F conn trace) : KeepsStream g header F trace (handle_writes conn answers) := by
  induction answers generalizing conn trace with
  | nil =>
      rw [KeepsStream, handle_writes, List.append_nil]
      exact h
  | cons a answers ih =>
      apply KeepsStream.after
      apply ih fun b hb => hread b (List.mem_cons_of_mem a hb)
      exact served_handle_write (hread a List.mem_cons_self) h

/-- Whatever `send` and `pread` answer, what was accepted is always in front of the header and the
file, and it is all of them when the connection closes without a failure. -/
theorem response_stream {header F : Text} {conn : Connection} {answers : List WriteAnswers}
    (h : Answering header conn)
    (hread : ∀ a ∈ answers, ∀ g ∈ conn.file_fd, ReadsFile F (a.pread g)) :
    (∀ t, t <+: (handle_writes conn answers).2 → accepted t <+: header ++ F) ∧
      ((handle_writes conn answers).1.fd = none → .failed ∉ (handle_writes conn answers).2 →
        accepted (handle_writes conn answers).2 = header ++ F) := by
  obtain ⟨g, hfile⟩ := Option.ne_none_iff_exists'.mp h.file_fd
  have hserved : Served g header F conn [] := .inl (h.sending hfile)
  have hkeeps := served_handle_writes (fun a ha => hread a ha g hfile) hserved
  rw [KeepsStream, List.nil_append] at hkeeps
  constructor
  · rintro t ⟨u, hu⟩
    calc
      accepted t <+: accepted t ++ accepted u := List.prefix_append ..
      _ = accepted (handle_writes conn answers).2 := by rw [← hu, accepted_append]
      _ <+: header ++ F := hkeeps.isPrefix
  · intro hfd hfailed
    rcases hkeeps with hsending | ⟨-, -, hall⟩
    · exact absurd hfd hsending.fd
    · exact hall hfailed

/-- A connection that answers with the header `A` and a file of two bytes. -/
def twoBytes : Connection :=
  { Connection.cleared (some 5) with
    state := .sending_header
    file_fd := some 6
    send_buf := Buffer.memcpy (.zero _) 0 [65]
    send_len := 1 }

/-- The block is accepted in two halves, then the file ends. -/
theorem response_stream_twoBytes :
    let answers := List.replicate 2 ⟨.accepted 1, fun _ offset => some (List.drop offset [66, 67]), .accepted 1⟩
    accepted (handle_writes twoBytes answers).2 = [65] ++ [66, 67] := by
  have hread : ReadsFile [66, 67] fun offset => some (List.drop offset [66, 67]) := by
    intro offset bytes h
    obtain rfl := Option.some.inj h
    refine ⟨List.prefix_rfl, ?_, List.drop_eq_nil_iff.mp⟩
    calc
      _ ≤ 2 := by simp
      _ ≤ SEND_BUF_SIZE := by decide
  apply (response_stream ⟨by decide, by decide, rfl, rfl, rfl, rfl, by decide⟩ ?_).2
  · decide
  · decide
  · intro a ha g _
    rw [List.eq_of_mem_replicate ha]
    exact hread

section Head

theorem length_get_mime_type (path : Text) : (get_mime_type path).length ≤ 24 := by
  have hdefault : octet_stream.length ≤ 24 := by decide
  have htypes : ∀ entry ∈ mime_types, entry.2.length ≤ 24 := by decide
  unfold get_mime_type
  cases strrchr 46 path with
  | none => exact hdefault
  | some ext =>
      show ((mime_types.lookup ext).getD octet_stream).length ≤ 24
      cases hlookup : mime_types.lookup ext with
      | none => exact hdefault
      | some mime =>
          obtain ⟨l, r, hmem, -⟩ := List.lookup_eq_some_iff.mp hlookup
          apply htypes (ext, mime)
          rw [hmem]
          simp

theorem length_head (path : Text) {size : Nat} (h : size < 2 ^ 63) :
    (head 200 (text "OK") (get_mime_type path) size).length < SEND_BUF_SIZE := by
  have hmime := length_get_mime_type path
  have hsize := length_decimal_le h
  have hfixed :
      (text "HTTP/1.1 ").length + (decimal (200 : Nat)).length + (text " ").length + (text "OK").length +
        (text "\r\nContent-Type: ").length + (text "\r\nContent-Length: ").length +
          (text "\r\nConnection: close\r\n\r\n").length = 72 := by
    decide
  simp only [head, List.length_append, SEND_BUF_SIZE]
  omega

/-- A head that fits stands in `send_buf` as a whole. -/
theorem take_build_http_status (conn : Connection) {code : Nat} {status content_type : Text}
    {content_len : Nat} (h : (head code status content_type content_len).length < SEND_BUF_SIZE) :
    (build_http_status conn code status content_type content_len).send_buf.bytes.take
        (head code status content_type content_len).length =
      head code status content_type content_len := by
  simp only [build_http_status]
  set printed := head code status content_type content_len
  rw [List.take_of_length_le (show printed.length ≤ SEND_BUF_SIZE - 1 by omega)]
  have hcopy := conn.send_buf.take_memcpy 0 (printed ++ [0]) (by simp; omega)
  rw [List.take_zero, List.nil_append, Nat.zero_add] at hcopy
  calc
    _ = ((conn.send_buf.memcpy 0 (printed ++ [0])).bytes.take (printed ++ [0]).length).take
          printed.length := by rw [List.take_take]; simp
    _ = printed := by rw [hcopy, List.take_left']; rfl

/-- A 200 leaves its head in `send_buf`. -/
theorem handle_request_answering {site : Site} {conn : Connection} {a : ReadAnswers}
    {full_path : Text} {st : Stat} (hfd : conn.fd ≠ none) (hregistered : a.registered = true)
    (hreply : reply_to site (cstr conn.recv_buf.bytes) = .file full_path st) :
    Answering (head 200 (text "OK") (get_mime_type full_path) st.st_size)
      (handle_request site conn a).1 := by
  have htake := take_build_http_status
    { conn with file_fd := some a.file_fd, file_offset := 0, file_size := st.st_size }
    (length_head full_path st.st_size_lt)
  simp only [handle_request, hreply, watch_write, hregistered, if_true, Outcome.after]
  exact ⟨hfd, Option.some_ne_none _, rfl, rfl, rfl, rfl, htake⟩

end Head

end OtusCProg.HttpServer
