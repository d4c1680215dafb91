import OtusCProg.HttpServer.Ownership
import OtusCProg.HttpServer.ErrorDelivery

/-!
# The buffers stay in bounds

What the pointers into `recv_buf`, `send_buf` and `server.conns` rely on, in
every run: also in those in which a slot moves and events reach the wrong
connection.
-/

namespace OtusCProg.HttpServer
open Library Compaction

/-- What the handlers rely on: `recv_buf` holds a string that ends at `recv_len`, with room for the
size that `recv` is offered, and `send` is offered a part of `send_buf`. -/
structure Connection.InBounds (conn : Connection) : Prop where
  recv_len : conn.recv_len < RECV_BUF_SIZE
  terminator : conn.recv_buf.bytes[conn.recv_len]? = some 0
  send_len : conn.send_len ≤ SEND_BUF_SIZE
  send_sent : conn.send_sent ≤ conn.send_len

section Handlers
variable {conn : Connection}

theorem inBounds_cleared (fd : Option Nat) : (Connection.cleared fd).InBounds :=
  ⟨show 0 < RECV_BUF_SIZE by decide, rfl, Nat.zero_le _, Nat.le_refl _⟩

theorem Connection.InBounds.close (h : conn.InBounds) : (close_connection conn).1.InBounds :=
  ⟨h.recv_len, h.terminator, h.send_len, h.send_sent⟩

theorem Connection.InBounds.watch_write (h : conn.InBounds) (registered : Bool) :
    (watch_write conn registered).1.InBounds := by
  cases registered with
  | true => exact h
  | false => exact h.close

/-- The length that `snprintf` returns is the length of what it has stored. -/
theorem Connection.InBounds.build (h : conn.InBounds) {code : Nat} {status content_type : Text}
    {content_len : Nat} (hlen : (head code status content_type content_len).length < SEND_BUF_SIZE) :
    (build_http_status conn code status content_type content_len).InBounds :=
  ⟨h.recv_len, h.terminator, hlen.le, Nat.zero_le _⟩

theorem Connection.InBounds.send_error (h : conn.InBounds) {code : Nat} {status : Text}
    (herror : (code, status) ∈ errors) (registered : Bool) :
    (send_error conn code status registered).1.InBounds := by
  have hlen := length_errors (code, status) herror
  rw [List.length_append] at hlen
  refine Connection.InBounds.watch_write ?_ registered
  have hbuilt := h.build (Nat.lt_of_le_of_lt (Nat.le_add_right _ _) hlen)
  split
  · rename_i hfits
    exact ⟨hbuilt.recv_len, hbuilt.terminator, hfits.le, Nat.zero_le _⟩
  · exact hbuilt

theorem Connection.InBounds.handle_request (h : conn.InBounds) (site : Site) (a : ReadAnswers) :
    (handle_request site conn a).1.InBounds := by
  unfold HttpServer.handle_request
  cases hreply : reply_to site (cstr conn.recv_buf.bytes) with
  | error code status => exact h.send_error (reply_to_mem_errors hreply) _
  | file full_path st =>
      have hopened : Connection.InBounds
          { conn with file_fd := some a.file_fd, file_offset := 0, file_size := st.st_size } :=
        ⟨h.recv_len, h.terminator, h.send_len, h.send_sent⟩
      exact (hopened.build (length_head full_path st.st_size_lt)).watch_write a.registered

/-- What `recv` stores ends before the last byte of the buffer. -/
theorem Connection.InBounds.receive (h : conn.InBounds) {bytes : Text}
    (hfit : bytes.length ≤ RECV_BUF_SIZE - conn.recv_len - 1) : (conn.receive bytes).InBounds := by
  have hlen := h.recv_len
  refine ⟨by simp only [Connection.receive]; omega, ?_, h.send_len, h.send_sent⟩
  exact (conn.recv_buf.memcpy conn.recv_len bytes).getElem?_memcpy_singleton 0 (by omega)

theorem Connection.InBounds.handle_read (h : conn.InBounds) (site : Site) (a : ReadAnswers) :
    (handle_read site conn a).1.InBounds := by
  unfold HttpServer.handle_read
  cases conn.fd with
  | none => exact h
  | some fd =>
      dsimp only
      cases a.recv with
      | again => exact h
      | error => exact h.close
      | data bytes =>
          have hreceived : (conn.receive (bytes.take (RECV_BUF_SIZE - conn.recv_len - 1))).InBounds :=
            h.receive (List.length_take_le ..)
          dsimp only
          split_ifs
          · exact h.close
          · exact hreceived.handle_request site a
          · exact hreceived.send_error (by decide) _
          · exact hreceived

theorem Connection.InBounds.send_pending (h : conn.InBounds) (answer : Send) {next : Connection → Outcome}
    (hnext : ∀ conn : Connection, conn.InBounds → (next conn).1.InBounds) :
    (send_pending conn answer next).1.InBounds := by
  cases answer with
  | again => exact h
  | error => exact h.close
  | accepted n =>
      have hlen := length_pending h.send_len
      have hle := h.send_sent
      have hadvanced : Connection.InBounds
          { conn with send_sent := conn.send_sent + (conn.pending.take n).length } := by
        refine ⟨h.recv_len, h.terminator, h.send_len, ?_⟩
        simp only [List.length_take]
        omega
      dsimp only [HttpServer.send_pending, Outcome.after]
      split
      · exact hadvanced
      · exact hnext _ hadvanced

theorem Connection.InBounds.send_block (h : conn.InBounds) (a : WriteAnswers) :
    (send_block a conn).1.InBounds := by
  unfold HttpServer.send_block
  cases hread : (conn.file_fd.bind (a.pread · conn.file_offset)).map (List.take SEND_BUF_SIZE) with
  | none => exact h.close
  | some buf =>
      obtain ⟨bytes, -, rfl⟩ := Option.map_eq_some_iff.mp hread
      cases hbuf : bytes.take SEND_BUF_SIZE with
      | nil => exact h.close
      | cons c rest =>
          have hlen : (c :: rest).length ≤ SEND_BUF_SIZE := hbuf ▸ List.length_take_le ..
          refine Connection.InBounds.send_pending ?_ a.block fun _ h => h
          exact ⟨h.recv_len, h.terminator, hlen, Nat.zero_le _⟩

theorem Connection.InBounds.handle_write (h : conn.InBounds) (a : WriteAnswers) :
    (handle_write conn a).1.InBounds := by
  unfold HttpServer.handle_write
  split
  · exact h
  · refine h.send_pending _ fun conn h => ?_
    split
    · refine Connection.InBounds.send_block ?_ a
      exact ⟨h.recv_len, h.terminator, Nat.zero_le _, Nat.le_refl _⟩
    · exact h.close
  · split_ifs
    · exact h.send_pending _ fun conn h => h.send_block a
    · exact h.send_block a
  · exact h

end Handlers

/-- The buffers of every slot, and every pointer into `server.conns`, are in bounds. -/
structure System.InBounds (s : System) : Prop where
  nconns : s.server.nconns ≤ MAX_CONN
  buffers : ∀ i, (s.server.conns i).InBounds
  udata : ∀ fd filter slot, s.kernel.udata fd filter = some slot → slot < MAX_CONN
  batch : ∀ events, s.batch = some events →
    ∀ fd filter slot number, .ready fd filter slot number ∈ events → slot < MAX_CONN

section System
variable {s t : System} {slot : Nat}

theorem udata_performAll {k : Kernel} {actions : List Action}
    (hslot : ∀ fd filter, .added fd filter ∈ actions → slot < MAX_CONN)
    (h : ∀ fd filter i, k.udata fd filter = some i → i < MAX_CONN) (fd : Nat) (filter : Filter) (i : Nat)
    (hi : (k.performAll slot actions).udata fd filter = some i) : i < MAX_CONN := by
  induction actions generalizing k with
  | nil => exact h fd filter i hi
  | cons a actions ih =>
      refine ih (fun fd filter hmem => hslot fd filter (List.mem_cons_of_mem a hmem)) ?_ hi
      intro fd' filter' i' hi'
      cases a with
      | added x f =>
          simp only [Kernel.perform, Function.update_apply] at hi'
          split_ifs at hi' with hx
          · rw [Function.update_apply] at hi'
            split_ifs at hi'
            · exact Option.some.inj hi' ▸ hslot x f List.mem_cons_self
            · exact h _ _ _ hi'
          · exact h _ _ _ hi'
      | deleted x f =>
          simp only [Kernel.perform, Function.update_apply] at hi'
          split_ifs at hi' with hx
          · rw [Function.update_apply] at hi'
            split_ifs at hi'
            exact h _ _ _ hi'
          · exact h _ _ _ hi'
      | closed x =>
          simp only [Kernel.perform, Function.update_apply] at hi'
          split_ifs at hi'
          exact h _ _ _ hi'
      | accepted x => exact h _ _ _ hi'
      | opened x path => exact h _ _ _ hi'
      | built code => exact h _ _ _ hi'
      | sent bytes => exact h _ _ _ hi'
      | failed => exact h _ _ _ hi'

/-- An event is handled in a slot of the array. -/
theorem System.InBounds.handled (h : s.InBounds) {fd number : Nat} {filter : Filter} {rest : List Event}
    {o : Outcome} (hbatch : s.batch = some (.ready fd filter slot number :: rest)) (ho : o.1.InBounds) :
    (s.handled slot o rest).InBounds where
  nconns := h.nconns
  buffers i := by
    by_cases hi : i = slot
    · rw [hi]
      simpa [System.handled] using ho
    · simpa [System.handled, Function.update_of_ne hi] using h.buffers i
  udata := udata_performAll (fun _ _ _ => h.batch _ hbatch fd filter slot number List.mem_cons_self) h.udata
  batch events hevents fd' filter' slot' number' hmem := by
    obtain rfl := Option.some.inj hevents
    exact h.batch _ hbatch fd' filter' slot' number' (List.mem_cons_of_mem _ hmem)

theorem System.InBounds.accept (h : s.InBounds) {client : Option Client} {rest : List Event}
    (hbatch : s.batch = some (.listening :: rest)) : (s.accept client rest).InBounds where
  nconns := accept_nconns_le h.nconns client
  buffers i := by
    cases client with
    | none => exact h.buffers i
    | some c =>
        have hpushed : (Function.update s.server.conns s.server.nconns (.cleared c.fd) i).InBounds := by
          rw [Function.update_apply]
          split
          · exact inBounds_cleared c.fd
          · exact h.buffers i
        simp only [System.accept, accept_connection]
        split_ifs
        · exact h.buffers i
        · exact hpushed
        · exact hpushed
  udata fd filter i hi := by
    cases client with
    | none => exact h.udata fd filter i hi
    | some c =>
        simp only [System.accept, accept_connection] at hi
        split_ifs at hi with hfull
        · exact udata_performAll (by simp) h.udata fd filter i hi
        · exact udata_performAll (fun _ _ _ => Nat.lt_of_not_le fun hle => hfull (.inl hle)) h.udata fd filter i hi
        · exact udata_performAll (by simp) h.udata fd filter i hi
  batch events hevents fd filter slot number hmem := by
    obtain rfl := Option.some.inj hevents
    exact h.batch _ hbatch fd filter slot number (List.mem_cons_of_mem _ hmem)

theorem System.InBounds.free (h : s.InBounds) : s.free.InBounds where
  nconns :=
    calc
      s.free.server.nconns ≤ s.server.nconns := free_nconns ▸ length_kept_le ..
      _ ≤ MAX_CONN := h.nconns
  buffers i := by
    rw [System.free, free_conns, compact_eq]
    exact h.buffers _
  udata := h.udata
  batch := nofun

theorem System.InBounds.step (h : s.InBounds) (hstep : Step s t) : t.InBounds := by
  cases hstep with
  | @poll events hbatch hlen hnodup hreport =>
      refine ⟨h.nconns, h.buffers, h.udata, ?_⟩
      intro events' hevents fd filter slot number hmem
      obtain rfl := Option.some.inj hevents
      exact h.udata fd filter slot (hreport _ hmem).1
  | accept hbatch => exact h.accept hbatch
  | read hbatch => exact h.handled hbatch ((h.buffers _).handle_read _ _)
  | write hbatch => exact h.handled hbatch ((h.buffers _).handle_write _)
  | free => exact h.free

end System

theorem inBounds_initial (listen_fd : Nat) : (System.initial listen_fd).InBounds :=
  ⟨Nat.zero_le _, fun _ => inBounds_cleared none, nofun, nofun⟩

/-- In every run at all, every buffer and every pointer to a slot stays in bounds. -/
theorem buffers_in_bounds {C : Server → Prop} {listen_fd : Nat} {s : System}
    (h : Run C (.initial listen_fd) s) : s.InBounds := by
  induction h with
  | refl => exact inBounds_initial listen_fd
  | tail _ hstep ih => exact ih.step hstep.1

/-- Two clients come and the first one leaves, so that a slot moves. -/
theorem buffers_in_bounds_moved : ((((System.initial 3).comes 5).comes 6).leaves 0).InBounds := by
  have hrun :=
    calc
      Run (fun _ => True) (.initial 3) ((System.initial 3).comes 5) := run_comes rfl rfl trivial
      Run (fun _ => True) _ (((System.initial 3).comes 5).comes 6) := run_comes rfl (by decide) trivial
      Run (fun _ => True) _ ((((System.initial 3).comes 5).comes 6).leaves 0) :=
        run_leaves 5 0 rfl ⟨by decide, by decide⟩ (by decide) trivial
  exact buffers_in_bounds hrun

end OtusCProg.HttpServer
