import OtusCProg.HttpServer.Isolation

/-!
# No descriptor leaks

A connection opens a file once, after the filter of its requests is deleted,
and closes it with its socket. So each open descriptor of a run in which no
slot moves belongs to one slot.
-/

namespace OtusCProg.HttpServer
open Library

section Files
variable {conn : Connection} {g : Nat}

/-- A handler that closes its connection closes the file `g` last. -/
def ClosesFile (g : Nat) (o : Outcome) : Prop := o.1.fd = none → ∃ front, o.2 = front ++ [.closed g]

theorem ClosesFile.after {actions : List Action} {o : Outcome} (h : ClosesFile g o) :
    ClosesFile g (o.after actions) := by
  intro hclosed
  obtain ⟨front, hfront⟩ := h hclosed
  exact ⟨actions ++ front, by rw [Outcome.after, hfront, List.append_assoc]⟩

theorem closesFile_close (hfile : conn.file_fd = some g) : ClosesFile g (close_connection conn) := by
  intro _
  simp [close_connection, hfile]

theorem closesFile_open (hfd : conn.fd ≠ none) : ClosesFile g (conn, []) :=
  fun hclosed => absurd hclosed hfd

theorem closesFile_send_pending {answer : Send} {next : Connection → Outcome} (hfd : conn.fd ≠ none)
    (hfile : conn.file_fd = some g)
    (hnext : ∀ sent, ClosesFile g (next { conn with send_sent := sent })) :
    ClosesFile g (send_pending conn answer next) := by
  cases answer with
  | again => exact closesFile_open hfd
  | error => exact (closesFile_close hfile).after
  | accepted n =>
      refine ClosesFile.after ?_
      split
      · exact closesFile_open hfd
      · exact hnext _

theorem closesFile_send_block (a : WriteAnswers) (hfd : conn.fd ≠ none) (hfile : conn.file_fd = some g) :
    ClosesFile g (send_block a conn) := by
  unfold send_block
  split
  · exact (closesFile_close hfile).after
  · exact closesFile_close hfile
  · refine closesFile_send_pending ?_ ?_ fun _ => closesFile_open ?_
    · exact hfd
    · exact hfile
    · exact hfd

theorem closesFile_handle_write (a : WriteAnswers) (hfd : conn.fd ≠ none) (hfile : conn.file_fd = some g) :
    ClosesFile g (handle_write conn a) := by
  unfold handle_write
  split
  · rename_i hnone
    exact absurd hnone hfd
  · refine closesFile_send_pending hfd hfile fun sent => ?_
    simp only [hfile]
    refine closesFile_send_block a ?_ rfl
    exact hfd
  · split_ifs
    · refine closesFile_send_pending hfd hfile fun sent => closesFile_send_block a ?_ ?_
      · exact hfd
      · exact hfile
    · exact closesFile_send_block a hfd hfile
  · exact closesFile_open hfd

/-- The outcome has the file of `conn`, or none. -/
def SameFile (conn : Connection) (o : Outcome) : Prop :=
  o.1.file_fd = conn.file_fd ∨ o.1.file_fd = none

theorem sameFile_send_pending {answer : Send} {next : Connection → Outcome}
    (hnext : ∀ sent, SameFile conn (next { conn with send_sent := sent })) :
    SameFile conn (send_pending conn answer next) := by
  cases answer with
  | again => exact .inl rfl
  | error => exact .inr rfl
  | accepted n =>
      dsimp only [send_pending]
      split
      · exact .inl rfl
      · exact hnext _

theorem sameFile_send_block (a : WriteAnswers) : SameFile conn (send_block a conn) := by
  unfold send_block
  split
  · exact .inr rfl
  · exact .inr rfl
  · exact sameFile_send_pending fun _ => .inl rfl

/-- `handle_write` opens no file. -/
theorem sameFile_handle_write (a : WriteAnswers) : SameFile conn (handle_write conn a) := by
  unfold handle_write
  split
  · exact .inl rfl
  · refine sameFile_send_pending fun sent => ?_
    cases hfile : conn.file_fd with
    | none => exact .inr rfl
    | some g =>
        have hblock : SameFile { conn with send_sent := 0, state := .sending_file, send_len := 0 } _ :=
          sameFile_send_block a
        rw [SameFile, hfile]
        simpa only [SameFile, hfile] using hblock
  · split_ifs
    · exact sameFile_send_pending fun sent => sameFile_send_block a
    · exact sameFile_send_block a
  · exact .inl rfl

/-- A file is opened where the filter of the request has been deleted. -/
theorem rearm_handle_read (site : Site) (a : ReadAnswers) (hfile : conn.file_fd = none)
    (hopened : (handle_read site conn a).1.file_fd ≠ none) (armed : Filter → Bool) :
    (handle_read site conn a).2.foldl rearm armed .read = false := by
  cases hfd : conn.fd with
  | none =>
      simp only [handle_read, hfd] at hopened
      exact absurd hfile hopened
  | some fd =>
      simp only [handle_read, hfd] at hopened ⊢
      cases hrecv : a.recv with
      | again =>
          rw [hrecv] at hopened
          exact absurd hfile hopened
      | error =>
          rw [hrecv] at hopened
          exact absurd rfl hopened
      | data bytes =>
          simp only [hrecv] at hopened ⊢
          have herror : ∀ conn' : Connection, conn'.file_fd = none → ∀ code status,
              (send_error conn' code status a.registered).1.file_fd = none := by
            intro conn' hfile' code status
            cases a.registered with
            | false => rfl
            | true => exact (fields_send_error conn' code status).2.1.trans hfile'
          split_ifs at hopened ⊢
          · exact absurd rfl hopened
          · set received := conn.receive (bytes.take (RECV_BUF_SIZE - conn.recv_len - 1))
            have hreceived : received.fd = some fd := hfd
            unfold handle_request at hopened ⊢
            cases hreply : reply_to site (cstr received.recv_buf.bytes) with
            | error code status =>
                rw [hreply] at hopened
                exact absurd (herror received hfile code status) hopened
            | file full_path st =>
                rw [hreply] at hopened
                cases hregistered : a.registered with
                | false =>
                    simp only [hregistered] at hopened
                    exact absurd rfl hopened
                | true => simp [Outcome.after, watch_write, build_http_status, rearm, hreceived]
          · exact absurd (herror (conn.receive _) hfile 413 _) hopened
          · exact absurd hfile hopened

end Files

/-- A session with a file no longer watches for requests. -/
theorem Session.After.not_armed_read {fd : Nat} {events : List Readiness} {t : Session}
    (h : Session.After fd events t) (hfile : t.conn.file_fd ≠ none) : t.armed .read = false := by
  induction h with
  | accepted => exact absurd rfl hfile
  | @handled events s t e h hopen hstep ih =>
      obtain ⟨hready, rfl⟩ := step_eq_ok.mp hstep
      cases e with
      | read site a =>
          have hnone : s.conn.file_fd = none := by
            by_contra hsome
            exact absurd ((ih hsome).symm.trans hready) nofun
          exact rearm_handle_read site a hnone hfile s.armed
      | write a =>
          have hsome : s.conn.file_fd ≠ none := fun hnone =>
            hfile ((sameFile_handle_write a).elim (·.trans hnone) id)
          rw [← Bool.not_eq_true]
          intro harmed
          have hold := rearm_of_passive (passive_handle_write a) harmed
          exact absurd ((ih hsome).symm.trans hold) nofun

/-- Each descriptor that is open belongs to something: the listening socket, one slot as its socket,
or one open slot as its file. -/
structure Accounted (listen_fd : Nat) (s : System) : Prop where
  listener : ∀ x, s.kernel.fds x = some .listener → x = listen_fd
  client : ∀ x n, s.kernel.fds x = some (.client n) → ∃! i, i < s.server.nconns ∧ (s.server.conns i).fd = some x
  file : ∀ x, s.kernel.fds x = some .file →
    ∃! i, i < s.server.nconns ∧ (s.server.conns i).fd ≠ none ∧ (s.server.conns i).file_fd = some x

/-- No file is left open, and a closed slot has none. -/
structure NoStray (listen_fd : Nat) (s : System) : Prop where
  listener : ∀ x, s.kernel.fds x = some .listener → x = listen_fd
  file : ∀ x, s.kernel.fds x = some .file →
    ∃ i < s.server.nconns, (s.server.conns i).fd ≠ none ∧ (s.server.conns i).file_fd = some x

section Descriptors
variable {s : Observed} {listen_fd : Nat}

theorem NoStray.accounted {s : System} (h : NoStray listen_fd s) (howned : Owned s.server s.kernel) :
    Accounted listen_fd s where
  listener := h.listener
  client x n hx := by
    obtain ⟨i, hi, hfd⟩ := howned.slot x ⟨n, hx⟩
    refine ⟨i, ⟨hi, hfd⟩, ?_⟩
    rintro j ⟨hj, hfd'⟩
    exact howned.socket_inj j hj i hi x hfd' hfd
  file x hx := by
    obtain ⟨i, hi, hopen, hfile⟩ := h.file x hx
    refine ⟨i, ⟨hi, hopen, hfile⟩, ?_⟩
    rintro j ⟨hj, -, hfile'⟩
    exact howned.file_inj j hj i hi x hfile' hfile

theorem NoStray.accept {s : System} {client : Option Client} {rest : List Event}
    (h : NoStray listen_fd s) (howned : Owned s.server s.kernel)
    (hnew : ∀ c ∈ client, s.kernel.fds c.fd = none) : NoStray listen_fd (s.accept client rest) := by
  rcases accept_cases rest howned hnew with
    ⟨hnconns, hconns, hfds, -, -⟩ | ⟨fd, hfd, hserver, hkernel⟩
  · constructor
    · simpa only [hfds] using h.listener
    · intro x hx
      rw [hfds] at hx
      obtain ⟨i, hi, hopen, hfile⟩ := h.file x hx
      exact ⟨i, hnconns ▸ hi, by rwa [hconns i hi], by rwa [hconns i hi]⟩
  · have hold : ∀ x d, (∀ n, d ≠ .client n) → (s.accept client rest).kernel.fds x = some d →
        s.kernel.fds x = some d := by
      intro x d hd hx
      by_cases hne : x = fd
      · simp only [hkernel, hne, performAll_cons, performAll_nil, Kernel.perform, Function.update_self] at hx
        exact absurd (Option.some.inj hx).symm (hd _)
      · simpa [hkernel, Kernel.perform, Function.update_of_ne hne] using hx
    constructor
    · intro x hx
      exact h.listener x (hold x _ (by simp) hx)
    · intro x hx
      obtain ⟨i, hi, hopen, hfile⟩ := h.file x (hold x _ (by simp) hx)
      rw [hserver]
      exact ⟨i, Nat.lt_succ_of_lt hi, by rwa [push_of_lt hi], by rwa [push_of_lt hi]⟩

theorem NoStray.free {s : System} (h : NoStray listen_fd s) (hmove : s.server.NoMove) :
    NoStray listen_fd s.free where
  listener := h.listener
  file x hx := by
    have hconns : (free_conns s.server).conns = s.server.conns := Compaction.Packed.compact_fst hmove
    obtain ⟨i, hi, hopen, hfile⟩ := h.file x hx
    obtain ⟨fd, hfd⟩ := Option.ne_none_iff_exists'.mp hopen
    refine ⟨i, (hmove.lt_iff hfd).mpr hi, ?_, ?_⟩
    · rwa [System.free, hconns]
    · rwa [System.free, hconns]

section Ready
variable {slot number sock : Nat} {rest : List Event} {e : Readiness}

/-- A connection that is told of a request has no file yet. -/
theorem Observed.Isolated.file_fd_eq_none (h : s.Isolated)
    (hbatch : s.system.batch = some (.ready sock .read slot number :: rest))
    (hslot : slot < s.system.server.nconns) (hopen : (s.system.server.conns slot).fd = some sock)
    (hclient : s.system.kernel.fds sock = some (.client number)) :
    (s.system.server.conns slot).file_fd = none := by
  obtain ⟨t, ht⟩ := h.view number
  obtain ⟨i, hi, hheld, hsome, harmed⟩ := ht.held sock hclient
  obtain rfl : i = slot :=
    h.inv.owned.socket_inj i hi slot hslot sock (by rw [hheld, hsome]) hopen
  have hready : t.armed .read = true := by
    rw [harmed]
    refine h.pending _ hbatch _ List.mem_cons_self ?_
    rw [hopen]
    exact Option.some_ne_none _
  by_contra hfile
  obtain ⟨fd, hafter⟩ := ht.after
  rw [hheld] at hfile
  exact absurd ((hafter.not_armed_read hfile).symm.trans hready) Bool.false_ne_true

/-- A slot that the event is not for goes on holding its file. -/
theorem exists_handled_of_ne {x j : Nat} (hj : j < s.system.server.nconns)
    (hopen : (s.system.server.conns j).fd ≠ none) (hfile : (s.system.server.conns j).file_fd = some x)
    (hne : j ≠ slot) :
    ∃ i < (s.handled slot number e rest).system.server.nconns,
      ((s.handled slot number e rest).system.server.conns i).fd ≠ none ∧
        ((s.handled slot number e rest).system.server.conns i).file_fd = some x := by
  have hother : (s.handled slot number e rest).system.server.conns j = s.system.server.conns j :=
    Function.update_of_ne hne ..
  exact ⟨j, hj, by rwa [hother], by rwa [hother]⟩

/-- The connection stays open: its file stays in its slot, and a file that is opened is the only one. -/
theorem NoStray.ready_keeps (h : NoStray listen_fd s.system) (hslot : slot < s.system.server.nconns)
    (hread : e.filter = .read → (s.system.server.conns slot).file_fd = none)
    (hkeeps : Keeps s.system.kernel slot sock (s.system.server.conns slot)
      (e.handle (s.system.server.conns slot)).1 (s.handled slot number e rest).system.kernel) :
    NoStray listen_fd (s.handled slot number e rest).system := by
  have hself : (s.handled slot number e rest).system.server.conns slot =
      (e.handle (s.system.server.conns slot)).1 := Function.update_self ..
  have hfd : ((s.handled slot number e rest).system.server.conns slot).fd ≠ none := by
    rw [hself, hkeeps.fd]
    exact Option.some_ne_none _
  rcases hkeeps.file with ⟨hfds, hfile⟩ | ⟨g, hgone, hfile, hfds⟩
  · constructor
    · intro x hx
      exact h.listener x (hfds ▸ hx)
    · intro x hx
      obtain ⟨j, hj, hopen, hfile'⟩ := h.file x (hfds ▸ hx)
      by_cases hjs : j = slot
      · refine ⟨slot, hslot, hfd, ?_⟩
        rw [hjs] at hfile'
        exact (congrArg Connection.file_fd hself).trans (hfile.trans hfile')
      · exact exists_handled_of_ne hj hopen hfile' hjs
  · constructor
    · intro x hx
      by_cases hxg : x = g
      · rw [hfds, hxg, Function.update_self] at hx
        cases hx
      · exact h.listener x (by rwa [hfds, Function.update_of_ne hxg] at hx)
    · intro x hx
      by_cases hxg : x = g
      · refine ⟨slot, hslot, hfd, ?_⟩
        rw [hself, hfile, hxg]
      · rw [hfds, Function.update_of_ne hxg] at hx
        obtain ⟨j, hj, hopen, hfile'⟩ := h.file x hx
        refine exists_handled_of_ne hj hopen hfile' ?_
        rintro rfl
        -- the connection had a file, so that the event asks for no other one
        cases e with
        | read site a => exact absurd (hfile'.symm.trans (hread rfl)) (Option.some_ne_none _)
        | write a =>
            have hfiles : SameFile (s.system.server.conns j) (handle_write (s.system.server.conns j) a) :=
              sameFile_handle_write a
            rcases hfiles with hsame | hnone
            · obtain rfl := Option.some.inj (hfile'.symm.trans (hsame.symm.trans hfile))
              exact absurd (hx.symm.trans hgone) (Option.some_ne_none _)
            · exact absurd (hfile.symm.trans hnone) (Option.some_ne_none _)

/-- The connection is closed, and its file with it. -/
theorem NoStray.ready_closes (h : NoStray listen_fd s.system)
    (hopen : (s.system.server.conns slot).fd = some sock)
    (hread : e.filter = .read → (s.system.server.conns slot).file_fd = none)
    (hcloses : Closes s.system.kernel sock (s.system.server.conns slot)
      (e.handle (s.system.server.conns slot)).1 (s.handled slot number e rest).system.kernel) :
    NoStray listen_fd (s.handled slot number e rest).system := by
  have hgone : ∀ x d, (s.handled slot number e rest).system.kernel.fds x = some d →
      s.system.kernel.fds x = some d := by
    intro x d hx
    have hxs : x ≠ sock := by
      rintro rfl
      exact absurd (hx.symm.trans hcloses.gone) (Option.some_ne_none _)
    rcases hcloses.fds x hxs with hsame | ⟨-, hnone⟩
    · exact hsame.symm.trans hx
    · exact absurd (hx.symm.trans hnone) (Option.some_ne_none _)
  constructor
  · intro x hx
    exact h.listener x (hgone x _ hx)
  · intro x hx
    obtain ⟨j, hj, hopen', hfile⟩ := h.file x (hgone x _ hx)
    refine exists_handled_of_ne hj hopen' hfile ?_
    rintro rfl
    cases e with
    | read site a => exact absurd (hfile.symm.trans (hread rfl)) (Option.some_ne_none _)
    | write a =>
        -- the file is closed last
        obtain ⟨front, hfront⟩ := closesFile_handle_write a hopen' hfile hcloses.fd
        have hnone : (s.handled j number (.write a) rest).system.kernel.fds x = none := by
          simp [Observed.handled, System.handled, Readiness.handle, hfront, Kernel.perform]
        exact absurd (hx.symm.trans hnone) (Option.some_ne_none _)

/-- An event for an open connection. -/
theorem NoStray.ready (h : NoStray listen_fd s.system) (hisolated : s.Isolated)
    (hbatch : s.system.batch = some (.ready sock e.filter slot number :: rest))
    (hnew : e.New s.system.kernel) (hslot : slot < s.system.server.nconns)
    (hopen : (s.system.server.conns slot).fd = some sock)
    (hclient : s.system.kernel.fds sock = some (.client number)) :
    NoStray listen_fd (s.handled slot number e rest).system := by
  have hread : e.filter = .read → (s.system.server.conns slot).file_fd = none := by
    intro hfilter
    rw [hfilter] at hbatch
    exact hisolated.file_fd_eq_none hbatch hslot hopen hclient
  rcases handled_handle slot (hisolated.inv.owned.owns hslot hopen) hnew with ⟨hkeeps, -⟩ | hcloses
  · exact h.ready_keeps hslot hread hkeeps
  · exact h.ready_closes hopen hread hcloses

end Ready

/-- An event for a connection that is closed already changes no descriptor. -/
theorem NoStray.ready_closed {slot number : Nat} {rest : List Event} {e : Readiness}
    (h : NoStray listen_fd s.system) (hclosed : (s.system.server.conns slot).fd = none) :
    NoStray listen_fd (s.handled slot number e rest).system := by
  have hsame : (s.handled slot number e rest).system = { s.system with batch := some rest } := by
    simp [Observed.handled, handle_eq_of_closed hclosed, System.handled]
  rw [hsame]
  exact ⟨h.listener, h.file⟩

theorem noStray_initial (listen_fd : Nat) : NoStray listen_fd (.initial listen_fd) := by
  constructor <;> intro x hx <;> by_cases hxl : x = listen_fd <;> simp_all [System.initial]

theorem Observed.Run.noStray (h : Observed.Run Server.NoMove (.initial listen_fd) s) :
    NoStray listen_fd s.system := by
  induction h with
  | refl => exact noStray_initial listen_fd
  | @tail s t hrun hstep ih =>
      have hisolated := Observed.Run.isolated hrun
      cases hstep.1 with
      | quiet hhead hquiet =>
          cases hquiet with
          | poll => exact ⟨ih.listener, ih.file⟩
          | accept hbatch hnew => exact ih.accept hisolated.inv.owned hnew
          | free hbatch => exact ih.free (hstep.2 hbatch)
          | read hbatch => exact absurd hbatch (hhead _ _ _ _ _)
          | write hbatch => exact absurd hbatch (hhead _ _ _ _ _)
      | ready hbatch hnew =>
          obtain ⟨hslot, haddressed⟩ := hisolated.inv.addressed _ hbatch _ List.mem_cons_self
          rcases haddressed with hclosed | ⟨hopen, hclient⟩
          · exact ih.ready_closed hclosed
          · exact ih.ready hisolated hbatch hnew hslot hopen hclient

/-- In every run in which no slot moves, no descriptor leaks. -/
theorem no_descriptor_leaks {t : System} (h : HttpServer.Run Server.NoMove (.initial listen_fd) t) :
    Accounted listen_fd t := by
  obtain ⟨s, hrun, rfl⟩ := Observed.exists_run (s := .initial listen_fd) h
  exact (Observed.Run.noStray hrun).accounted (Observed.Run.isolated hrun).inv.owned

/-- The descriptors while a file is served, and once it is closed. -/
theorem no_descriptor_leaks_twoClients : Accounted 3 twoClients ∧ Accounted 3 oneServed :=
  ⟨no_descriptor_leaks run_twoClients, no_descriptor_leaks run_oneServed⟩

end Descriptors

end OtusCProg.HttpServer
