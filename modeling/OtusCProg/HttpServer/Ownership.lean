import OtusCProg.HttpServer.SlotTable
import Mathlib.Logic.Relation

/-!
# Ownership of the slots over whole runs

As long as `free_conns` has no slot to move, any order of events keeps sockets,
slots and `udata` in agreement, also inside an iteration. One moved slot is
enough to break it.
-/

namespace OtusCProg.HttpServer
open Library Compaction

/-- What holds in every state of a run in which no slot moves. -/
structure Inv (s : System) : Prop where
  owned : Owned s.server s.kernel
  addressed : ∀ events, s.batch = some events → ∀ e ∈ events, Addressed s.server s.kernel e
  idle : s.batch = none → ∀ i < s.server.nconns, (s.server.conns i).fd ≠ none

section Steps
variable {s t : System}

theorem Inv.handled {fd slot number : Nat} {filter : Filter} {rest : List Event} {o : Outcome}
    (h : Inv s) (hbatch : s.batch = some (.ready fd filter slot number :: rest))
    (hclosed : (s.server.conns slot).fd = none → o = (s.server.conns slot, []))
    (ho : ∀ sock, Owns s.kernel sock (s.server.conns slot) →
      Handled s.kernel slot sock (s.server.conns slot) s.kernel o) :
    Inv (s.handled slot o rest) := by
  have hrest : ∀ e ∈ rest, Addressed s.server s.kernel e :=
    fun e he => h.addressed _ hbatch e (List.mem_cons_of_mem _ he)
  obtain ⟨hslot, hfd⟩ := h.addressed _ hbatch _ List.mem_cons_self
  rcases hfd with hfd | ⟨hfd, -⟩
  · have hsame : s.handled slot o rest = { s with batch := some rest } := by
      simp [System.handled, hclosed hfd]
    rw [hsame]
    refine ⟨h.owned, ?_, nofun⟩
    intro events hevents e he
    obtain rfl := Option.some.inj hevents
    exact hrest e he
  · have hhandled := ho fd (h.owned.owns hslot hfd)
    refine ⟨hhandled.owned h.owned hslot hfd, ?_, nofun⟩
    intro events hevents e he
    obtain rfl := Option.some.inj hevents
    exact hhandled.addressed h.owned hslot hfd (hrest e he)

theorem Inv.accept {client : Option Client} {rest : List Event} (h : Inv s)
    (hbatch : s.batch = some (.listening :: rest))
    (hnew : ∀ c ∈ client, s.kernel.fds c.fd = none) : Inv (s.accept client rest) := by
  have hrest : ∀ e ∈ rest, Addressed s.server s.kernel e :=
    fun e he => h.addressed _ hbatch e (List.mem_cons_of_mem _ he)
  have hcongr : ∀ server' k', server'.nconns = s.server.nconns →
      (∀ i < s.server.nconns, server'.conns i = s.server.conns i) → k'.fds = s.kernel.fds →
        k'.udata = s.kernel.udata → Inv ⟨server', k', some rest⟩ := by
    intro server' k' hnconns hconns hfds hudata
    refine ⟨h.owned.congr hnconns hconns hfds hudata, ?_, nofun⟩
    intro events hevents e he
    obtain rfl := Option.some.inj hevents
    exact (hrest e he).congr hnconns hconns hfds
  cases client with
  | none => exact hcongr _ _ rfl (fun _ _ => rfl) rfl rfl
  | some c =>
      have hfd : s.kernel.fds c.fd = none := hnew c rfl
      obtain ⟨hfds, hudata⟩ := accept_close h.owned hfd s.server.nconns
      simp only [System.accept, accept_connection]
      split
      · exact hcongr _ _ rfl (fun _ _ => rfl) hfds hudata
      · split
        · refine ⟨h.owned.push hfd, ?_, nofun⟩
          intro events hevents e he
          obtain rfl := Option.some.inj hevents
          exact (hrest e he).push hfd
        · exact hcongr _ _ rfl (fun i hi => Function.update_of_ne hi.ne ..) hfds hudata

theorem Inv.free (h : Inv s) (hmove : s.server.NoMove) : Inv s.free where
  owned := hmove.owned h.owned
  addressed := nofun
  idle _ _ hi := free_reclaims hi

theorem Inv.step (h : Inv s) (hstep : Step s t) (hmove : s.batch = some [] → s.server.NoMove) :
    Inv t := by
  cases hstep with
  | @poll events _ _ _ hreport =>
      refine ⟨h.owned, ?_, nofun⟩
      intro events' hevents e he
      obtain rfl := Option.some.inj hevents
      have hreported := hreport e he
      cases e with
      | listening => trivial
      | ready fd filter slot number =>
          obtain ⟨hlt, hfd⟩ := h.owned.udata fd filter slot hreported.1
          exact ⟨hlt, .inr ⟨hfd, hreported.2⟩⟩
  | accept hbatch hnew => exact h.accept hbatch hnew
  | read hbatch hnew =>
      apply h.handled hbatch
      · intro hfd
        simp [handle_read, hfd]
      · intro sock howns
        exact handled_handle_read howns _ hnew
  | write hbatch =>
      apply h.handled hbatch
      · intro hfd
        simp [handle_write, hfd]
      · intro sock howns
        exact handled_handle_write howns _
  | free hbatch => exact h.free (hmove hbatch)

end Steps

/-- Client sockets and slots correspond one to one, and `udata` points to the slot. -/
structure OneToOne (s : System) : Prop where
  reclaimed : ∀ i < s.server.nconns, (s.server.conns i).fd ≠ none
  socket : ∀ i < s.server.nconns, ∀ fd, (s.server.conns i).fd = some fd → s.kernel.IsClient fd
  slot : ∀ fd, s.kernel.IsClient fd →
    ∃! i, i < s.server.nconns ∧ (s.server.conns i).fd = some fd
  watched : ∀ fd, s.kernel.IsClient fd → s.kernel.Watched fd
  udata : ∀ fd filter i, s.kernel.udata fd filter = some i →
    i < s.server.nconns ∧ (s.server.conns i).fd = some fd

/-- An iteration starts with the correspondence, and each event meets its own client's slot, or
one that was closed before it. -/
structure Sound (s : System) : Prop where
  start : s.batch = none → OneToOne s
  event : ∀ e rest, s.batch = some (e :: rest) → Addressed s.server s.kernel e

theorem Inv.initial (listen_fd : Nat) : Inv (.initial listen_fd) where
  owned := by
    have hclient : ∀ fd, ¬ (System.initial listen_fd).kernel.IsClient fd := by
      rintro fd ⟨n, hn⟩
      simp only [System.initial, Function.update_apply] at hn
      split at hn <;> cases hn
    exact ⟨nofun, fun fd h => absurd h (hclient fd), nofun, nofun, fun fd h => absurd h (hclient fd),
      nofun, nofun⟩
  addressed := nofun
  idle _ := nofun

theorem Owned.oneToOne {s : System} (h : Owned s.server s.kernel)
    (hopen : ∀ i < s.server.nconns, (s.server.conns i).fd ≠ none) : OneToOne s where
  reclaimed := hopen
  socket := h.socket
  slot fd hclient := by
    obtain ⟨i, hi, hfd⟩ := h.slot fd hclient
    refine ⟨i, ⟨hi, hfd⟩, ?_⟩
    rintro j ⟨hj, hfd'⟩
    exact h.socket_inj j hj i hi fd hfd' hfd
  watched := h.watched
  udata := h.udata

/-- The calls of `free_conns` that keep the correspondence are those that move no slot. -/
theorem free_oneToOne_iff {s : System} (h : Owned s.server s.kernel) :
    OneToOne s.free ↔ s.server.NoMove := by
  constructor
  · intro hfree
    by_contra hmove
    obtain ⟨k, i, hk, hlt⟩ := exists_move hmove
    obtain ⟨hi, hopen⟩ := mem_kept.mp (List.mem_of_getElem? hk)
    obtain ⟨fd, hfd⟩ := Option.isSome_iff_exists.mp hopen
    have hmoved : (s.free.server.conns k).fd = some fd := by
      rw [← hfd]
      exact congrArg Connection.fd (compact_fst hk)
    have hknconns : k < s.free.server.nconns := by
      rw [System.free, free_nconns]
      exact (List.getElem?_eq_some_iff.mp hk).1
    obtain ⟨filter, u, hu⟩ := h.watched fd (h.socket i hi fd hfd)
    obtain ⟨hu', hfd'⟩ := h.udata fd filter u hu
    obtain rfl := h.socket_inj u hu' i hi fd hfd' hfd
    have hpoint := hfree.udata fd filter u hu
    obtain ⟨j, -, hunique⟩ := hfree.slot fd (h.socket u hi fd hfd)
    have heq : k = u := (hunique k ⟨hknconns, hmoved⟩).trans (hunique u hpoint).symm
    omega
  · intro hmove
    exact (hmove.owned h).oneToOne fun i hi => free_reclaims hi

/-- Runs of the loop of `main` in which every call of `free_conns` finds a table with `C`. -/
def Run (C : Server → Prop) : System → System → Prop :=
  Relation.ReflTransGen fun s t => Step s t ∧ (s.batch = some [] → C s.server)

instance (C : Server → Prop) : Trans (Run C) (Run C) (Run C) := ⟨Relation.ReflTransGen.trans⟩

/-- A run in which every call of `free_conns` finds the open slots in front keeps sockets, slots
and `udata` in agreement. -/
theorem ownership {listen_fd : Nat} {s : System} (h : Run Server.NoMove (.initial listen_fd) s) :
    Sound s := by
  have hinv : Inv s := by
    induction h with
    | refl => exact .initial listen_fd
    | tail _ hstep ih => exact ih.step hstep.1 hstep.2
  constructor
  · intro hidle
    exact hinv.owned.oneToOne (hinv.idle hidle)
  · intro e rest hbatch
    exact hinv.addressed _ hbatch e List.mem_cons_self

theorem handled_nconns (s : System) (slot : Nat) (o : Outcome) (rest : List Event) :
    (s.handled slot o rest).server.nconns = s.server.nconns :=
  rfl

theorem accept_nconns_le {server : Server} (h : server.nconns ≤ MAX_CONN) (client : Option Client) :
    (accept_connection server client).1.nconns ≤ MAX_CONN := by
  cases client with
  | none => exact h
  | some c =>
      simp only [accept_connection]
      split
      · exact h
      · rename_i hroom
        split
        · exact Nat.lt_of_not_le fun hfull => hroom (.inl hfull)
        · exact h

/-- In every run the slots in use are slots of the array. -/
theorem nconns_le {C : Server → Prop} {listen_fd : Nat} {s : System}
    (h : Run C (.initial listen_fd) s) : s.server.nconns ≤ MAX_CONN := by
  induction h with
  | refl => exact Nat.zero_le _
  | @tail s t _ hstep ih =>
      cases hstep.1 with
      | poll => exact ih
      | accept => exact accept_nconns_le ih _
      | read => exact (handled_nconns ..).trans_le ih
      | write => exact (handled_nconns ..).trans_le ih
      | free =>
          calc
            s.free.server.nconns ≤ s.server.nconns := free_nconns ▸ length_kept_le ..
            _ ≤ MAX_CONN := ih

section Runs
variable {C : Server → Prop} {s : System} {fd slot : Nat}

/-- An iteration with one event, which leads to `t`. -/
theorem run_event {t : System} {e : Event} (hbatch : s.batch = none) (hreport : s.kernel.Reports e)
    (hstep : Step { s with batch := some [e] } t) (hdone : t.batch = some []) (hC : C t.server) :
    Run C s t.free := by
  have hpoll : Step s { s with batch := some [e] } := by
    refine .poll hbatch (Nat.one_le_iff_ne_zero.mpr nofun) (List.nodup_singleton e) ?_
    intro e' he'
    rw [List.mem_singleton.mp he']
    exact hreport
  calc
    Run C s { s with batch := some [e] } := .single ⟨hpoll, by simp [hbatch]⟩
    Run C _ t := .single ⟨hstep, nofun⟩
    Run C _ t.free := .single ⟨.free hdone, fun _ => hC⟩

/-- An iteration in which the client `fd` comes. -/
def System.comes (s : System) (fd : Nat) : System := (s.accept (some ⟨fd, true, true⟩) []).free

theorem run_comes (hbatch : s.batch = none) (hnew : s.kernel.fds fd = none)
    (hC : C (s.accept (some ⟨fd, true, true⟩) []).server) : Run C s (s.comes fd) := by
  have hstep : Step { s with batch := some [.listening] }
      ({ s with batch := some [.listening] }.accept (some ⟨fd, true, true⟩) []) := by
    apply Step.accept rfl
    intro c hc
    obtain rfl := Option.some.inj hc
    exact hnew
  refine run_event hbatch ?_ hstep rfl hC
  trivial

/-- Slot `slot` handles the end of what its client sends. -/
def System.hangup (s : System) (slot : Nat) : System :=
  s.handled slot (handle_read .empty (s.server.conns slot) ⟨.data [], 0, true⟩) []

/-- An iteration in which the client of slot `slot` leaves. -/
def System.leaves (s : System) (slot : Nat) : System := (s.hangup slot).free

theorem run_leaves (fd number : Nat) (hbatch : s.batch = none) (hreport : s.kernel.Reports (.ready fd .read slot number))
    (hnew : s.kernel.fds 0 = none) (hC : C (s.hangup slot).server) : Run C s (s.leaves slot) :=
  run_event hbatch hreport (.read (a := ⟨.data [], 0, true⟩) rfl hnew) rfl hC

theorem noMove_of_le_one {server : Server} (h : server.nconns ≤ 1) : server.NoMove := by
  intro i j hij hj hopen
  have heq : i = j := by omega
  rw [heq]
  exact hopen

/-- Only the last slot may be closed. -/
theorem noMove_of_open {server : Server} (h : ∀ i < server.nconns - 1, (server.conns i).fd.isSome) :
    server.NoMove := by
  intro i j hij hj hopen
  rcases Nat.eq_or_lt_of_le hij with rfl | hlt
  · exact hopen
  · exact h i (by omega)

/-- An iteration with a `READ` event for slot `slot`. -/
def System.reads (s : System) (slot : Nat) (site : Site) (a : ReadAnswers) : System :=
  (s.handled slot (handle_read site (s.server.conns slot) a) []).free

theorem run_reads (fd number : Nat) {site : Site} {a : ReadAnswers} (hbatch : s.batch = none)
    (hreport : s.kernel.Reports (.ready fd .read slot number)) (hnew : s.kernel.fds a.file_fd = none)
    (hC : C (s.handled slot (handle_read site (s.server.conns slot) a) []).server) :
    Run C s (s.reads slot site a) :=
  run_event hbatch hreport (.read rfl hnew) rfl hC

/-- An iteration with a `WRITE` event for slot `slot`. -/
def System.writes (s : System) (slot : Nat) (a : WriteAnswers) : System :=
  (s.handled slot (handle_write (s.server.conns slot) a) []).free

theorem run_writes (fd number : Nat) {a : WriteAnswers} (hbatch : s.batch = none)
    (hreport : s.kernel.Reports (.ready fd .write slot number))
    (hC : C (s.handled slot (handle_write (s.server.conns slot) a) []).server) :
    Run C s (s.writes slot a) :=
  run_event hbatch hreport (.write rfl) rfl hC

/-- A site with one file of two bytes. -/
def Site.oneFile : Site where
  root_dir := text "/srv"
  stat path := if path = text "/srv//a" then .ok ⟨true, 2, by decide⟩ else .error .ENOENT
  readable _ := true
  opens _ := true

/-- A client has begun its request. -/
def begins : ReadAnswers := ⟨.data (text "GET /"), 0, true⟩

/-- A client asks for the file, which is opened with descriptor 7. -/
def asks : ReadAnswers := ⟨.data (text "GET /a HTTP/1.1\r\n\r\n"), 7, true⟩

/-- `send` takes everything, and the file is read. -/
def takes : WriteAnswers :=
  ⟨.accepted SEND_BUF_SIZE, fun _ offset => some ((text "hi").drop offset), .accepted SEND_BUF_SIZE⟩

/-- Two clients have come; the first has begun a request, the second asked for the file. -/
def twoClients : System :=
  (((System.initial 3).comes 5).comes 6).reads 0 .oneFile begins |>.reads 1 .oneFile asks

/-- The second client has been served, and its slot, the last one, is free again. -/
def oneServed : System := (twoClients.writes 1 takes).writes 1 takes

theorem run_twoClients : Run Server.NoMove (.initial 3) twoClients :=
  calc
    Run Server.NoMove (.initial 3) ((System.initial 3).comes 5) :=
      run_comes rfl rfl (noMove_of_open (by decide))
    Run Server.NoMove _ (((System.initial 3).comes 5).comes 6) :=
      run_comes rfl (by decide) (noMove_of_open (by decide))
    Run Server.NoMove _ ((((System.initial 3).comes 5).comes 6).reads 0 .oneFile begins) :=
      run_reads 5 0 rfl ⟨by decide, by decide⟩ (by decide) (noMove_of_open (by decide +kernel))
    Run Server.NoMove _ twoClients :=
      run_reads 6 1 rfl ⟨by decide +kernel, by decide +kernel⟩ (by decide +kernel)
        (noMove_of_open (by decide +kernel))

theorem run_oneServed : Run Server.NoMove (.initial 3) oneServed :=
  calc
    Run Server.NoMove (.initial 3) twoClients := run_twoClients
    Run Server.NoMove _ (twoClients.writes 1 takes) :=
      run_writes 6 1 rfl ⟨by decide +kernel, by decide +kernel⟩ (noMove_of_open (by decide +kernel))
    Run Server.NoMove _ oneServed :=
      run_writes 6 1 rfl ⟨by decide +kernel, by decide +kernel⟩ (noMove_of_open (by decide +kernel))

/-- The correspondence while a file is served, and once the second client is gone. -/
theorem ownership_twoClients : Sound twoClients ∧ Sound oneServed :=
  ⟨ownership run_twoClients, ownership run_oneServed⟩

/-- Two clients come and the first one leaves: the connection of the second one moves to the first
slot, while `udata` still points to the second slot. -/
theorem moved_slot_loses_its_socket :
    ¬ ∀ (listen_fd : Nat) (s : System), Run (fun _ => True) (.initial listen_fd) s → Sound s := by
  intro hsound
  have hrun :=
    calc
      Run (fun _ => True) (.initial 3) ((System.initial 3).comes 5) := run_comes rfl rfl trivial
      Run (fun _ => True) _ (((System.initial 3).comes 5).comes 6) := run_comes rfl (by decide) trivial
      Run (fun _ => True) _ ((((System.initial 3).comes 5).comes 6).leaves 0) :=
        run_leaves 5 0 rfl ⟨by decide, by decide⟩ (by decide) trivial
  have hpoint := ((hsound 3 _ hrun).start rfl).udata 6 .read 1 (by decide)
  exact absurd hpoint.1 (by decide)

end Runs

end OtusCProg.HttpServer
