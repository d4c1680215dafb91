import OtusCProg.HttpServer.Ownership
import OtusCProg.HttpServer.ErrorDelivery

/-!
# Isolation of the clients

Runs of the loop of `main` beside a record of what the handlers saw and did
for each client. As long as `free_conns` has no slot to move, each client is
served as if it were alone.
-/

namespace OtusCProg.HttpServer
open Library

/-- What a connection comes to by the readiness events that it sees before it is closed, from
`accept_connection` on. -/
inductive Session.After (fd : Nat) : List Readiness → Session → Prop where
  | accepted : After fd [] (.initial fd)
  | handled {events : List Readiness} {s t : Session} {e : Readiness} (h : After fd events s)
      (hopen : s.conn.fd ≠ none) (hstep : s.step e = .ok t) : After fd (events ++ [e]) t

/-- The system, and for each client the events that its open connection has seen and what was done
about them. -/
structure Observed where
  system : System
  seen : Nat → List Readiness
  done : Nat → List Action

def Observed.initial (listen_fd : Nat) : Observed := ⟨.initial listen_fd, fun _ => [], fun _ => []⟩

/-- Event `e` of client `number` has reached slot `slot`; a closed connection does not see it. -/
def Observed.handled (s : Observed) (slot number : Nat) (e : Readiness) (rest : List Event) :
    Observed :=
  let conn := s.system.server.conns slot
  let o := e.handle conn
  { system := s.system.handled slot o rest
    seen :=
      if conn.fd.isSome then Function.update s.seen number (s.seen number ++ [e]) else s.seen
    done := Function.update s.done number (s.done number ++ o.2) }

/-- A file that is opened gets a descriptor that is not open. -/
def Readiness.New (k : Kernel) : Readiness → Prop
  | .read _ a => k.fds a.file_fd = none
  | .write _ => True

/-- One step of the loop, recorded. -/
inductive Observed.Step (s : Observed) : Observed → Prop where
  | quiet {t : System} (hhead : ∀ fd filter slot number rest,
        s.system.batch ≠ some (.ready fd filter slot number :: rest))
      (hstep : HttpServer.Step s.system t) : Observed.Step s { s with system := t }
  | ready {fd slot number : Nat} {rest : List Event} {e : Readiness}
      (hbatch : s.system.batch = some (.ready fd e.filter slot number :: rest))
      (hnew : e.New s.system.kernel) : Observed.Step s (s.handled slot number e rest)

/-- Recorded runs in which every call of `free_conns` finds a table with `C`. -/
def Observed.Run (C : Server → Prop) : Observed → Observed → Prop :=
  Relation.ReflTransGen fun s t => s.Step t ∧ (s.system.batch = some [] → C s.system.server)

section Record
variable {s t : Observed} {C : Server → Prop}

/-- The record changes nothing in the system. -/
theorem Observed.Step.system (h : s.Step t) : HttpServer.Step s.system t.system := by
  cases h with
  | quiet _ hstep => exact hstep
  | @ready fd slot number rest e hbatch hnew =>
      cases e with
      | read site a => exact .read hbatch hnew
      | write a => exact .write hbatch

/-- Every step of the system can be recorded. -/
theorem Observed.exists_step {t' : System} (h : HttpServer.Step s.system t') :
    ∃ t, s.Step t ∧ t.system = t' := by
  cases h with
  | read hbatch hnew => exact ⟨_, .ready (e := .read _ _) hbatch hnew, rfl⟩
  | write hbatch => exact ⟨_, .ready (e := .write _) hbatch trivial, rfl⟩
  | poll hbatch hlen hnodup hreport =>
      exact ⟨_, .quiet (by simp [hbatch]) (.poll hbatch hlen hnodup hreport), rfl⟩
  | accept hbatch hnew => exact ⟨_, .quiet (by simp [hbatch]) (.accept hbatch hnew), rfl⟩
  | free hbatch => exact ⟨_, .quiet (by simp [hbatch]) (.free hbatch), rfl⟩

/-- Every run of the system can be recorded. -/
theorem Observed.exists_run {t' : System} (h : HttpServer.Run C s.system t') :
    ∃ t, Observed.Run C s t ∧ t.system = t' := by
  induction h with
  | refl => exact ⟨s, .refl, rfl⟩
  | tail _ hstep ih =>
      obtain ⟨u, hrun, rfl⟩ := ih
      obtain ⟨t, hstep', rfl⟩ := Observed.exists_step hstep.1
      exact ⟨t, hrun.tail ⟨hstep', hstep.2⟩, rfl⟩

end Record

section Filters
variable {slot sock : Nat} {k : Kernel} {conn : Connection} {filter : Filter}

/-- What a handler of `filter` does while it keeps its socket `sock`. -/
def Action.Mild (sock : Nat) (filter : Filter) : Action → Prop
  | .accepted _ => False
  | .closed _ => False
  | .added fd _ => fd = sock
  | .deleted fd filter' => fd = sock ∧ filter' = filter
  | _ => True

theorem mild_after {actions : List Action} {o : Outcome} (hactions : ∀ a ∈ actions, a.Mild sock filter)
    (h : o.1.fd ≠ none → ∀ a ∈ o.2, a.Mild sock filter) (hopen : (o.after actions).1.fd ≠ none) :
    ∀ a ∈ (o.after actions).2, a.Mild sock filter := by
  intro a ha
  rcases List.mem_append.mp ha with ha | ha
  · exact hactions a ha
  · exact h hopen a ha

theorem mild_watch_write (hfd : conn.fd = some sock) (registered : Bool)
    (hopen : (watch_write conn registered).1.fd ≠ none) :
    ∀ a ∈ (watch_write conn registered).2, a.Mild sock filter := by
  cases registered with
  | true => simp [watch_write, hfd, Action.Mild]
  | false => exact absurd rfl hopen

theorem mild_send_error (hfd : conn.fd = some sock) (code : Nat) (status : Text) (registered : Bool)
    (hopen : (send_error conn code status registered).1.fd ≠ none) :
    ∀ a ∈ (send_error conn code status registered).2, a.Mild sock filter := by
  refine mild_after (by simp [Action.Mild]) (mild_watch_write ?_ registered) hopen
  split <;> exact hfd

theorem mild_handle_request (hfd : conn.fd = some sock) (site : Site) (a : ReadAnswers)
    (hopen : (handle_request site conn a).1.fd ≠ none) :
    ∀ action ∈ (handle_request site conn a).2, action.Mild sock filter := by
  unfold handle_request at hopen ⊢
  cases hreply : reply_to site (cstr conn.recv_buf.bytes) with
  | error code status =>
      rw [hreply] at hopen
      exact mild_send_error hfd _ _ _ hopen
  | file full_path st =>
      rw [hreply] at hopen
      refine mild_after (by simp [Action.Mild]) (mild_watch_write ?_ a.registered) hopen
      exact hfd

theorem mild_handle_read (hfd : conn.fd = some sock) (site : Site) (a : ReadAnswers)
    (hopen : (handle_read site conn a).1.fd ≠ none) :
    ∀ action ∈ (handle_read site conn a).2, action.Mild sock .read := by
  simp only [handle_read, hfd] at hopen ⊢
  cases hrecv : a.recv with
  | again => exact List.forall_mem_nil _
  | error =>
      rw [hrecv] at hopen
      exact absurd rfl hopen
  | data bytes =>
      simp only [hrecv] at hopen ⊢
      split_ifs at hopen ⊢
      · exact absurd rfl hopen
      · refine mild_after (by simp [Action.Mild]) (mild_handle_request ?_ site a) hopen
        exact hfd
      · refine mild_send_error ?_ _ _ _ hopen
        exact hfd
      · exact List.forall_mem_nil _

theorem mild_send_pending {answer : Send} {next : Connection → Outcome}
    (hnext : ∀ conn, (next conn).1.fd ≠ none → ∀ a ∈ (next conn).2, a.Mild sock filter)
    (hopen : (send_pending conn answer next).1.fd ≠ none) :
    ∀ a ∈ (send_pending conn answer next).2, a.Mild sock filter := by
  cases answer with
  | again => nofun
  | error => exact absurd rfl hopen
  | accepted n =>
      refine mild_after (by simp [Action.Mild]) ?_ hopen
      split
      · nofun
      · exact hnext _

theorem mild_send_block (a : WriteAnswers) (hopen : (send_block a conn).1.fd ≠ none) :
    ∀ action ∈ (send_block a conn).2, action.Mild sock filter := by
  unfold send_block at hopen ⊢
  split at hopen
  · exact absurd rfl hopen
  · exact absurd rfl hopen
  · exact mild_send_pending nofun hopen

theorem mild_handle_write (a : WriteAnswers) (hopen : (handle_write conn a).1.fd ≠ none) :
    ∀ action ∈ (handle_write conn a).2, action.Mild sock filter := by
  unfold handle_write at hopen ⊢
  split at hopen
  · nofun
  · refine mild_send_pending ?_ hopen
    intro conn hopen
    split at hopen
    · exact mild_send_block a hopen
    · exact absurd rfl hopen
  · split_ifs at hopen ⊢
    · exact mild_send_pending (fun _ => mild_send_block a) hopen
    · exact mild_send_block a hopen
  · nofun

/-- A handler that keeps its socket deletes no filter but its own. -/
theorem mild_handle (hfd : conn.fd = some sock) (e : Readiness) (hopen : (e.handle conn).1.fd ≠ none) :
    ∀ a ∈ (e.handle conn).2, a.Mild sock e.filter := by
  cases e with
  | read site a => exact mild_handle_read hfd site a hopen
  | write a => exact mild_handle_write a hopen

/-- The filters that a session watches are those that point to a slot. -/
theorem armed_performAll {actions : List Action} {armed : Filter → Bool}
    (h : ∀ a ∈ actions, a.Mild sock filter) (harmed : ∀ g, armed g = (k.udata sock g).isSome) (g : Filter) :
    actions.foldl rearm armed g = ((k.performAll slot actions).udata sock g).isSome := by
  induction actions generalizing k armed with
  | nil => exact harmed g
  | cons a actions ih =>
      rw [performAll_cons, List.foldl_cons]
      refine ih (fun b hb => h b (List.mem_cons_of_mem a hb)) ?_
      intro g'
      have ha := h a List.mem_cons_self
      cases a with
      | accepted fd => exact ha.elim
      | closed fd => exact ha.elim
      | added fd filter' =>
          obtain rfl := ha
          by_cases hg : g' = filter' <;> simp [rearm, Kernel.perform, hg, harmed]
      | deleted fd filter' =>
          obtain ⟨rfl, -⟩ := ha
          by_cases hg : g' = filter' <;> simp [rearm, Kernel.perform, hg, harmed]
      | opened fd path => exact harmed g'
      | built code => exact harmed g'
      | sent bytes => exact harmed g'
      | failed => exact harmed g'

/-- A filter that is watched stays so, unless it is the one of the handler. -/
theorem watched_performAll {actions : List Action} (h : ∀ a ∈ actions, a.Mild sock filter) {g : Filter}
    (hg : g ≠ filter) (hwatched : (k.udata sock g).isSome) :
    ((k.performAll slot actions).udata sock g).isSome := by
  induction actions generalizing k with
  | nil => exact hwatched
  | cons a actions ih =>
      rw [performAll_cons]
      refine ih (fun b hb => h b (List.mem_cons_of_mem a hb)) ?_
      have ha := h a List.mem_cons_self
      cases a with
      | accepted fd => exact ha.elim
      | closed fd => exact ha.elim
      | added fd filter' =>
          obtain rfl := ha
          by_cases hg' : g = filter' <;> simp [Kernel.perform, hg', hwatched]
      | deleted fd filter' =>
          obtain ⟨rfl, rfl⟩ := ha
          simpa [Kernel.perform, Function.update_of_ne hg] using hwatched
      | opened fd path => exact hwatched
      | built code => exact hwatched
      | sent bytes => exact hwatched
      | failed => exact hwatched

end Filters

/-- A slot holds the connection of the session `t`, with its socket `fd` and its filters. -/
def System.Holds (s : System) (fd : Nat) (t : Session) : Prop :=
  ∃ i < s.server.nconns, s.server.conns i = t.conn ∧ t.conn.fd = some fd ∧
    ∀ filter, t.armed filter = (s.kernel.udata fd filter).isSome

/-- Client `n` has been served as in the session `t`, which is closed once its socket is; a client
that was turned away has seen nothing. -/
structure Observed.View (s : Observed) (n : Nat) (t : Session) : Prop where
  after : ∃ fd, Session.After fd (s.seen n) t
  done : s.done n = t.trace
  held : ∀ fd, s.system.kernel.fds fd = some (.client n) → s.system.Holds fd t
  gone : (∀ fd, s.system.kernel.fds fd ≠ some (.client n)) → t.conn.fd = none ∨ s.seen n = []

/-- The events still to be handled are about watched filters, unless their connection is closed. -/
def System.Pending (s : System) : Event → Prop
  | .listening => True
  | .ready fd filter slot _ => (s.server.conns slot).fd ≠ none → (s.kernel.udata fd filter).isSome

/-- Two events about different filters. -/
def Event.Apart : Event → Event → Prop
  | .ready fd filter _ _, .ready fd' filter' _ _ => fd = fd' → filter ≠ filter'
  | _, _ => True

/-- What holds in every recorded state of a run in which no slot moves. -/
structure Observed.Isolated (s : Observed) : Prop where
  inv : Inv s.system
  view : ∀ n, ∃ t, s.View n t
  unknown : ∀ n, s.system.kernel.clients ≤ n →
    s.seen n = [] ∧ s.done n = [] ∧ ∀ fd, s.system.kernel.fds fd ≠ some (.client n)
  pending : ∀ events, s.system.batch = some events → ∀ e ∈ events, s.system.Pending e
  apart : ∀ events, s.system.batch = some events → events.Pairwise Event.Apart

section Views
variable {s : Observed} {n : Nat}

/-- A client that has seen nothing and has no socket. -/
theorem Observed.exists_view_unseen (hseen : s.seen n = []) (hdone : s.done n = [])
    (hnone : ∀ fd, s.system.kernel.fds fd ≠ some (.client n)) : ∃ t, s.View n t := by
  refine ⟨.initial 0, ⟨0, ?_⟩, hdone, fun fd hfd => absurd hfd (hnone fd), fun _ => .inr hseen⟩
  rw [hseen]
  exact .accepted

/-- A view does not change where the slots, the sockets and the filters do not. -/
theorem Observed.View.congr {t : Session} {u : Observed} (h : s.View n t) (hseen : u.seen n = s.seen n)
    (hdone : u.done n = s.done n)
    (hfds : ∀ fd, u.system.kernel.fds fd = some (.client n) ↔ s.system.kernel.fds fd = some (.client n))
    (hheld : ∀ fd, s.system.Holds fd t → s.system.kernel.fds fd = some (.client n) →
      u.system.Holds fd t) : u.View n t where
  after := by
    rw [hseen]
    exact h.after
  done := hdone.trans h.done
  held fd hfd := by
    have hold := (hfds fd).mp hfd
    exact hheld fd (h.held fd hold) hold
  gone hnone := by
    rw [hseen]
    exact h.gone fun fd hfd => hnone fd ((hfds fd).mpr hfd)

/-- The socket of a client is the one that its session holds. -/
theorem Observed.View.socket {t : Session} {fd fd' : Nat} (h : s.View n t)
    (hfd : s.system.kernel.fds fd = some (.client n)) (hfd' : s.system.kernel.fds fd' = some (.client n)) :
    fd = fd' := by
  obtain ⟨-, -, -, hconn, -⟩ := h.held fd hfd
  obtain ⟨-, -, -, hconn', -⟩ := h.held fd' hfd'
  exact Option.some.inj (hconn.symm.trans hconn')

end Views

section Quiet
variable {s : Observed}

/-- What `accept_connection` does to the slots and the descriptors: nothing but a number that is
taken, or one more slot. -/
theorem accept_cases {s : System} {client : Option Client} (rest : List Event)
    (howned : Owned s.server s.kernel) (hnew : ∀ c ∈ client, s.kernel.fds c.fd = none) :
    ((s.accept client rest).server.nconns = s.server.nconns ∧
        (∀ i < s.server.nconns, (s.accept client rest).server.conns i = s.server.conns i) ∧
        (s.accept client rest).kernel.fds = s.kernel.fds ∧
        (s.accept client rest).kernel.udata = s.kernel.udata ∧
        s.kernel.clients ≤ (s.accept client rest).kernel.clients) ∨
      ∃ fd, s.kernel.fds fd = none ∧ (s.accept client rest).server = s.server.push fd ∧
        (s.accept client rest).kernel =
          s.kernel.performAll s.server.nconns [.accepted fd, .added fd .read] := by
  cases client with
  | none => exact .inl ⟨rfl, fun _ _ => rfl, rfl, rfl, Nat.le_refl _⟩
  | some c =>
      have hfd : s.kernel.fds c.fd = none := hnew c rfl
      obtain ⟨hfds, hudata⟩ := accept_close howned hfd s.server.nconns
      simp only [System.accept, accept_connection]
      split
      · exact .inl ⟨rfl, fun _ _ => rfl, hfds, hudata, Nat.le_succ _⟩
      · split
        · exact .inr ⟨c.fd, hfd, rfl, rfl⟩
        · exact .inl ⟨rfl, fun i hi => Function.update_of_ne hi.ne .., hfds, hudata, Nat.le_succ _⟩

theorem Observed.Isolated.poll (h : s.Isolated) {events : List Event} (hbatch : s.system.batch = none)
    (hlen : events.length ≤ MAX_KEVENTS) (hnodup : events.Nodup)
    (hreport : ∀ e ∈ events, s.system.kernel.Reports e) :
    Observed.Isolated { s with system := { s.system with batch := some events } } where
  inv := h.inv.step (.poll hbatch hlen hnodup hreport) (by simp [hbatch])
  view n := by
    obtain ⟨t, ht⟩ := h.view n
    exact ⟨t, ht.congr rfl rfl (fun _ => Iff.rfl) fun _ hheld _ => hheld⟩
  unknown := h.unknown
  pending events' hevents e he := by
    obtain rfl := Option.some.inj hevents
    have hreported := hreport e he
    cases e with
    | listening => trivial
    | ready fd filter slot number =>
        intro _
        exact Option.isSome_iff_exists.mpr ⟨slot, hreported.1⟩
  apart events' hevents := by
    obtain rfl := Option.some.inj hevents
    refine List.Pairwise.imp_of_mem ?_ hnodup
    intro e e' he he' hne
    have hreported := hreport e he
    have hreported' := hreport e' he'
    cases e with
    | listening => trivial
    | ready fd filter slot number =>
        cases e' with
        | listening => trivial
        | ready fd' filter' slot' number' =>
            rintro rfl rfl
            obtain rfl := Option.some.inj (hreported.1.symm.trans hreported'.1)
            have hnumber := Option.some.inj (hreported.2.symm.trans hreported'.2)
            exact hne (by rw [Descriptor.client.inj hnumber])

theorem Observed.Isolated.accept (h : s.Isolated) {client : Option Client} {rest : List Event}
    (hbatch : s.system.batch = some (.listening :: rest))
    (hnew : ∀ c ∈ client, s.system.kernel.fds c.fd = none) :
    Observed.Isolated { s with system := s.system.accept client rest } := by
  have howned := h.inv.owned
  have hrest : ∀ e ∈ rest, s.system.Pending e ∧ Addressed s.system.server s.system.kernel e := by
    intro e he
    have hmem : e ∈ Event.listening :: rest := List.mem_cons_of_mem _ he
    exact ⟨h.pending _ hbatch e hmem, h.inv.addressed _ hbatch e hmem⟩
  have hinv : Inv (s.system.accept client rest) := h.inv.accept hbatch hnew
  have hapart : ∀ events, (s.system.accept client rest).batch = some events →
      events.Pairwise Event.Apart := by
    intro events hevents
    obtain rfl := Option.some.inj hevents
    exact (h.apart _ hbatch).of_cons
  rcases accept_cases rest howned hnew with
    ⟨hnconns, hconns, hfds, hudata, hclients⟩ | ⟨fd, hfd, hserver, hkernel⟩
  · refine ⟨hinv, ?_, ?_, ?_, hapart⟩
    · intro n
      obtain ⟨t, ht⟩ := h.view n
      refine ⟨t, ht.congr rfl rfl (fun fd => by simp only [hfds]) ?_⟩
      rintro fd ⟨i, hi, hconn, hsome, harmed⟩ -
      exact ⟨i, hnconns ▸ hi, (hconns i hi).trans hconn, hsome, by simpa only [hudata] using harmed⟩
    · intro n hn
      obtain ⟨hseen, hdone, hnone⟩ := h.unknown n (hclients.trans hn)
      exact ⟨hseen, hdone, by simpa only [hfds] using hnone⟩
    · intro events hevents e he
      obtain rfl := Option.some.inj hevents
      cases e with
      | listening => trivial
      | ready fd filter slot number =>
          obtain ⟨hpending, hslot, -⟩ := hrest _ he
          simpa only [System.Pending, hconns slot hslot, hudata] using hpending
  · have hself : (s.system.accept client rest).kernel.fds fd = some (.client s.system.kernel.clients) := by
      simp [hkernel, Kernel.perform]
    have hfds : ∀ x, x ≠ fd → (s.system.accept client rest).kernel.fds x = s.system.kernel.fds x := by
      intro x hx
      simp [hkernel, Kernel.perform, Function.update_of_ne hx]
    have hudata : ∀ x, x ≠ fd →
        (s.system.accept client rest).kernel.udata x = s.system.kernel.udata x := by
      intro x hx
      simp [hkernel, Kernel.perform, Function.update_of_ne hx]
    have hclients : (s.system.accept client rest).kernel.clients = s.system.kernel.clients + 1 := by
      simp [hkernel, Kernel.perform]
    have hne : ∀ x n, s.system.kernel.fds x = some (.client n) → x ≠ fd := by
      rintro x n hx rfl
      rw [hfd] at hx
      cases hx
    have hiff : ∀ n ≠ s.system.kernel.clients, ∀ x,
        (s.system.accept client rest).kernel.fds x = some (.client n) ↔
          s.system.kernel.fds x = some (.client n) := by
      intro n hn x
      by_cases hx : x = fd
      · rw [hx, hself, hfd]
        simp [hn.symm]
      · rw [hfds x hx]
    refine ⟨hinv, ?_, ?_, ?_, hapart⟩
    · intro n
      obtain ⟨hseen, hdone, -⟩ := h.unknown s.system.kernel.clients (Nat.le_refl _)
      by_cases hn : n = s.system.kernel.clients
      · rw [hn]
        refine ⟨.initial fd, ⟨fd, ?_⟩, hdone, ?_, fun _ => .inr hseen⟩
        · rw [hseen]
          exact .accepted
        · intro x hx
          have hx' : x = fd := by
            by_contra hne'
            rw [hfds x hne'] at hx
            exact (h.unknown _ (Nat.le_refl _)).2.2 x hx
          refine ⟨s.system.server.nconns, ?_, ?_, by rw [hx']; rfl, ?_⟩
          · rw [hserver]
            exact Nat.lt_succ_self _
          · rw [hserver, push_self]
            rfl
          · intro filter
            rw [hx', hkernel]
            have hwrite : s.system.kernel.udata fd .write = none := by
              cases hu : s.system.kernel.udata fd .write with
              | none => rfl
              | some u =>
                  obtain ⟨m, hm⟩ := howned.watches fd .write u hu
                  rw [hfd] at hm
                  cases hm
            cases filter with
            | read => simp [Session.initial, Kernel.perform]
            | write => simp [Session.initial, Kernel.perform, hwrite]
      · obtain ⟨t, ht⟩ := h.view n
        refine ⟨t, ht.congr rfl rfl (hiff n hn) ?_⟩
        rintro x ⟨i, hi, hconn, hsome, harmed⟩ hx
        refine ⟨i, ?_, ?_, hsome, ?_⟩
        · rw [hserver]
          exact Nat.lt_succ_of_lt hi
        · rw [hserver, push_of_lt hi, hconn]
        · rw [hudata x (hne x n hx)]
          exact harmed
    · intro n hn
      rw [hclients] at hn
      obtain ⟨hseen, hdone, hnone⟩ := h.unknown n (Nat.le_of_succ_le hn)
      exact ⟨hseen, hdone, fun x hx => hnone x ((hiff n (by omega) x).mp hx)⟩
    · intro events hevents e he
      obtain rfl := Option.some.inj hevents
      cases e with
      | listening => trivial
      | ready x filter slot number =>
          obtain ⟨hpending, hslot, haddressed⟩ := hrest _ he
          intro hopen
          simp only [hserver, push_of_lt hslot] at hopen
          rcases haddressed with hclosed | ⟨-, hx⟩
          · exact absurd hclosed hopen
          · rw [hudata x (hne x number hx)]
            exact hpending hopen

theorem Observed.Isolated.free (h : s.Isolated) (hmove : s.system.server.NoMove) :
    Observed.Isolated { s with system := s.system.free } where
  inv := h.inv.free hmove
  view n := by
    obtain ⟨t, ht⟩ := h.view n
    refine ⟨t, ht.congr rfl rfl (fun _ => Iff.rfl) ?_⟩
    rintro fd ⟨i, hi, hconn, hsome, harmed⟩ -
    have hconns : (free_conns s.system.server).conns = s.system.server.conns :=
      Compaction.Packed.compact_fst hmove
    have hopen : (s.system.server.conns i).fd = some fd := by rw [hconn, hsome]
    refine ⟨i, (hmove.lt_iff hopen).mpr hi, ?_, hsome, harmed⟩
    rw [System.free, hconns, hconn]
  unknown := h.unknown
  pending := nofun
  apart := nofun

end Quiet

section Ready
variable {s : Observed} {fd slot number sock : Nat} {rest : List Event} {e : Readiness}

theorem handled_handle {k : Kernel} {conn : Connection} (slot : Nat) (howns : Owns k sock conn) (hnew : e.New k) :
    Handled k slot sock conn k (e.handle conn) := by
  cases e with
  | read site a => exact handled_handle_read howns site hnew
  | write a => exact handled_handle_write howns a

theorem handle_eq_of_closed {conn : Connection} (h : conn.fd = none) : e.handle conn = (conn, []) := by
  cases e with
  | read site a => simp only [Readiness.handle, handle_read, h]
  | write a => simp only [Readiness.handle, handle_write, h]

/-- The number of clients never falls. -/
theorem clients_le_performAll (k : Kernel) (actions : List Action) :
    k.clients ≤ (k.performAll slot actions).clients := by
  induction actions generalizing k with
  | nil => exact Nat.le_refl _
  | cons a actions ih =>
      calc
        k.clients ≤ (k.perform slot a).clients := by cases a <;> simp [Kernel.perform]
        _ ≤ ((k.perform slot a).performAll slot actions).clients := ih _

/-- An event for a connection that is closed already. -/
theorem Observed.Isolated.ready_closed (h : s.Isolated)
    (hbatch : s.system.batch = some (.ready fd e.filter slot number :: rest))
    (hnew : e.New s.system.kernel) (hclosed : (s.system.server.conns slot).fd = none) :
    (s.handled slot number e rest).Isolated := by
  have hsame : s.handled slot number e rest = { s with system := { s.system with batch := some rest } } := by
    simp [Observed.handled, handle_eq_of_closed hclosed, System.handled, hclosed]
  have hinv : Inv (s.handled slot number e rest).system :=
    h.inv.step (Observed.Step.ready hbatch hnew).system (by simp [hbatch])
  rw [hsame] at hinv ⊢
  refine ⟨hinv, ?_, h.unknown, ?_, ?_⟩
  · intro n
    obtain ⟨t, ht⟩ := h.view n
    exact ⟨t, ht.congr rfl rfl (fun _ => Iff.rfl) fun _ hheld _ => hheld⟩
  · intro events hevents e' he'
    obtain rfl := Option.some.inj hevents
    exact h.pending _ hbatch e' (List.mem_cons_of_mem _ he')
  · intro events hevents
    obtain rfl := Option.some.inj hevents
    exact (h.apart _ hbatch).of_cons

/-- What a handler does to the sockets of the clients. -/
theorem Handled.sockets {k : Kernel} {conn : Connection} {o : Outcome}
    (h : Handled k slot sock conn k o) (howns : Owns k sock conn) :
    (∀ x ≠ sock, ∀ n, (k.performAll slot o.2).fds x = some (.client n) ↔ k.fds x = some (.client n)) ∧
      (∀ x ≠ sock, (k.performAll slot o.2).udata x = k.udata x) ∧
      (o.1.fd = some sock ∧ (k.performAll slot o.2).fds sock = k.fds sock ∨
        o.1.fd = none ∧ (k.performAll slot o.2).fds sock = none) := by
  rcases h with ⟨hkeeps, -⟩ | hcloses
  · refine ⟨fun x _ n => hkeeps.client_iff x n, hkeeps.udata, .inl ⟨hkeeps.fd, ?_⟩⟩
    obtain ⟨n, hn⟩ := howns.socket
    rw [hn, hkeeps.client_iff]
    exact hn
  · exact ⟨fun x hx n => hcloses.client_iff howns.file hx n, hcloses.udata, .inr ⟨hcloses.fd, hcloses.gone⟩⟩

/-- An event for an open connection, which is the one of the client. -/
theorem Observed.Isolated.ready_open (h : s.Isolated)
    (hbatch : s.system.batch = some (.ready sock e.filter slot number :: rest))
    (hnew : e.New s.system.kernel) (hslot : slot < s.system.server.nconns)
    (hopen : (s.system.server.conns slot).fd = some sock)
    (hclient : s.system.kernel.fds sock = some (.client number)) :
    (s.handled slot number e rest).Isolated := by
  have howned := h.inv.owned
  have howns := howned.owns hslot hopen
  have hinv : Inv (s.handled slot number e rest).system :=
    h.inv.step (Observed.Step.ready hbatch hnew).system (by simp [hbatch])
  have hmild := mild_handle hopen e
  obtain ⟨hfds, hudata, hsock⟩ := (handled_handle slot howns hnew).sockets howns
  obtain ⟨t, ht⟩ := h.view number
  -- the session of the client, and the slot that holds it
  obtain ⟨i, hi, hconn, hsome, harmed⟩ := ht.held sock hclient
  obtain rfl : i = slot := howned.socket_inj i hi slot hslot sock (by rw [hconn, hsome]) hopen
  have hready : t.armed e.filter = true := by
    rw [harmed]
    refine h.pending _ hbatch _ List.mem_cons_self ?_
    rw [hopen]
    exact Option.some_ne_none _
  have hseen : (s.handled i number e rest).seen = Function.update s.seen number (s.seen number ++ [e]) := by
    simp [Observed.handled, hopen]
  have hother : ∀ j ≠ i, (s.handled i number e rest).system.server.conns j = s.system.server.conns j :=
    fun j hj => Function.update_of_ne hj ..
  have hself : (s.handled i number e rest).system.server.conns i = (e.handle t.conn).1 := by
    rw [← hconn]
    exact Function.update_self ..
  have hnumber : ∀ x, s.system.kernel.fds x = some (.client number) → x = sock :=
    fun x hx => ht.socket hx hclient
  have hclosed_or : ∀ x n, (s.handled i number e rest).system.kernel.fds x = some (.client n) →
      s.system.kernel.fds x = some (.client n) := by
    intro x n hx
    by_cases hne : x = sock
    · rw [hne] at hx ⊢
      rcases hsock with ⟨-, hkept⟩ | ⟨-, hgone⟩
      · exact hkept.symm.trans hx
      · exact absurd (hgone.symm.trans hx) (Option.some_ne_none _).symm
    · exact (hfds x hne n).mp hx
  refine ⟨hinv, ?_, ?_, ?_, ?_⟩
  · intro n
    by_cases hn : n = number
    · rw [hn]
      refine ⟨t.handled e (e.handle t.conn), ?_, ?_, ?_, ?_⟩
      · obtain ⟨fd, hafter⟩ := ht.after
        refine ⟨fd, ?_⟩
        rw [hseen, Function.update_self]
        exact hafter.handled (by rw [hsome]; exact Option.some_ne_none _) (step_eq_ok.mpr ⟨hready, rfl⟩)
      · simp only [Observed.handled, Function.update_self, Session.handled, ht.done, hconn]
      · intro x hx
        obtain rfl := hnumber x (hclosed_or x number hx)
        rcases hsock with ⟨hkept, -⟩ | ⟨-, hgone⟩
        · refine ⟨i, hslot, hself, ?_, ?_⟩
          · rw [← hconn]
            exact hkept
          · intro filter
            rw [← hconn]
            exact armed_performAll (hmild (by rw [hkept]; exact Option.some_ne_none _)) harmed filter
        · exact absurd (hgone.symm.trans hx) (Option.some_ne_none _).symm
      · intro hnone
        left
        rcases hsock with ⟨-, hkept⟩ | ⟨hclosed, -⟩
        · exact absurd (hkept.trans hclient) (hnone sock)
        · rw [← hconn]
          exact hclosed
    · obtain ⟨u, hu⟩ := h.view n
      refine ⟨u, hu.congr ?_ (Function.update_of_ne hn ..) ?_ ?_⟩
      · rw [hseen, Function.update_of_ne hn]
      · intro x
        refine ⟨hclosed_or x n, fun hx => (hfds x ?_ n).mpr hx⟩
        rintro rfl
        exact hn (Descriptor.client.inj (Option.some.inj (hx.symm.trans hclient)))
      · rintro x ⟨j, hj, hconn', hsome', harmed'⟩ hx
        have hne : x ≠ sock := by
          rintro rfl
          exact hn (Descriptor.client.inj (Option.some.inj (hx.symm.trans hclient)))
        refine ⟨j, hj, ?_, hsome', fun filter => ?_⟩
        · rw [hother, hconn']
          rintro rfl
          rw [hconn', hsome'] at hopen
          exact hne (Option.some.inj hopen)
        · rw [harmed' filter, ← hudata x hne]
          rfl
  · intro n hn
    obtain ⟨hunseen, hdone, hnone⟩ := h.unknown n ((clients_le_performAll ..).trans hn)
    have hne : n ≠ number := by
      rintro rfl
      exact hnone sock hclient
    exact ⟨by rw [hseen, Function.update_of_ne hne, hunseen], (Function.update_of_ne hne ..).trans hdone,
      fun x hx => hnone x (hclosed_or x n hx)⟩
  · intro events hevents e' he'
    obtain rfl := Option.some.inj hevents
    have hmem : e' ∈ Event.ready sock e.filter i number :: rest := List.mem_cons_of_mem _ he'
    have hpending := h.pending _ hbatch e' hmem
    have haddressed := h.inv.addressed _ hbatch e' hmem
    have hapart := (List.pairwise_cons.mp (h.apart _ hbatch)).1 e' he'
    cases e' with
    | listening => trivial
    | ready x filter j m =>
        intro hopen'
        obtain ⟨hlt, haddressed⟩ := haddressed
        by_cases hj : j = i
        · -- the same connection: the other filter is still watched
          rw [hj, hopen] at haddressed
          obtain ⟨hx, -⟩ := haddressed.resolve_left (Option.some_ne_none _)
          obtain rfl := Option.some.inj hx
          rw [hj, hself, ← hconn] at hopen'
          rw [hj] at hpending
          exact watched_performAll (hmild hopen') (Ne.symm (hapart rfl))
            (hpending (by rw [hopen]; exact Option.some_ne_none _))
        · rw [hother j hj] at hopen'
          obtain ⟨hx, hm⟩ := haddressed.resolve_left hopen'
          have hne : x ≠ sock := by
            rintro rfl
            exact hj (howned.socket_inj j hlt i hslot x hx hopen)
          have hold := hpending hopen'
          rw [← hudata x hne] at hold
          exact hold
  · intro events hevents
    obtain rfl := Option.some.inj hevents
    exact (h.apart _ hbatch).of_cons

/-- One recorded step. -/
theorem Observed.Isolated.step {t : Observed} (h : s.Isolated) (hstep : s.Step t)
    (hmove : s.system.batch = some [] → s.system.server.NoMove) : t.Isolated := by
  cases hstep with
  | quiet hhead hstep =>
      cases hstep with
      | poll hbatch hlen hnodup hreport => exact h.poll hbatch hlen hnodup hreport
      | accept hbatch hnew => exact h.accept hbatch hnew
      | free hbatch => exact h.free (hmove hbatch)
      | read hbatch => exact absurd hbatch (hhead _ _ _ _ _)
      | write hbatch => exact absurd hbatch (hhead _ _ _ _ _)
  | @ready fd slot number rest e hbatch hnew =>
      obtain ⟨hslot, haddressed⟩ := h.inv.addressed _ hbatch _ List.mem_cons_self
      rcases haddressed with hclosed | ⟨hopen, hclient⟩
      · exact h.ready_closed hbatch hnew hclosed
      · exact h.ready_open hbatch hnew hslot hopen hclient

end Ready

theorem Observed.isolated_initial (listen_fd : Nat) : (Observed.initial listen_fd).Isolated := by
  have hnone : ∀ n fd, (Observed.initial listen_fd).system.kernel.fds fd ≠ some (.client n) := by
    intro n fd
    by_cases hfd : fd = listen_fd <;> simp [Observed.initial, System.initial, hfd]
  have hbatch : ∀ events, (Observed.initial listen_fd).system.batch ≠ some events :=
    fun events h => absurd h.symm (Option.some_ne_none events)
  exact ⟨.initial listen_fd, fun n => exists_view_unseen rfl rfl (hnone n),
    fun n _ => ⟨rfl, rfl, hnone n⟩, fun events h => absurd h (hbatch events),
    fun events h => absurd h (hbatch events)⟩

theorem Observed.Run.isolated {listen_fd : Nat} {s : Observed}
    (h : Observed.Run Server.NoMove (.initial listen_fd) s) : s.Isolated := by
  induction h with
  | refl => exact isolated_initial listen_fd
  | tail _ hstep ih => exact ih.step hstep.1 hstep.2

/-- In every run in which no slot moves, each client has been served as in a run of a connection of
its own: by the events it has seen, with the same actions, and with the state of its slot. -/
theorem clients_isolated {listen_fd : Nat} {s : Observed}
    (h : Observed.Run Server.NoMove (.initial listen_fd) s) (n : Nat) : ∃ t, s.View n t :=
  h.isolated.view n

/-- Two clients, one in the middle of its request and one that has been served. -/
theorem clients_isolated_twoClients :
    ∃ s : Observed, s.system = oneServed ∧ (∃ t, s.View 0 t) ∧ ∃ t, s.View 1 t := by
  have hrun : HttpServer.Run Server.NoMove (Observed.initial 3).system oneServed := run_oneServed
  obtain ⟨s, hobserved, hsystem⟩ := Observed.exists_run hrun
  exact ⟨s, hsystem, clients_isolated hobserved 0, clients_isolated hobserved 1⟩

end OtusCProg.HttpServer
