import OtusCProg.HttpServer.Handlers

/-!
# The table of slots

Sockets and slots correspond to each other, and `kqueue` points from each
socket to its slot. Handlers and `accept_connection` keep this, and so does
`free_conns` where it has no slot to move: it copies a connection but leaves
`udata` behind.
-/

namespace OtusCProg.HttpServer
open Library Compaction

/-- The table of slots agrees with the kernel; slots of connections that were closed may remain. -/
structure Owned (server : Server) (k : Kernel) : Prop where
  socket : ∀ i < server.nconns, ∀ fd, (server.conns i).fd = some fd → k.IsClient fd
  slot : ∀ fd, k.IsClient fd → ∃ i < server.nconns, (server.conns i).fd = some fd
  socket_inj : ∀ i < server.nconns, ∀ j < server.nconns, ∀ fd,
    (server.conns i).fd = some fd → (server.conns j).fd = some fd → i = j
  udata : ∀ fd filter i, k.udata fd filter = some i →
    i < server.nconns ∧ (server.conns i).fd = some fd
  watched : ∀ fd, k.IsClient fd → k.Watched fd
  file : ∀ i < server.nconns, ∀ g, (server.conns i).file_fd = some g → k.fds g = some .file
  file_inj : ∀ i < server.nconns, ∀ j < server.nconns, ∀ g,
    (server.conns i).file_fd = some g → (server.conns j).file_fd = some g → i = j

/-- The slot of the event is closed, or it is the one of the client that the event is about. -/
def Addressed (server : Server) (k : Kernel) : Event → Prop
  | .listening => True
  | .ready fd _ udata number =>
      udata < server.nconns ∧ ((server.conns udata).fd = none ∨
        (server.conns udata).fd = some fd ∧ k.fds fd = some (.client number))

/-- The server with the connection of one slot replaced. -/
def Server.set (server : Server) (slot : Nat) (conn : Connection) : Server :=
  { server with conns := Function.update server.conns slot conn }

section Handler
variable {server : Server} {k k' : Kernel} {slot sock : Nat} {conn : Connection}

theorem set_self : (server.set slot conn).conns slot = conn := Function.update_self ..

theorem set_of_ne {i : Nat} (h : i ≠ slot) : (server.set slot conn).conns i = server.conns i :=
  Function.update_of_ne h ..

theorem Owned.watches (h : Owned server k) : k.Watches := by
  intro fd filter u hu
  obtain ⟨hlt, hfd⟩ := h.udata fd filter u hu
  exact h.socket u hlt fd hfd

theorem Owned.owns (h : Owned server k) (hslot : slot < server.nconns)
    (hfd : (server.conns slot).fd = some sock) : Owns k sock (server.conns slot) where
  fd := hfd
  socket := h.socket slot hslot sock hfd
  file := h.file slot hslot
  watches := h.watches
  watched := h.watched sock (h.socket slot hslot sock hfd)

theorem Keeps.client_iff {conn' : Connection} (h : Keeps k slot sock conn conn' k') (x n : Nat) :
    k'.fds x = some (.client n) ↔ k.fds x = some (.client n) := by
  rcases h.file with ⟨hfds, -⟩ | ⟨g, hnew, -, hfds⟩
  · rw [hfds]
  · rw [hfds, Function.update_apply]
    split
    · rename_i hg
      simp [hg, hnew]
    · rfl

theorem Closes.client_iff {conn' : Connection} (h : Closes k sock conn conn' k')
    (hfile : ∀ g, conn.file_fd = some g → k.fds g = some .file) {x : Nat} (hx : x ≠ sock) (n : Nat) :
    k'.fds x = some (.client n) ↔ k.fds x = some (.client n) := by
  rcases h.fds x hx with hfds | ⟨hg, hnone⟩
  · rw [hfds]
  · simp [hnone, hfile x hg]

theorem Keeps.file_kept {conn' : Connection} (h : Keeps k slot sock conn conn' k') {g : Nat}
    (hg : k.fds g = some .file) : k'.fds g = some .file := by
  rcases h.file with ⟨hfds, -⟩ | ⟨g', hnew, -, hfds⟩
  · rw [hfds, hg]
  · have hne : g ≠ g' := by
      rintro rfl
      rw [hg] at hnew
      cases hnew
    rw [hfds, Function.update_of_ne hne, hg]

theorem Keeps.file_own {conn' : Connection} (h : Keeps k slot sock conn conn' k') {g : Nat}
    (hg : conn'.file_fd = some g) :
    conn.file_fd = some g ∨ k.fds g = none ∧ k'.fds g = some .file := by
  rcases h.file with ⟨-, hfile⟩ | ⟨g', hnew, hfile, hfds⟩
  · exact .inl (hfile ▸ hg)
  · obtain rfl := Option.some.inj (hfile.symm.trans hg)
    exact .inr ⟨hnew, by rw [hfds, Function.update_self]⟩

/-- A handler that keeps its socket leaves every slot with the socket it had. -/
theorem Keeps.set_fd (h : Keeps k slot sock (server.conns slot) conn k')
    (hfd : (server.conns slot).fd = some sock) (i : Nat) :
    ((server.set slot conn).conns i).fd = (server.conns i).fd := by
  by_cases hi : i = slot
  · rw [hi, set_self, h.fd, hfd]
  · rw [set_of_ne hi]

theorem Keeps.owned (h : Keeps k slot sock (server.conns slot) conn k') (hwatched : k'.Watched sock)
    (howned : Owned server k) (hslot : slot < server.nconns)
    (hfd : (server.conns slot).fd = some sock) : Owned (server.set slot conn) k' where
  socket i hi fd hi' := by
    rw [h.set_fd hfd] at hi'
    obtain ⟨n, hn⟩ := howned.socket i hi fd hi'
    exact ⟨n, (h.client_iff fd n).mpr hn⟩
  slot fd hclient := by
    obtain ⟨n, hn⟩ := hclient
    obtain ⟨i, hi, hi'⟩ := howned.slot fd ⟨n, (h.client_iff fd n).mp hn⟩
    exact ⟨i, hi, (h.set_fd hfd i).trans hi'⟩
  socket_inj i hi j hj fd hi' hj' := by
    rw [h.set_fd hfd] at hi' hj'
    exact howned.socket_inj i hi j hj fd hi' hj'
  udata fd filter i hu := by
    rw [h.set_fd hfd]
    by_cases hsock : fd = sock
    · rw [hsock] at hu ⊢
      rcases h.own filter i hu with hu | rfl
      · exact howned.udata sock filter i hu
      · exact ⟨hslot, hfd⟩
    · rw [h.udata fd hsock] at hu
      exact howned.udata fd filter i hu
  watched fd hclient := by
    by_cases hsock : fd = sock
    · rw [hsock]
      exact hwatched
    · obtain ⟨n, hn⟩ := hclient
      obtain ⟨filter, u, hu⟩ := howned.watched fd ⟨n, (h.client_iff fd n).mp hn⟩
      exact ⟨filter, u, by rw [h.udata fd hsock, hu]⟩
  file i hi g hg := by
    by_cases hslot' : i = slot
    · rw [hslot', set_self] at hg
      rcases h.file_own hg with hg | ⟨-, hnew⟩
      · exact h.file_kept (howned.file slot hslot g hg)
      · exact hnew
    · rw [set_of_ne hslot'] at hg
      exact h.file_kept (howned.file i hi g hg)
  file_inj i hi j hj g hg hg' := by
    have hother : ∀ l < server.nconns, conn.file_fd = some g →
        (server.conns l).file_fd = some g → slot = l := by
      intro l hl hown hl'
      rcases h.file_own hown with hown | ⟨hnew, -⟩
      · exact howned.file_inj slot hslot l hl g hown hl'
      · rw [howned.file l hl g hl'] at hnew
        cases hnew
    by_cases hi' : i = slot <;> by_cases hj' : j = slot
    · rw [hi', hj']
    · rw [hi', set_self] at hg
      rw [set_of_ne hj'] at hg'
      rw [hi']
      exact hother j hj hg hg'
    · rw [set_of_ne hi'] at hg
      rw [hj', set_self] at hg'
      rw [hj']
      exact (hother i hi hg' hg).symm
    · rw [set_of_ne hi'] at hg
      rw [set_of_ne hj'] at hg'
      exact howned.file_inj i hi j hj g hg hg'

/-- Where the handler closes its socket, the other slots keep theirs. -/
theorem Closes.set_fd (h : Closes k sock (server.conns slot) conn k') {i fd : Nat}
    (hi : ((server.set slot conn).conns i).fd = some fd) :
    i ≠ slot ∧ (server.conns i).fd = some fd := by
  have hne : i ≠ slot := by
    rintro rfl
    rw [set_self, h.fd] at hi
    cases hi
  rw [set_of_ne hne] at hi
  exact ⟨hne, hi⟩

theorem Closes.set_file (h : Closes k sock (server.conns slot) conn k') {i g : Nat}
    (hi : ((server.set slot conn).conns i).file_fd = some g) :
    i ≠ slot ∧ (server.conns i).file_fd = some g := by
  have hne : i ≠ slot := by
    rintro rfl
    rw [set_self, h.file] at hi
    cases hi
  rw [set_of_ne hne] at hi
  exact ⟨hne, hi⟩

theorem Closes.owned (h : Closes k sock (server.conns slot) conn k') (howned : Owned server k)
    (hslot : slot < server.nconns) (hfd : (server.conns slot).fd = some sock) :
    Owned (server.set slot conn) k' := by
  have hfile := howned.file slot hslot
  have hsocket : ∀ i < server.nconns, i ≠ slot → ∀ fd, (server.conns i).fd = some fd → fd ≠ sock := by
    rintro i hi hne fd hi' rfl
    exact hne (howned.socket_inj i hi slot hslot fd hi' hfd)
  have hopen : ∀ fd, k'.IsClient fd → fd ≠ sock ∧ k.IsClient fd := by
    rintro fd ⟨n, hn⟩
    have hne : fd ≠ sock := by
      rintro rfl
      rw [h.gone] at hn
      cases hn
    exact ⟨hne, n, (h.client_iff hfile hne n).mp hn⟩
  have hwatch : ∀ fd filter u, k'.udata fd filter = some u → fd ≠ sock ∧ k.udata fd filter = some u := by
    intro fd filter u hu
    have hne : fd ≠ sock := by
      rintro rfl
      rw [h.cleared] at hu
      cases hu
    rw [h.udata fd hne] at hu
    exact ⟨hne, hu⟩
  have hkeep : ∀ i < server.nconns, ∀ fd, fd ≠ sock → (server.conns i).fd = some fd →
      ((server.set slot conn).conns i).fd = some fd := by
    intro i hi fd hne hi'
    have hi'' : i ≠ slot := by
      rintro rfl
      exact hne (Option.some.inj (hi'.symm.trans hfd))
    rw [set_of_ne hi'', hi']
  constructor
  case socket =>
    intro i hi fd hi'
    obtain ⟨hne, hi'⟩ := h.set_fd hi'
    obtain ⟨n, hn⟩ := howned.socket i hi fd hi'
    exact ⟨n, (h.client_iff hfile (hsocket i hi hne fd hi') n).mpr hn⟩
  case slot =>
    intro fd hclient
    obtain ⟨hne, hclient⟩ := hopen fd hclient
    obtain ⟨i, hi, hi'⟩ := howned.slot fd hclient
    exact ⟨i, hi, hkeep i hi fd hne hi'⟩
  case socket_inj =>
    intro i hi j hj fd hi' hj'
    exact howned.socket_inj i hi j hj fd (h.set_fd hi').2 (h.set_fd hj').2
  case udata =>
    intro fd filter i hu
    obtain ⟨hne, hu⟩ := hwatch fd filter i hu
    obtain ⟨hi, hi'⟩ := howned.udata fd filter i hu
    exact ⟨hi, hkeep i hi fd hne hi'⟩
  case watched =>
    intro fd hclient
    obtain ⟨hne, hclient⟩ := hopen fd hclient
    obtain ⟨filter, u, hu⟩ := howned.watched fd hclient
    exact ⟨filter, u, by rw [h.udata fd hne, hu]⟩
  case file =>
    intro i hi g hg
    obtain ⟨hne, hg⟩ := h.set_file hg
    have hgfile := howned.file i hi g hg
    have hgsock : g ≠ sock := by
      rintro rfl
      obtain ⟨n, hn⟩ := howned.socket slot hslot g hfd
      rw [hgfile] at hn
      cases hn
    rcases h.fds g hgsock with hfds | ⟨hg', -⟩
    · rw [hfds, hgfile]
    · exact absurd (howned.file_inj i hi slot hslot g hg hg') hne
  case file_inj =>
    intro i hi j hj g hg hg'
    exact howned.file_inj i hi j hj g (h.set_file hg).2 (h.set_file hg').2

/-- Handling one slot leaves the events for the others addressed as they were. -/
theorem Handled.addressed {o : Outcome} (h : Handled k slot sock (server.conns slot) k o)
    (howned : Owned server k) (hslot : slot < server.nconns)
    (hfd : (server.conns slot).fd = some sock) {e : Event} (he : Addressed server k e) :
    Addressed (server.set slot o.1) (k.performAll slot o.2) e := by
  cases e with
  | listening => trivial
  | ready fd filter udata number =>
      obtain ⟨hlt, he⟩ := he
      refine ⟨hlt, ?_⟩
      rcases h with ⟨h, -⟩ | h
      · rw [h.set_fd hfd, h.client_iff]
        exact he
      · by_cases hu : udata = slot
        · left
          rw [hu, set_self, h.fd]
        · rw [set_of_ne hu]
          rcases he with he | ⟨he, hn⟩
          · exact .inl he
          · have hne : fd ≠ sock := by
              rintro rfl
              exact hu (howned.socket_inj udata hlt slot hslot fd he hfd)
            exact .inr ⟨he, (h.client_iff (howned.file slot hslot) hne number).mpr hn⟩

theorem Handled.owned {o : Outcome} (h : Handled k slot sock (server.conns slot) k o)
    (howned : Owned server k) (hslot : slot < server.nconns)
    (hfd : (server.conns slot).fd = some sock) :
    Owned (server.set slot o.1) (k.performAll slot o.2) := by
  rcases h with ⟨h, hwatched⟩ | h
  · exact h.owned hwatched howned hslot hfd
  · exact h.owned howned hslot hfd

end Handler

section Accept
variable {server : Server} {k : Kernel} {fd : Nat}

/-- A socket that is accepted and closed at once leaves nothing behind. -/
theorem accept_close (howned : Owned server k) (hnew : k.fds fd = none) (slot : Nat) :
    (k.performAll slot [.accepted fd, .closed fd]).fds = k.fds ∧
      (k.performAll slot [.accepted fd, .closed fd]).udata = k.udata := by
  constructor
  · funext x
    by_cases hx : x = fd
    · simp [Kernel.perform, hx, hnew]
    · simp [Kernel.perform, Function.update_of_ne hx]
  · funext x filter
    by_cases hx : x = fd
    · cases hu : k.udata x filter with
      | none => simp [Kernel.perform, hx]
      | some u =>
          obtain ⟨n, hn⟩ := howned.watches x filter u hu
          rw [hx, hnew] at hn
          cases hn
    · simp [Kernel.perform, Function.update_of_ne hx]

/-- Slots behind `nconns` do not matter. -/
theorem Owned.congr {server' : Server} {k' : Kernel} (h : Owned server k)
    (hnconns : server'.nconns = server.nconns)
    (hconns : ∀ i < server.nconns, server'.conns i = server.conns i)
    (hfds : k'.fds = k.fds) (hudata : k'.udata = k.udata) : Owned server' k' := by
  have hclient : ∀ fd, k'.IsClient fd ↔ k.IsClient fd := by
    intro fd
    rw [Kernel.IsClient, hfds, Kernel.IsClient]
  constructor
  case socket =>
    intro i hi fd hfd
    rw [hnconns] at hi
    rw [hconns i hi] at hfd
    exact (hclient fd).mpr (h.socket i hi fd hfd)
  case slot =>
    intro fd hfd
    obtain ⟨i, hi, hfd⟩ := h.slot fd ((hclient fd).mp hfd)
    exact ⟨i, hnconns ▸ hi, by rw [hconns i hi, hfd]⟩
  case socket_inj =>
    intro i hi j hj fd hfd hfd'
    rw [hnconns] at hi hj
    rw [hconns i hi] at hfd
    rw [hconns j hj] at hfd'
    exact h.socket_inj i hi j hj fd hfd hfd'
  case udata =>
    intro fd filter i hu
    rw [hudata] at hu
    obtain ⟨hi, hfd⟩ := h.udata fd filter i hu
    exact ⟨hnconns ▸ hi, by rw [hconns i hi, hfd]⟩
  case watched =>
    intro fd hfd
    rw [Kernel.Watched, hudata]
    exact h.watched fd ((hclient fd).mp hfd)
  case file =>
    intro i hi g hg
    rw [hnconns] at hi
    rw [hconns i hi] at hg
    rw [hfds, h.file i hi g hg]
  case file_inj =>
    intro i hi j hj g hg hg'
    rw [hnconns] at hi hj
    rw [hconns i hi] at hg
    rw [hconns j hj] at hg'
    exact h.file_inj i hi j hj g hg hg'

/-- The server with one more client. -/
def Server.push (server : Server) (fd : Nat) : Server :=
  ⟨Function.update server.conns server.nconns (.cleared fd), server.nconns + 1⟩

theorem push_self : (server.push fd).conns server.nconns = .cleared fd := Function.update_self ..

theorem push_of_lt {i : Nat} (h : i < server.nconns) : (server.push fd).conns i = server.conns i :=
  Function.update_of_ne h.ne ..

/-- A slot of the longer table is the new one or one of the old ones. -/
theorem push_cases {i x : Nat} (hi : i < (server.push fd).nconns)
    (hx : ((server.push fd).conns i).fd = some x) :
    i = server.nconns ∧ x = fd ∨ i < server.nconns ∧ (server.conns i).fd = some x := by
  rcases Nat.lt_succ_iff_lt_or_eq.mp hi with hlt | rfl
  · rw [push_of_lt hlt] at hx
    exact .inr ⟨hlt, hx⟩
  · rw [push_self] at hx
    exact .inl ⟨rfl, (Option.some.inj hx).symm⟩

theorem push_file {i g : Nat} (hi : i < (server.push fd).nconns)
    (hg : ((server.push fd).conns i).file_fd = some g) :
    i < server.nconns ∧ (server.conns i).file_fd = some g := by
  rcases Nat.lt_succ_iff_lt_or_eq.mp hi with hlt | rfl
  · rw [push_of_lt hlt] at hg
    exact ⟨hlt, hg⟩
  · rw [push_self] at hg
    cases hg

/-- The filter of a new socket carries the new slot. -/
theorem Owned.udata_accepted (h : Owned server k) (hnew : k.fds fd = none) {filter : Filter} {i : Nat}
    (hu : (k.performAll server.nconns [.accepted fd, .added fd .read]).udata fd filter = some i) :
    i = server.nconns := by
  by_contra hi
  have hu' : k.udata fd filter = some i := by
    simp only [performAll_cons, performAll_nil, Kernel.perform, Function.update_self,
      Function.update_apply] at hu
    split at hu
    · exact absurd (Option.some.inj hu).symm hi
    · exact hu
  obtain ⟨n, hn⟩ := h.watches fd filter i hu'
  rw [hnew] at hn
  cases hn

theorem Owned.push (h : Owned server k) (hnew : k.fds fd = none) :
    Owned (server.push fd) (k.performAll server.nconns [.accepted fd, .added fd .read]) := by
  have hne : ∀ x, k.fds x ≠ none → x ≠ fd := by
    rintro x hx rfl
    exact hx hnew
  have hclient_ne : ∀ x, k.IsClient x → x ≠ fd := by
    rintro x ⟨n, hn⟩
    exact hne x (by rw [hn]; exact Option.some_ne_none _)
  set k' := k.performAll server.nconns [.accepted fd, .added fd .read] with hk'
  have hself : k'.fds fd = some (.client k.clients) := by simp [hk', Kernel.perform]
  have hfds : ∀ x, x ≠ fd → k'.fds x = k.fds x := by
    intro x hx
    simp [hk', Kernel.perform, Function.update_of_ne hx]
  have hudata : ∀ x, x ≠ fd → k'.udata x = k.udata x := by
    intro x hx
    simp [hk', Kernel.perform, Function.update_of_ne hx]
  have hold : ∀ x, k.IsClient x → k'.IsClient x := by
    rintro x hx
    rw [Kernel.IsClient, hfds x (hclient_ne x hx)]
    exact hx
  have hclient : ∀ x, x ≠ fd → k'.IsClient x → k.IsClient x := by
    intro x hx hx'
    rwa [Kernel.IsClient, hfds x hx] at hx'
  constructor
  case socket =>
    intro i hi x hx
    rcases push_cases hi hx with ⟨-, rfl⟩ | ⟨hlt, hx⟩
    · exact ⟨_, hself⟩
    · exact hold x (h.socket i hlt x hx)
  case slot =>
    intro x hx
    by_cases hfd : x = fd
    · exact ⟨server.nconns, Nat.lt_succ_self _, by rw [push_self, hfd]; rfl⟩
    · obtain ⟨i, hi, hi'⟩ := h.slot x (hclient x hfd hx)
      exact ⟨i, Nat.lt_succ_of_lt hi, by rw [push_of_lt hi, hi']⟩
  case socket_inj =>
    intro i hi j hj x hx hx'
    rcases push_cases hi hx with ⟨hi, hfd⟩ | ⟨hi, hx⟩ <;>
      rcases push_cases hj hx' with ⟨hj, hfd'⟩ | ⟨hj, hx'⟩
    · rw [hi, hj]
    · exact absurd hfd (hclient_ne x (h.socket j hj x hx'))
    · exact absurd hfd' (hclient_ne x (h.socket i hi x hx))
    · exact h.socket_inj i hi j hj x hx hx'
  case udata =>
    intro x filter i hu
    by_cases hfd : x = fd
    · rw [hfd] at hu ⊢
      rw [h.udata_accepted hnew hu, push_self]
      exact ⟨Nat.lt_succ_self _, rfl⟩
    · rw [hudata x hfd] at hu
      obtain ⟨hi, hx⟩ := h.udata x filter i hu
      exact ⟨Nat.lt_succ_of_lt hi, by rw [push_of_lt hi, hx]⟩
  case watched =>
    intro x hx
    by_cases hfd : x = fd
    · rw [hfd]
      exact watched_added ..
    · obtain ⟨filter, u, hu⟩ := h.watched x (hclient x hfd hx)
      exact ⟨filter, u, by rw [hudata x hfd, hu]⟩
  case file =>
    intro i hi g hg
    obtain ⟨hlt, hg⟩ := push_file hi hg
    have hfile := h.file i hlt g hg
    rw [hfds g (hne g (by rw [hfile]; exact Option.some_ne_none _)), hfile]
  case file_inj =>
    intro i hi j hj g hg hg'
    obtain ⟨hi, hg⟩ := push_file hi hg
    obtain ⟨hj, hg'⟩ := push_file hj hg'
    exact h.file_inj i hi j hj g hg hg'

theorem Addressed.push {e : Event} (he : Addressed server k e) (hnew : k.fds fd = none) :
    Addressed (server.push fd) (k.performAll server.nconns [.accepted fd, .added fd .read]) e := by
  cases e with
  | listening => trivial
  | ready x filter udata number =>
      obtain ⟨hlt, he⟩ := he
      refine ⟨Nat.lt_succ_of_lt hlt, ?_⟩
      rw [push_of_lt hlt]
      rcases he with he | ⟨he, hn⟩
      · exact .inl he
      · have hne : x ≠ fd := by
          rintro rfl
          rw [hnew] at hn
          cases hn
        refine .inr ⟨he, ?_⟩
        rw [← hn]
        simp [Kernel.perform, Function.update_of_ne hne]

theorem Addressed.congr {server' : Server} {k' : Kernel} {e : Event} (he : Addressed server k e)
    (hnconns : server'.nconns = server.nconns)
    (hconns : ∀ i < server.nconns, server'.conns i = server.conns i)
    (hfds : k'.fds = k.fds) : Addressed server' k' e := by
  cases e with
  | listening => trivial
  | ready x filter udata number =>
      obtain ⟨hlt, he⟩ := he
      refine ⟨hnconns ▸ hlt, ?_⟩
      rw [hconns udata hlt, hfds]
      exact he

end Accept

/-- The slots still open stand in front of the others, so that `free_conns` copies none. -/
def Server.NoMove (server : Server) : Prop :=
  Packed (fun conn : Connection => conn.fd.isSome) server.conns server.nconns

section Free
variable {server : Server} {k : Kernel}

theorem free_nconns :
    (free_conns server).nconns =
      (kept (fun conn : Connection => conn.fd.isSome) server.conns server.nconns).length :=
  compact_snd

/-- `free_conns` leaves no slot of a closed connection. -/
theorem free_reclaims {i : Nat} (hi : i < (free_conns server).nconns) :
    ((free_conns server).conns i).fd ≠ none :=
  Option.isSome_iff_ne_none.mp (keeps hi)

/-- Where no slot moves, the open slots are the ones that are left. -/
theorem Server.NoMove.lt_iff {server : Server} (h : server.NoMove) {i fd : Nat}
    (hfd : (server.conns i).fd = some fd) : i < (free_conns server).nconns ↔ i < server.nconns := by
  rw [free_conns, Packed.lt_iff h, hfd]
  simp

theorem Server.NoMove.owned (h : server.NoMove)
    (howned : Owned server k) : Owned (free_conns server) k := by
  have hconns : (free_conns server).conns = server.conns := Packed.compact_fst h
  have hle : (free_conns server).nconns ≤ server.nconns := by
    rw [free_nconns]
    exact length_kept_le ..
  refine ⟨?_, ?_, ?_, ?_, howned.watched, ?_, ?_⟩
  · intro i hi
    rw [hconns]
    exact howned.socket i (hi.trans_le hle)
  · intro fd hclient
    obtain ⟨i, hi, hfd⟩ := howned.slot fd hclient
    rw [hconns]
    exact ⟨i, (h.lt_iff hfd).mpr hi, hfd⟩
  · intro i hi j hj
    rw [hconns]
    exact howned.socket_inj i (hi.trans_le hle) j (hj.trans_le hle)
  · intro fd filter i hu
    obtain ⟨hi, hfd⟩ := howned.udata fd filter i hu
    rw [hconns]
    exact ⟨(h.lt_iff hfd).mpr hi, hfd⟩
  · intro i hi
    rw [hconns]
    exact howned.file i (hi.trans_le hle)
  · intro i hi j hj
    rw [hconns]
    exact howned.file_inj i (hi.trans_le hle) j (hj.trans_le hle)

end Free

end OtusCProg.HttpServer
