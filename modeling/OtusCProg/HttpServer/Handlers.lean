import OtusCProg.HttpServer.Model

/-!
# What a handler does to the descriptors

A handler works on the socket and the file of its own connection. Either it
leaves the socket open and adds at most one file, or it closes all that the
connection owns; its registrations point to its own slot.
-/

namespace OtusCProg.HttpServer
open Library

section Perform
variable (slot : Nat) (k : Kernel)

@[simp] theorem performAll_nil : k.performAll slot [] = k := rfl

@[simp] theorem performAll_cons (action : Action) (actions : List Action) :
    k.performAll slot (action :: actions) = (k.perform slot action).performAll slot actions :=
  rfl

@[simp] theorem performAll_append (actions actions' : List Action) :
    k.performAll slot (actions ++ actions') =
      (k.performAll slot actions).performAll slot actions' :=
  List.foldl_append

end Perform

/-- `fd` is the socket of a client. -/
def Kernel.IsClient (k : Kernel) (fd : Nat) : Prop := ∃ n, k.fds fd = some (.client n)

/-- Only sockets of clients are watched. -/
def Kernel.Watches (k : Kernel) : Prop :=
  ∀ fd filter u, k.udata fd filter = some u → k.IsClient fd

/-- Some filter of `sock` is watched. -/
def Kernel.Watched (k : Kernel) (sock : Nat) : Prop := ∃ filter u, k.udata sock filter = some u

/-- The connection owns the socket `sock`, and a file where it has one. -/
structure Owns (k : Kernel) (sock : Nat) (conn : Connection) : Prop where
  fd : conn.fd = some sock
  socket : k.IsClient sock
  file : ∀ g, conn.file_fd = some g → k.fds g = some .file
  watches : k.Watches
  watched : k.Watched sock

/-- The socket stays open, and at most one file is opened. -/
structure Keeps (k : Kernel) (slot sock : Nat) (conn conn' : Connection) (k' : Kernel) : Prop where
  fd : conn'.fd = some sock
  file : k'.fds = k.fds ∧ conn'.file_fd = conn.file_fd ∨
    ∃ g, k.fds g = none ∧ conn'.file_fd = some g ∧ k'.fds = Function.update k.fds g (some .file)
  udata : ∀ x, x ≠ sock → k'.udata x = k.udata x
  own : ∀ filter u, k'.udata sock filter = some u → k.udata sock filter = some u ∨ u = slot

/-- The socket is closed, and so is at most the file of the connection. -/
structure Closes (k : Kernel) (sock : Nat) (conn conn' : Connection) (k' : Kernel) : Prop where
  fd : conn'.fd = none
  file : conn'.file_fd = none
  gone : k'.fds sock = none
  fds : ∀ x, x ≠ sock → k'.fds x = k.fds x ∨ conn.file_fd = some x ∧ k'.fds x = none
  udata : ∀ x, x ≠ sock → k'.udata x = k.udata x
  cleared : ∀ filter, k'.udata sock filter = none

/-- The handler of `slot` came from `conn` and `k` to `k'`, and goes on to the outcome `o`. -/
def Handled (k : Kernel) (slot sock : Nat) (conn : Connection) (k' : Kernel) (o : Outcome) : Prop :=
  Keeps k slot sock conn o.1 (k'.performAll slot o.2) ∧ (k'.performAll slot o.2).Watched sock ∨
    Closes k sock conn o.1 (k'.performAll slot o.2)

section Close
variable {slot sock : Nat} {k : Kernel} {conn : Connection}

theorem close_fds (hfd : conn.fd = some sock) (x : Nat) :
    (k.performAll slot (close_connection conn).2).fds x =
      if x = sock ∨ conn.file_fd = some x then none else k.fds x := by
  cases hfile : conn.file_fd with
  | none => simp [close_connection, hfd, hfile, Kernel.perform, Function.update_apply]
  | some g =>
      simp only [close_connection, hfd, hfile, Kernel.perform, Function.update_apply,
        Option.toList_some, List.flatMap_singleton, List.map_singleton, performAll_append,
        performAll_cons, performAll_nil, Option.some.injEq, eq_comm (a := g)]
      split_ifs <;> simp_all

theorem close_udata (hfd : conn.fd = some sock) (x : Nat) :
    (k.performAll slot (close_connection conn).2).udata x =
      if x = sock ∨ conn.file_fd = some x then fun _ => none else k.udata x := by
  cases hfile : conn.file_fd with
  | none => simp +contextual [close_connection, hfd, hfile, Kernel.perform, Function.update_apply]
  | some g =>
      simp only [close_connection, hfd, hfile, Kernel.perform, Function.update_apply,
        Option.toList_some, List.flatMap_singleton, List.map_singleton, performAll_append,
        performAll_cons, performAll_nil, Option.some.injEq, eq_comm (a := g)]
      split_ifs <;> simp_all

end Close

section Keeps
variable {slot sock : Nat} {k k' : Kernel} {conn conn' conn'' : Connection}

theorem Owns.refl (h : Owns k sock conn) : Keeps k slot sock conn conn k where
  fd := h.fd
  file := .inl ⟨rfl, rfl⟩
  udata _ _ := rfl
  own _ _ h := .inl h

/-- Changes to the other fields of the connection do not matter. -/
theorem Keeps.congr (h : Keeps k slot sock conn conn' k') (hfd : conn''.fd = conn'.fd)
    (hfile : conn''.file_fd = conn'.file_fd) : Keeps k slot sock conn conn'' k' where
  fd := hfd.trans h.fd
  file := by
    rw [hfile]
    exact h.file
  udata := h.udata
  own := h.own

theorem Keeps.deleted (h : Keeps k slot sock conn conn' k') (filter : Filter) :
    Keeps k slot sock conn conn' (k'.perform slot (.deleted sock filter)) where
  fd := h.fd
  file := h.file
  udata x hx := (Function.update_of_ne hx ..).trans (h.udata x hx)
  own filter' u hu := by
    simp only [Kernel.perform, Function.update_self, Function.update_apply] at hu
    split at hu
    · cases hu
    · exact h.own filter' u hu

theorem Keeps.added (h : Keeps k slot sock conn conn' k') (filter : Filter) :
    Keeps k slot sock conn conn' (k'.perform slot (.added sock filter)) where
  fd := h.fd
  file := h.file
  udata x hx := (Function.update_of_ne hx ..).trans (h.udata x hx)
  own filter' u hu := by
    simp only [Kernel.perform, Function.update_self, Function.update_apply] at hu
    split at hu
    · exact .inr (Option.some.inj hu).symm
    · exact h.own filter' u hu

theorem Keeps.opened (h : Keeps k slot sock conn conn' k') (hsame : k'.fds = k.fds) {g : Nat}
    (hnew : k.fds g = none) (path : Text) :
    Keeps k slot sock conn { conn' with file_fd := some g } (k'.perform slot (.opened g path)) where
  fd := h.fd
  file := by
    refine .inr ⟨g, hnew, rfl, ?_⟩
    rw [← hsame]
    rfl
  udata := h.udata
  own := h.own

/-- Closing a connection that was kept so far. -/
theorem Keeps.close (h : Keeps k slot sock conn conn' k') (howns : Owns k sock conn) :
    Closes k sock conn (close_connection conn').1 (k'.performAll slot (close_connection conn').2) where
  fd := rfl
  file := rfl
  gone := by
    rw [close_fds h.fd, if_pos (.inl rfl)]
  fds x hx := by
    rw [close_fds h.fd]
    rcases h.file with ⟨hfds, hfile⟩ | ⟨g, hnew, hfile, hfds⟩
    · rw [hfds, hfile]
      by_cases hg : conn.file_fd = some x
      · exact .inr ⟨hg, if_pos (.inr hg)⟩
      · exact .inl (if_neg (not_or_intro hx hg))
    · left
      rw [hfds, hfile]
      by_cases hg : x = g
      · rw [if_pos (.inr (by rw [hg])), hg, hnew]
      · rw [if_neg (not_or_intro hx fun heq => hg (Option.some.inj heq).symm),
          Function.update_of_ne hg]
  udata x hx := by
    rw [close_udata h.fd]
    split
    · rename_i hor
      have hg := hor.resolve_left hx
      have hclient : ∀ n, k.fds x ≠ some (.client n) := by
        intro n hn
        rcases h.file with ⟨-, hfile⟩ | ⟨g, hnew, hfile, -⟩
        · rw [howns.file x (hfile ▸ hg)] at hn
          cases hn
        · rw [Option.some.inj (hfile.symm.trans hg), hn] at hnew
          cases hnew
      funext filter
      cases hu : k.udata x filter with
      | none => rfl
      | some u =>
          obtain ⟨n, hn⟩ := howns.watches x filter u hu
          exact absurd hn (hclient n)
    · exact h.udata x hx
  cleared filter := by
    rw [close_udata h.fd, if_pos (.inl rfl)]

end Keeps

section Outcome
variable {slot sock : Nat} {k k' : Kernel} {conn conn' : Connection}

theorem Handled.after {actions : List Action} {o : Outcome}
    (h : Handled k slot sock conn (k'.performAll slot actions) o) :
    Handled k slot sock conn k' (o.after actions) := by
  rw [Handled, ← performAll_append] at h
  exact h

theorem Keeps.handled (h : Keeps k slot sock conn conn' k') (hwatched : k'.Watched sock) :
    Handled k slot sock conn k' (conn', []) :=
  .inl ⟨h, hwatched⟩

theorem watched_added (k : Kernel) (slot sock : Nat) (filter : Filter) :
    (k.perform slot (.added sock filter)).Watched sock :=
  ⟨filter, slot, by simp [Kernel.perform]⟩

variable (howns : Owns k sock conn)
include howns

theorem handled_close (h : Keeps k slot sock conn conn' k') :
    Handled k slot sock conn k' (close_connection conn') :=
  .inr (h.close howns)

theorem handled_watch_write (h : Keeps k slot sock conn conn' k') (registered : Bool) :
    Handled k slot sock conn k' (watch_write conn' registered) := by
  cases registered with
  | false => exact handled_close howns h
  | true =>
      left
      simp only [watch_write, h.fd, if_true, Option.toList_some, List.map_singleton]
      exact ⟨h.added .write, watched_added ..⟩

theorem handled_send_error (h : Keeps k slot sock conn conn' k') (code : Nat) (status : Text)
    (registered : Bool) : Handled k slot sock conn k' (send_error conn' code status registered) := by
  apply Handled.after
  apply handled_watch_write howns
  apply h.congr
  · split <;> rfl
  · split <;> rfl

theorem handled_handle_request (h : Keeps k slot sock conn conn' k') (hsame : k'.fds = k.fds)
    (site : Site) {a : ReadAnswers} (hnew : k.fds a.file_fd = none) :
    Handled k slot sock conn k' (handle_request site conn' a) := by
  unfold handle_request
  cases reply_to site (cstr conn'.recv_buf.bytes) with
  | error code status => exact handled_send_error howns h ..
  | file full_path st =>
      apply Handled.after
      apply handled_watch_write howns
      exact (h.opened hsame hnew full_path).congr rfl rfl

/-- What `handle_read` does to the descriptors. -/
theorem handled_handle_read (site : Site) {a : ReadAnswers} (hnew : k.fds a.file_fd = none) :
    Handled k slot sock conn k (handle_read site conn a) := by
  have hrefl : Keeps k slot sock conn conn k := howns.refl
  simp only [handle_read, howns.fd]
  cases a.recv with
  | again => exact hrefl.handled howns.watched
  | error => exact handled_close howns hrefl
  | data bytes =>
      dsimp only
      split
      · exact handled_close howns hrefl
      · have hreceived : Keeps k slot sock conn
            (conn.receive (bytes.take (RECV_BUF_SIZE - conn.recv_len - 1))) k :=
          hrefl.congr rfl rfl
        split
        · apply Handled.after
          exact handled_handle_request howns (hreceived.deleted .read) rfl site hnew
        · split
          · exact handled_send_error howns hreceived ..
          · exact hreceived.handled howns.watched

theorem handled_send_pending (h : Keeps k slot sock conn conn' k') (hwatched : k'.Watched sock)
    (answer : Send) {next : Connection → Outcome}
    (hnext : ∀ sent, Handled k slot sock conn k' (next { conn' with send_sent := sent })) :
    Handled k slot sock conn k' (send_pending conn' answer next) := by
  cases answer with
  | again => exact h.handled hwatched
  | error =>
      apply Handled.after
      exact handled_close howns h
  | accepted n =>
      apply Handled.after
      split
      · refine Keeps.handled ?_ hwatched
        exact h.congr rfl rfl
      · exact hnext _

theorem handled_send_block (h : Keeps k slot sock conn conn' k') (hwatched : k'.Watched sock)
    (a : WriteAnswers) : Handled k slot sock conn k' (send_block a conn') := by
  unfold send_block
  split
  · apply Handled.after
    exact handled_close howns h
  · exact handled_close howns h
  · refine handled_send_pending howns ?_ hwatched _ ?_
    · exact h.congr rfl rfl
    · intro sent
      refine Keeps.handled ?_ hwatched
      exact h.congr rfl rfl

/-- What `handle_write` does to the descriptors. -/
theorem handled_handle_write (a : WriteAnswers) :
    Handled k slot sock conn k (handle_write conn a) := by
  have hrefl : Keeps k slot sock conn conn k := howns.refl
  simp only [handle_write, howns.fd]
  cases conn.state with
  | sending_header =>
      apply handled_send_pending howns hrefl howns.watched
      intro sent
      dsimp only
      split
      · refine handled_send_block howns ?_ howns.watched a
        exact hrefl.congr rfl rfl
      · apply handled_close howns
        exact hrefl.congr rfl rfl
  | sending_file =>
      dsimp only
      split
      · apply handled_send_pending howns hrefl howns.watched
        intro sent
        refine handled_send_block howns ?_ howns.watched a
        exact hrefl.congr rfl rfl
      · exact handled_send_block howns hrefl howns.watched a
  | reading => exact hrefl.handled howns.watched
  | closing => exact hrefl.handled howns.watched

end Outcome

end OtusCProg.HttpServer
