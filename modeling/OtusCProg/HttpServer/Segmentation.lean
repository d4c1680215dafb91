import OtusCProg.HttpServer.Model

/-!
# Segmentation of the request

`handle_read` decides on the bytes that have arrived when it first sees the
end of the header block. The decision depends on the way the stream was split
exactly where some part of it is complete but lacks a word of the request
line that the bytes behind it supply.
-/

namespace OtusCProg.HttpServer
open Library

/-- A status code, and the path of the file that is served. -/
abbrev Decision := Nat × Option Text

@[simp] def Action.code : Action → Option Nat
  | .built code => some code
  | _ => none

@[simp] def Action.path : Action → Option Text
  | .opened _ path => some path
  | _ => none

/-- The decision that a handler took. -/
def decision (actions : List Action) : Option Decision :=
  (actions.findSome? Action.code).map fun code => (code, actions.findSome? Action.path)

def Reply.decision : Reply → Decision
  | .error code _ => (code, none)
  | .file full_path _ => (200, some full_path)

/-- What `handle_read` decides once `received` has arrived, `none` while it waits. -/
def verdict (site : Site) (received : Text) : Option Decision :=
  if terminated (cstr received) then some (reply_to site (cstr received)).decision
  else if RECV_BUF_SIZE - 1 ≤ received.length then some (413, none)
  else none

/-- The stream `rest` arrives in pieces that fit; the last component is the decision, `none` when
`handle_read` still waits behind the stream. -/
inductive Receives (site : Site) : Connection → Text → Option Decision → Prop where
  | waiting {conn : Connection} : Receives site conn [] none
  | more {conn : Connection} {chunk rest : Text} {a : ReadAnswers} {d : Option Decision}
      (hchunk : chunk ≠ []) (hfit : chunk.length ≤ RECV_BUF_SIZE - conn.recv_len - 1)
      (hrecv : a.recv = .data chunk) (hwait : decision (handle_read site conn a).2 = none)
      (hrest : Receives site (handle_read site conn a).1 rest d) :
      Receives site conn (chunk ++ rest) d
  | decided {conn : Connection} {chunk rest : Text} {a : ReadAnswers} {d : Decision}
      (hchunk : chunk ≠ []) (hfit : chunk.length ≤ RECV_BUF_SIZE - conn.recv_len - 1)
      (hrecv : a.recv = .data chunk) (hdecided : decision (handle_read site conn a).2 = some d) :
      Receives site conn (chunk ++ rest) (some d)

section Handler
variable {site : Site} {conn : Connection} {a : ReadAnswers}

theorem findSome_close {β : Type*} (f : Action → Option β)
    (hclosed : ∀ fd, f (.closed fd) = none) (hdeleted : ∀ fd filter, f (.deleted fd filter) = none) :
    (close_connection conn).2.findSome? f = none := by
  cases hfd : conn.fd <;> cases hfile : conn.file_fd <;>
    simp [close_connection, hfd, hfile, hclosed, hdeleted]

theorem findSome_watch_write {β : Type*} (f : Action → Option β) (registered : Bool)
    (hclosed : ∀ fd, f (.closed fd) = none) (hdeleted : ∀ fd filter, f (.deleted fd filter) = none)
    (hadded : ∀ fd filter, f (.added fd filter) = none) :
    (watch_write conn registered).2.findSome? f = none := by
  cases registered with
  | false => exact findSome_close f hclosed hdeleted
  | true => cases hfd : conn.fd <;> simp [watch_write, hfd, hadded]

theorem decision_built (code : Nat) (o : Outcome) :
    decision (o.after [.built code]).2 = some (code, o.2.findSome? Action.path) :=
  rfl

theorem decision_send_error {code : Nat} {status : Text} {registered : Bool} :
    decision (send_error conn code status registered).2 = some (code, none) := by
  rw [send_error, decision_built, findSome_watch_write Action.path]
  all_goals intros; rfl

theorem decision_handle_request :
    decision (handle_request site conn a).2 = some (reply_to site (cstr conn.recv_buf.bytes)).decision := by
  unfold handle_request
  cases reply_to site (cstr conn.recv_buf.bytes) with
  | error code status => exact decision_send_error
  | file full_path st => rfl

theorem decision_after_deleted {fd : Nat} {filter : Filter} {o : Outcome} :
    decision (o.after [.deleted fd filter]).2 = decision o.2 :=
  rfl

/-- The bytes received stand in `recv_buf`, with their terminator behind them. -/
structure Holds (conn : Connection) (received : Text) : Prop where
  fd : conn.fd ≠ none
  recv_len : conn.recv_len = received.length
  recv_buf : received ++ [0] <+: conn.recv_buf.bytes

variable {received chunk : Text}

theorem Holds.length_lt (h : Holds conn received) : received.length < RECV_BUF_SIZE := by
  have hle := h.recv_buf.length_le
  have hbuf := conn.recv_buf.length_eq
  simp only [List.length_append, List.length_singleton] at hle
  omega

theorem Holds.cstr_eq (h : Holds conn received) : cstr conn.recv_buf.bytes = cstr received := by
  obtain ⟨rest, hrest⟩ := h.recv_buf
  rw [← hrest, List.append_assoc]
  exact cstr_append_zero received rest

theorem Holds.receive (h : Holds conn received)
    (hfit : chunk.length ≤ RECV_BUF_SIZE - conn.recv_len - 1) :
    Holds (conn.receive chunk) (received ++ chunk) := by
  have hlt := h.length_lt
  have hlen := h.recv_len
  refine ⟨h.fd, by simp [Connection.receive, hlen], ?_⟩
  have hbytes : conn.recv_buf.bytes.take conn.recv_len = received := by
    obtain ⟨rest, hrest⟩ := h.recv_buf
    rw [← hrest, hlen, List.append_assoc, List.take_left]
  have hcopy := conn.recv_buf.take_memcpy conn.recv_len chunk (by omega)
  have hzero := (conn.recv_buf.memcpy conn.recv_len chunk).take_memcpy
    (conn.recv_len + chunk.length) [0] (by simp; omega)
  rw [hcopy, hbytes] at hzero
  rw [← hzero]
  exact List.take_prefix ..

/-- One call of `handle_read` that receives bytes. -/
theorem Holds.handle_read (h : Holds conn received) (hchunk : chunk ≠ [])
    (hfit : chunk.length ≤ RECV_BUF_SIZE - conn.recv_len - 1) (hrecv : a.recv = .data chunk) :
    decision (handle_read site conn a).2 = verdict site (received ++ chunk) ∧
      (verdict site (received ++ chunk) = none →
        Holds (handle_read site conn a).1 (received ++ chunk)) := by
  obtain ⟨fd, hfd⟩ := Option.ne_none_iff_exists'.mp h.fd
  have hnext := h.receive hfit
  simp only [HttpServer.handle_read, hfd, hrecv, List.take_of_length_le hfit, if_neg hchunk,
    hnext.cstr_eq, hnext.recv_len, verdict]
  split
  · refine ⟨?_, nofun⟩
    rw [decision_after_deleted, decision_handle_request, hnext.cstr_eq]
  · split
    · exact ⟨decision_send_error, nofun⟩
    · exact ⟨rfl, fun _ => hnext⟩

theorem holds_accepted (fd : Nat) : Holds (.cleared (some fd)) [] where
  fd := Option.some_ne_none fd
  recv_len := rfl
  recv_buf := ⟨List.replicate (RECV_BUF_SIZE - 1) 0, rfl⟩

end Handler

theorem verdict_nil (site : Site) : verdict site [] = none := by
  rw [verdict, if_neg (by decide), if_neg (by decide)]

section Split
variable {site : Site} {conn : Connection} {received rest : Text} {d : Option Decision}

/-- The decision of a run is the verdict on some part of the stream, and on all of it when the run
ends without one. -/
theorem Receives.verdict (h : Receives site conn rest d) (hholds : Holds conn received)
    (hwait : verdict site received = none) :
    ∃ part, part <+: rest ∧ (received ++ part).length < RECV_BUF_SIZE ∧
      d = HttpServer.verdict site (received ++ part) ∧ (d = none → part = rest) := by
  induction h generalizing received with
  | waiting =>
      refine ⟨[], List.nil_prefix, ?_, ?_, fun _ => rfl⟩
      · simpa using hholds.length_lt
      · rw [List.append_nil, hwait]
  | @more conn chunk rest a d hchunk hfit hrecv hnone _ ih =>
      obtain ⟨heq, hnext⟩ := hholds.handle_read hchunk hfit hrecv
      rw [hnone] at heq
      obtain ⟨part, hpart, hlen, hd, hall⟩ := ih (hnext heq.symm) heq.symm
      rw [List.append_assoc] at hlen hd
      refine ⟨chunk ++ part, (List.prefix_append_right_inj chunk).mpr hpart, hlen, hd, ?_⟩
      intro hdnone
      rw [hall hdnone]
  | @decided conn chunk rest a d hchunk hfit hrecv hdecided =>
      obtain ⟨heq, -⟩ := hholds.handle_read hchunk hfit hrecv
      exact ⟨chunk, List.prefix_append .., (hholds.receive hfit).length_lt,
        by rw [← hdecided, heq], nofun⟩

/-- A part of the stream that comes as one piece decides it. -/
theorem receives_one (fd : Nat) (part rest : Text) {d : Decision}
    (hlen : part.length < RECV_BUF_SIZE) (hd : HttpServer.verdict site part = some d) :
    Receives site (.cleared (some fd)) (part ++ rest) (some d) := by
  have hpart : part ≠ [] := by
    rintro rfl
    rw [verdict_nil] at hd
    cases hd
  have hfit : part.length ≤ RECV_BUF_SIZE - (Connection.cleared (some fd)).recv_len - 1 :=
    Nat.le_pred_of_lt hlen
  refine .decided (a := ⟨.data part, 0, true⟩) hpart hfit rfl ?_
  rw [((holds_accepted fd).handle_read hpart hfit rfl).1]
  exact hd

end Split

section Words
variable {a : Text}

theorem scan_request_eq_some {method path : Text} :
    scan_request a = some (method, path) ↔ ∃ rest rest' , scanWord 15 a = some (method, rest) ∧
      scanWord 1023 rest = some (path, rest') ∧ (scanWord 15 rest').isSome := by
  simp only [scan_request, Option.bind_eq_bind, Option.bind_eq_some_iff, Prod.exists,
    Option.isSome_iff_exists]
  constructor
  · rintro ⟨method', rest, hmethod, path', rest', hpath, version, rest'', hversion, heq⟩
    obtain ⟨rfl, rfl⟩ := Prod.mk.inj (Option.some.inj heq)
    exact ⟨rest, rest', hmethod, hpath, _, _, hversion⟩
  · rintro ⟨rest, rest', hmethod, hpath, version, rest'', hversion⟩
    exact ⟨_, _, hmethod, _, _, hpath, _, _, hversion, rfl⟩

theorem scanWord_ne_nil {n : Nat} (h : (scanWord n a).isSome) : a ≠ [] := by
  rintro rfl
  simp [scanWord] at h

/-- A method and a path that were found stay the same when more bytes arrive. -/
theorem scan_request_append (b : Text) {words : Text × Text} (h : scan_request a = some words) :
    scan_request (a ++ b) = some words := by
  obtain ⟨method, path⟩ := words
  obtain ⟨rest, rest', hmethod, hpath, hversion⟩ := scan_request_eq_some.mp h
  have hrest : rest ≠ [] := scanWord_ne_nil (Option.isSome_of_eq_some hpath)
  have hrest' : rest' ≠ [] := scanWord_ne_nil hversion
  exact scan_request_eq_some.mpr ⟨_, _, scanWord_append b hmethod hrest,
    scanWord_append b hpath hrest', scanWord_isSome_append b hversion⟩

theorem terminated_append (b : Text) (h : terminated a) : terminated (a ++ b) := by
  rw [terminated, strstr_isSome] at h ⊢
  exact h.trans (List.prefix_append a b).isInfix

theorem reply_file_code (site : Site) (full_path : Text) :
    (reply_file site full_path).decision.1 ≠ 400 := by
  unfold reply_file
  cases site.stat full_path with
  | error e => cases e <;> simp [Reply.decision]
  | ok st =>
      dsimp only
      split_ifs <;> simp [Reply.decision]

theorem reply_path_code (site : Site) (path : Text) : (reply_path site path).decision.1 ≠ 400 := by
  dsimp only [reply_path]
  split_ifs
  · simp [Reply.decision]
  · simp [Reply.decision]
  · exact reply_file_code site _

/-- The status is 400 exactly where the request line lacks a word. -/
theorem reply_to_code (site : Site) (a : Text) :
    (reply_to site a).decision.1 = 400 ↔ scan_request a = none := by
  unfold reply_to
  cases scan_request a with
  | none => simp [Reply.decision]
  | some words =>
      dsimp only
      split
      · simp [Reply.decision]
      · simp [reply_path_code]

end Words

/-- The part of a stream that `recv_buf` has room for. -/
def reach (s : Text) : Text := s.take (RECV_BUF_SIZE - 1)

/-- No part of the stream within reach is complete and lacks a word of the request line that the
rest within reach supplies. -/
def Complete (s : Text) : Prop :=
  ∀ part, part <+: reach s → terminated (cstr part) →
    ((scan_request (cstr part)).isSome ↔ (scan_request (cstr (reach s))).isSome)

section Stream
variable {site : Site} {s part : Text}

theorem isPrefix_reach (hpart : part <+: s) (hlen : part.length < RECV_BUF_SIZE) :
    part <+: reach s :=
  List.prefix_take_iff.mpr ⟨hpart, Nat.le_pred_of_lt hlen⟩

theorem length_reach_lt : (reach s).length < RECV_BUF_SIZE := by
  simp only [reach, List.length_take, RECV_BUF_SIZE]
  omega

theorem terminated_of_isPrefix {t : Text} (hpart : part <+: t) (h : terminated (cstr part)) :
    terminated (cstr t) := by
  obtain ⟨rest, rfl⟩ := hpart
  obtain ⟨more, hmore⟩ := cstr_isPrefix part rest
  rw [← hmore]
  exact terminated_append more h

/-- Every verdict on a part of a complete stream is the one on all that is within reach. -/
theorem Complete.verdict_eq (hs : Complete s) (hpart : part <+: s)
    (hlen : part.length < RECV_BUF_SIZE) (hall : verdict site part = none → part = s) :
    verdict site part = verdict site (reach s) := by
  have hreach := isPrefix_reach hpart hlen
  by_cases hend : terminated (cstr part)
  · have hend' := terminated_of_isPrefix hreach hend
    rw [verdict, if_pos hend, verdict, if_pos hend']
    congr 1
    have hwords := hs part hreach hend
    cases hscan : scan_request (cstr part) with
    | none =>
        rw [hscan] at hwords
        have hnone : scan_request (cstr (reach s)) = none := by simpa using hwords
        simp only [reply_to, hscan, hnone]
    | some words =>
        obtain ⟨rest, hrest⟩ := hreach
        obtain ⟨more, hmore⟩ := cstr_isPrefix part rest
        have hsame := scan_request_append more hscan
        rw [hmore, hrest] at hsame
        simp only [reply_to, hscan, hsame]
  · by_cases hfull : RECV_BUF_SIZE - 1 ≤ part.length
    · have heq : part = reach s := by
        apply hreach.eq_of_length_le
        exact (Nat.le_pred_of_lt length_reach_lt).trans hfull
      rw [heq]
    · have heq : part = s := hall (by rw [verdict, if_neg hend, if_neg hfull])
      have hfits : reach s = s := List.take_of_length_le (by rw [← heq]; omega)
      rw [hfits, heq]

/-- Every stream is received in some way. -/
theorem exists_receives (site : Site) (fd : Nat) (s : Text) :
    ∃ d, Receives site (.cleared (some fd)) s d := by
  cases hd : verdict site (reach s) with
  | some d =>
      refine ⟨some d, ?_⟩
      rw [← List.take_append_drop (RECV_BUF_SIZE - 1) s]
      exact receives_one fd _ _ length_reach_lt hd
  | none =>
      refine ⟨none, ?_⟩
      by_cases hs : s = []
      · rw [hs]
        exact .waiting
      · have hreach : reach s = s := by
          by_contra hne
          have hfull : RECV_BUF_SIZE - 1 ≤ (reach s).length := by
            by_contra hlt
            apply hne
            rw [reach, List.length_take] at hlt
            exact List.take_of_length_le (by omega)
          rw [verdict, if_pos hfull] at hd
          split at hd <;> cases hd
        have hfit : s.length ≤ RECV_BUF_SIZE - (Connection.cleared (some fd)).recv_len - 1 := by
          rw [← hreach]
          exact Nat.le_pred_of_lt length_reach_lt
        have hone : decision (handle_read site (.cleared (some fd)) ⟨.data s, 0, true⟩).2 =
            verdict site s :=
          ((holds_accepted fd).handle_read hs hfit rfl).1
        rw [← hreach, hd, hreach] at hone
        rw [← List.append_nil s]
        exact .more (a := ⟨.data s, 0, true⟩) hs hfit rfl hone .waiting

/-- The decision is the same for every split of the stream exactly where the stream is complete. -/
theorem segmentation_independent_iff (site : Site) (fd : Nat) (s : Text) :
    (∀ d d', Receives site (.cleared (some fd)) s d → Receives site (.cleared (some fd)) s d' →
      d = d') ↔ Complete s := by
  constructor
  · intro hsame part hpart hend
    have hend' := terminated_of_isPrefix hpart hend
    have hrun : ∀ p, p <+: reach s → terminated (cstr p) →
        Receives site (.cleared (some fd)) s (some (reply_to site (cstr p)).decision) := by
      intro p hp hterminated
      obtain ⟨rest, hrest⟩ := hp.trans ( List.take_prefix ..)
      rw [← hrest]
      exact receives_one fd p rest (hp.length_le.trans_lt length_reach_lt)
        (by rw [verdict, if_pos hterminated])
    have heq := hsame _ _ (hrun part hpart hend) (hrun _ List.prefix_rfl hend')
    have hcode := congrArg Prod.fst (Option.some.inj heq)
    have h400 := reply_to_code site (cstr part)
    rw [hcode, reply_to_code] at h400
    rw [← not_iff_not, Option.not_isSome_iff_eq_none, Option.not_isSome_iff_eq_none]
    exact h400.symm
  · intro hs
    have hall : ∀ d, Receives site (.cleared (some fd)) s d → d = verdict site (reach s) := by
      intro d hd
      obtain ⟨part, hpart, hlen, heq, hnone⟩ := hd.verdict (holds_accepted fd) (verdict_nil site)
      rw [List.nil_append] at hlen heq
      rw [heq] at hnone ⊢
      exact hs.verdict_eq hpart hlen hnone
    intro d d' hd hd'
    rw [hall d hd, hall d' hd']

end Stream

/-- A request line of two words is refused, unless the byte behind the blank line comes with it. -/
theorem split_changes_decision :
    ¬ ∀ (site : Site) (fd : Nat) (s : Text) (d d' : Option Decision),
      Receives site (.cleared (some fd)) s d → Receives site (.cleared (some fd)) s d' → d = d' := by
  intro hsame
  have hsplit : Receives Site.empty (.cleared (some 5)) (text "GET /a\r\n\r\nX") (some (400, none)) :=
    receives_one 5 (text "GET /a\r\n\r\n") (text "X") (by decide) (by decide)
  have hwhole : Receives Site.empty (.cleared (some 5)) (text "GET /a\r\n\r\nX") (some (404, none)) :=
    receives_one 5 (text "GET /a\r\n\r\nX") [] (by decide) (by decide)
  have heq := hsame _ _ _ _ _ hsplit hwhole
  simp at heq

end OtusCProg.HttpServer
