import OtusCProg.Library.LexicalPath
import OtusCProg.HttpServer.Segmentation

/-!
# What the server asks the file system for

`handle_request` with a record of its calls of `stat`, `access` and `open`.
The record is complete: the reply depends on the files through these calls
only. Every path in it lies below `root_dir`, whatever the client has sent.
-/

namespace OtusCProg.HttpServer
open Library

/-- A call that takes a path. -/
inductive FileCall where
  | stat (path : Text)
  | access (path : Text)
  | open (path : Text)
deriving DecidableEq

def FileCall.path : FileCall → Text
  | .stat path => path
  | .access path => path
  | .open path => path

/-- The calls that `reply_file` makes. -/
def calls_file (site : Site) (full_path : Text) : List FileCall :=
  .stat full_path ::
    match site.stat full_path with
    | .error _ => []
    | .ok st =>
        if !st.regular then []
        else .access full_path :: if !site.readable full_path then [] else [.open full_path]

/-- The calls that `reply_path` makes. -/
def calls_path (site : Site) (path : Text) : List FileCall :=
  let decoded_path := url_decode path 1024
  if !is_safe_path decoded_path then []
  else
    let full_path := site.root_dir ++ text "/" ++ decoded_path
    if PATH_MAX ≤ full_path.length then [] else calls_file site full_path

/-- The calls that `reply_to` makes. -/
def calls (site : Site) (recv_buf : Text) : List FileCall :=
  match scan_request recv_buf with
  | none => []
  | some (method, path) => if method ≠ text "GET" then [] else calls_path site path

/-- The calls of `handle_request`. -/
def handle_request_calls (site : Site) (conn : Connection) : List FileCall :=
  calls site (cstr conn.recv_buf.bytes)

/-- The two sites answer a call in the same way. -/
def FileCall.Agree (site site' : Site) : FileCall → Prop
  | .stat path => site.stat path = site'.stat path
  | .access path => site.readable path = site'.readable path
  | .open path => site.opens path = site'.opens path

section Complete
variable {site site' : Site}

theorem reply_file_congr {full_path : Text}
    (hagree : ∀ call ∈ calls_file site full_path, call.Agree site site') :
    reply_file site full_path = reply_file site' full_path := by
  have hstat : site.stat full_path = site'.stat full_path :=
    hagree (.stat full_path) List.mem_cons_self
  unfold reply_file
  rw [← hstat]
  cases hst : site.stat full_path with
  | error e => cases e <;> rfl
  | ok st =>
      cases hregular : st.regular with
      | false => simp [hregular]
      | true =>
          have haccess : site.readable full_path = site'.readable full_path :=
            hagree (.access full_path) (by simp [calls_file, hst, hregular])
          simp only [← haccess]
          cases hreadable : site.readable full_path with
          | false => rfl
          | true =>
              have hopen : site.opens full_path = site'.opens full_path :=
                hagree (.open full_path) (by simp [calls_file, hst, hregular, hreadable])
              simp only [← hopen]

theorem reply_path_congr {path : Text} (hroot : site.root_dir = site'.root_dir)
    (hagree : ∀ call ∈ calls_path site path, call.Agree site site') :
    reply_path site path = reply_path site' path := by
  unfold reply_path
  unfold calls_path at hagree
  rw [← hroot]
  dsimp only at hagree ⊢
  split_ifs with hunsafe hlong
  · rfl
  · rfl
  · rw [if_neg hunsafe, if_neg hlong] at hagree
    exact reply_file_congr hagree

/-- Sites that answer the calls of a request in the same way get the same reply. -/
theorem reply_to_congr {recv_buf : Text} (hroot : site.root_dir = site'.root_dir)
    (hagree : ∀ call ∈ calls site recv_buf, call.Agree site site') :
    reply_to site recv_buf = reply_to site' recv_buf := by
  unfold reply_to
  unfold calls at hagree
  cases hscan : scan_request recv_buf with
  | none => rfl
  | some words =>
      rw [hscan] at hagree
      dsimp only at hagree ⊢
      split_ifs with hmethod
      · rfl
      · rw [if_neg hmethod] at hagree
        exact reply_path_congr hroot hagree

end Complete

section Opened
variable {site : Site} {full_path : Text} {st : Stat}

theorem reply_file_eq_file {full_path' : Text} :
    reply_file site full_path' = .file full_path st ↔
      full_path = full_path' ∧ site.stat full_path = .ok st ∧ st.regular ∧
        site.readable full_path ∧ site.opens full_path := by
  unfold reply_file
  cases hst : site.stat full_path' with
  | error e => cases e <;> simp +contextual [hst]
  | ok st' =>
      dsimp only
      split_ifs with hregular hreadable hopens <;> grind

theorem open_mem_calls_file (h : reply_file site full_path = .file full_path st) :
    .open full_path ∈ calls_file site full_path := by
  obtain ⟨-, hstat, hregular, hreadable, -⟩ := reply_file_eq_file.mp h
  simp [calls_file, hstat, hregular, hreadable]

theorem reply_path_eq_file {path : Text} :
    reply_path site path = .file full_path st ↔
      is_safe_path (url_decode path 1024) ∧
        full_path = site.root_dir ++ text "/" ++ url_decode path 1024 ∧
        full_path.length < PATH_MAX ∧ reply_file site full_path = .file full_path st := by
  dsimp only [reply_path]
  split_ifs with hunsafe hlong
  · simp_all
  · constructor
    · nofun
    · rintro ⟨-, rfl, hlt, -⟩
      exact absurd hlong hlt.not_ge
  · rw [reply_file_eq_file, reply_file_eq_file]
    constructor
    · rintro ⟨rfl, hst⟩
      exact ⟨by simpa using hunsafe, rfl, not_le.mp hlong, rfl, hst⟩
    · rintro ⟨-, heq, -, -, hst⟩
      exact ⟨heq, hst⟩

/-- The requests that a file answers. -/
theorem reply_to_eq_file {recv_buf : Text} :
    reply_to site recv_buf = .file full_path st ↔
      ∃ path, scan_request recv_buf = some (text "GET", path) ∧
        reply_path site path = .file full_path st := by
  unfold reply_to
  cases hscan : scan_request recv_buf with
  | none => simp
  | some words =>
      obtain ⟨method, path⟩ := words
      dsimp only
      split_ifs with hmethod <;> simp_all

/-- The file that `handle_request` serves is one that it asked `open` for. -/
theorem open_mem_calls {recv_buf : Text} (h : reply_to site recv_buf = .file full_path st) :
    .open full_path ∈ calls site recv_buf := by
  obtain ⟨path, hscan, hreply⟩ := reply_to_eq_file.mp h
  obtain ⟨hsafe, hpath, hlen, hfile⟩ := reply_path_eq_file.mp hreply
  have hcalls : calls site recv_buf = calls_file site full_path := by
    simp only [calls, hscan, calls_path, hsafe, ← hpath, if_neg hlen.not_ge]
    rfl
  rw [hcalls]
  exact open_mem_calls_file hfile

/-- What `handle_request` opens is what it replies with. -/
theorem opened_mem_handle_request {conn : Connection} {a : ReadAnswers} {fd : Nat} :
    .opened fd full_path ∈ (handle_request site conn a).2 ↔
      fd = a.file_fd ∧ ∃ st, reply_to site (cstr conn.recv_buf.bytes) = .file full_path st := by
  have hnone : ∀ (conn : Connection) (registered : Bool),
      .opened fd full_path ∉ (watch_write conn registered).2 := by
    intro conn registered hmem
    have hfind : (watch_write conn registered).2.findSome? Action.path = none :=
      findSome_watch_write _ _ (fun _ => rfl) (fun _ _ => rfl) (fun _ _ => rfl)
    exact absurd (List.findSome?_eq_none_iff.mp hfind _ hmem) nofun
  unfold handle_request
  cases reply_to site (cstr conn.recv_buf.bytes) with
  | error code status => simp [send_error, Outcome.after, hnone]
  | file full_path' st =>
      simp only [Outcome.after, List.cons_append, List.nil_append, List.mem_cons,
        Action.opened.injEq, reduceCtorEq, hnone, or_false, Reply.file.injEq]
      constructor
      · rintro ⟨rfl, rfl⟩
        exact ⟨rfl, st, rfl, rfl⟩
      · rintro ⟨rfl, -, rfl, -⟩
        exact ⟨rfl, rfl⟩

end Opened

section Confined
variable {site : Site} {call : FileCall}

theorem path_of_mem_calls_file {full_path : Text} (h : call ∈ calls_file site full_path) :
    call.path = full_path := by
  unfold calls_file at h
  rcases List.mem_cons.mp h with rfl | h
  · rfl
  · cases hst : site.stat full_path with
    | error e =>
        rw [hst] at h
        cases h
    | ok st =>
        rw [hst] at h
        dsimp only at h
        split_ifs at h with hregular hreadable
        · cases h
        · obtain rfl := List.mem_singleton.mp h
          rfl
        · rcases List.mem_cons.mp h with rfl | h
          · rfl
          · obtain rfl := List.mem_singleton.mp h
            rfl

/-- `is_safe_path` lets confined paths pass only. -/
theorem confined_of_is_safe_path {path : Text} (h : is_safe_path path) : Confined path := by
  apply confined_of_no_dots
  intro hdots
  rw [is_safe_path, Option.isNone_iff_eq_none] at h
  have hsome := strstr_isSome.mpr hdots
  rw [h] at hsome
  cases hsome

theorem confined_of_mem_calls_path {path : Text} (h : call ∈ calls_path site path) :
    ∃ s, call.path = site.root_dir ++ text "/" ++ s ∧ Confined s := by
  unfold calls_path at h
  dsimp only at h
  split_ifs at h with hunsafe hlong
  · cases h
  · cases h
  · refine ⟨_, path_of_mem_calls_file h, ?_⟩
    apply confined_of_is_safe_path
    simpa using hunsafe

end Confined

/-- Whatever stands in `recv_buf`, every path that `handle_request` passes to the system is below
`root_dir`. -/
theorem handle_request_confined (site : Site) (conn : Connection) :
    ∀ call ∈ handle_request_calls site conn,
      ∃ s, call.path = site.root_dir ++ text "/" ++ s ∧ Confined s := by
  intro call h
  unfold handle_request_calls calls at h
  cases hscan : scan_request (cstr conn.recv_buf.bytes) with
  | none =>
      rw [hscan] at h
      cases h
  | some words =>
      rw [hscan] at h
      dsimp only at h
      split_ifs at h with hmethod
      · cases h
      · exact confined_of_mem_calls_path h

/-- The encoded dots of the request stay below the root, and the file is opened. -/
theorem handle_request_confined_encoded :
    let site : Site :=
      { Site.empty with stat := fun _ => .ok ⟨true, 5, by decide⟩ }
    let conn := (Connection.cleared (some 5)).receive (text "GET /a%2F%2e/b HTTP/1.1\r\n\r\n")
    FileCall.open (text "/srv//a/./b") ∈ handle_request_calls site conn ∧
      ∃ s, text "/srv//a/./b" = text "/srv" ++ text "/" ++ s ∧ Confined s := by
  intro site conn
  have hopen : FileCall.open (text "/srv//a/./b") ∈ handle_request_calls site conn := by
    decide +kernel
  exact ⟨hopen, handle_request_confined site conn _ hopen⟩

end OtusCProg.HttpServer
