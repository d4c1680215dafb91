import OtusCProg.HttpServer.Confinement
import OtusCProg.HttpServer.UrlDecode

/-!
# The request line and the file that is opened

`sscanf` reads three words wherever they stand in `recv_buf`, and cuts a word
that is too long, and `url_decode` takes more escapes than there are. A request
opens the file that its first line names on every site exactly where that line is
well formed, short enough and free of such escapes, or where the request is
refused before any file is looked at.
-/

namespace OtusCProg.HttpServer
open Library

/-- The bytes in front of the first `\r\n`. -/
def first_line : Text → Text
  | [] => []
  | c :: s => if (text "\r\n").isPrefixOf (c :: s) then [] else c :: first_line s

/-- A part of a line that has no white space in it. -/
structure Token (word : Text) : Prop where
  ne_nil : word ≠ []
  solid : ∀ c ∈ word, isspace c = false

/-- `GET`, a space, the target, a space and a version. -/
def RequestLine (line target : Text) : Prop :=
  Token target ∧ ∃ version, Token version ∧ line = text "GET " ++ target ++ text " " ++ version

/-- Every file that `handle_request` opens is the one that the first line names. -/
def ServesTarget (site : Site) (conn : Connection) : Prop :=
  ∀ a fd full_path, .opened fd full_path ∈ (handle_request site conn a).2 →
    ∃ target, RequestLine (first_line (cstr conn.recv_buf.bytes)) target ∧
      target.length < 1024 ∧ full_path = site.root_dir ++ text "/" ++ decodeWith hexPair target

/-- A well-formed first line, with a target that fits, has no NUL in its decoding and no escape that
only `strtol` takes. -/
def NamesFile (recv_buf : Text) : Prop :=
  ∃ target, RequestLine (first_line recv_buf) target ∧ target.length < 1024 ∧
    0 ∉ decodeWith hexPair target ∧ NoLooseEscape target

/-- The request is refused before any file is looked at: it has no three words, another method, or
a path that is unsafe or too long. -/
def Refused (root_dir recv_buf : Text) : Prop :=
  ∀ path, scan_request recv_buf = some (text "GET", path) →
    is_safe_path (url_decode path 1024) → PATH_MAX ≤ (root_dir ++ text "/" ++ url_decode path 1024).length

theorem text_space : text " " = [32] := rfl

section Scan

theorem first_line_isPrefix (s : Text) : first_line s <+: s := by
  induction s with
  | nil => exact List.nil_prefix
  | cons c s ih =>
      rw [first_line]
      split
      · exact List.nil_prefix
      · exact (List.prefix_cons_inj c).mpr ih

/-- A token is read in one piece, with white space in front and behind. -/
theorem scanWord_token {n : Nat} {word rest : Text} (hword : Token word) (hlen : word.length ≤ n) :
    scanWord n (32 :: (word ++ 32 :: rest)) = some (word, 32 :: rest) := by
  obtain ⟨c, tail, rfl⟩ := List.exists_cons_of_ne_nil hword.ne_nil
  have hc : isspace c = false := hword.solid c List.mem_cons_self
  have hbody : (32 :: (c :: tail ++ 32 :: rest)).dropWhile isspace = c :: tail ++ 32 :: rest := by
    rw [List.dropWhile_cons_of_pos (by decide), List.cons_append,
      List.dropWhile_cons_of_neg (by simp [hc])]
  have hwhile : (c :: tail ++ 32 :: rest).takeWhile (fun c => !isspace c) = c :: tail := by
    rw [List.takeWhile_append_of_pos (by simpa using hword.solid), List.takeWhile_cons_of_neg (by decide),
      List.append_nil]
  rw [scanWord_eq_some, hbody, hwhile, List.take_of_length_le hlen]
  exact ⟨hword.ne_nil, rfl, (List.drop_left ..).symm⟩

theorem scanWord_version {n : Nat} {version rest : Text} (hversion : Token version) (hn : n ≠ 0) :
    (scanWord n (32 :: (version ++ rest))).isSome := by
  obtain ⟨c, tail, rfl⟩ := List.exists_cons_of_ne_nil hversion.ne_nil
  have hc : isspace c = false := hversion.solid c List.mem_cons_self
  have hone : (scanWord n [32, c]).isSome := by
    simp [scanWord, hc, hn, show isspace 32 = true from rfl]
  exact scanWord_isSome_append (tail ++ rest) hone

/-- The three words of a well-formed first line. -/
theorem scan_request_of_line {recv_buf target : Text} (hline : RequestLine (first_line recv_buf) target)
    (hlen : target.length < 1024) : scan_request recv_buf = some (text "GET", target) := by
  obtain ⟨htarget, version, hversion, heq⟩ := hline
  obtain ⟨rest, hrest⟩ := first_line_isPrefix recv_buf
  have hbuf : recv_buf = text "GET" ++ 32 :: (target ++ 32 :: (version ++ rest)) := by
    rw [← hrest, heq]
    simp only [text_space, List.append_assoc]
    rfl
  have hget : scanWord 15 (text "GET" ++ [32]) = some (text "GET", [32]) := by decide
  refine scan_request_eq_some.mpr ⟨32 :: (target ++ 32 :: (version ++ rest)), 32 :: (version ++ rest), ?_,
    scanWord_token htarget (Nat.le_of_lt_succ hlen), scanWord_version hversion (by decide)⟩
  rw [hbuf]
  exact scanWord_append (target ++ 32 :: (version ++ rest)) hget (List.cons_ne_nil 32 [])

end Scan

/-- A site where every path is a readable file. -/
def Site.full (root_dir : Text) : Site where
  root_dir := root_dir
  stat := fun _ => .ok ⟨true, 0, by decide⟩
  readable := fun _ => true
  opens := fun _ => true

section Serve
variable {conn : Connection} {path : Text}

/-- What is not refused is opened where all files exist. -/
theorem opened_full {root_dir : Text}
    (hscan : scan_request (cstr conn.recv_buf.bytes) = some (text "GET", path))
    (hsafe : is_safe_path (url_decode path 1024))
    (hlen : (root_dir ++ text "/" ++ url_decode path 1024).length < PATH_MAX) :
    .opened 0 (root_dir ++ text "/" ++ url_decode path 1024) ∈
      (handle_request (.full root_dir) conn ⟨.again, 0, true⟩).2 := by
  refine opened_mem_handle_request.mpr ⟨rfl, ⟨true, 0, by decide⟩, ?_⟩
  refine reply_to_eq_file.mpr ⟨path, hscan, ?_⟩
  refine reply_path_eq_file.mpr ⟨hsafe, rfl, hlen, ?_⟩
  exact reply_file_eq_file.mpr ⟨rfl, rfl, rfl, rfl, rfl⟩

/-- A well-formed line names the file that is opened. -/
theorem NamesFile.serves (h : NamesFile (cstr conn.recv_buf.bytes)) (site : Site) :
    ServesTarget site conn := by
  obtain ⟨target, hline, hlen, hdecoding⟩ := h
  intro a fd full_path hopened
  obtain ⟨-, st, hreply⟩ := opened_mem_handle_request.mp hopened
  obtain ⟨path, hscan, hpath⟩ := reply_to_eq_file.mp hreply
  obtain ⟨-, hfull, -⟩ := reply_path_eq_file.mp hpath
  rw [scan_request_of_line hline hlen] at hscan
  obtain rfl : target = path := (Prod.mk.inj (Option.some.inj hscan)).2
  refine ⟨target, hline, hlen, ?_⟩
  rw [hfull, (url_decode_eq_iff hlen).mpr hdecoding]

theorem Refused.serves {root_dir : Text} (h : Refused root_dir (cstr conn.recv_buf.bytes)) {site : Site}
    (hroot : site.root_dir = root_dir) : ServesTarget site conn := by
  intro a fd full_path hopened
  obtain ⟨-, st, hreply⟩ := opened_mem_handle_request.mp hopened
  obtain ⟨path, hscan, hpath⟩ := reply_to_eq_file.mp hreply
  obtain ⟨hsafe, hfull, hlen, -⟩ := reply_path_eq_file.mp hpath
  rw [hfull, hroot] at hlen
  exact absurd (h path hscan hsafe) hlen.not_ge

end Serve

end OtusCProg.HttpServer
