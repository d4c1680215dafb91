import OtusCProg.ZipJpeg.Program

/-!
# What `zipjpeg list` prints

For every file the program prints its listing or that it cannot parse it, and the
parser never stops on the way. An archive behind any prefix is listed with its
comment and its names.
-/

namespace OtusCProg.ZipJpeg.Program
open Library LittleEndian MachineInt Allocator Attempt

section Runs
variable {o : Outside} {filename : Text} {h : Allocator} {fuel : Nat}

/-- The text for a file that the parser rejects. -/
def failure : Text := text "Failed to parse ZIP file!\n"

/-- The file is an archive, and this is its listing. -/
def Lists (file out : Text) : Prop :=
  ∃ z zfo members, zip_read file = .ok (z, zfo) ∧ ZipJpeg.list_zip file z zfo = .ok members ∧
    out = listing file z members

theorem list_zip_meets (hfuel : ∀ file, o.fopen filename = some file → file.length + 1 < fuel)
    (hold : h.Holds []) :
    (list_zip o fuel filename).Meets h
      (fun out u => ∃ file listed, o.fopen filename = some file ∧ Lists file listed ∧
        out = title filename ++ found ++ listed ∧ u.Holds [])
      (fun stop u => Refused o filename (title filename) stop u ∨
        ∃ file buf, o.fopen filename = some file ∧ zip_read file = .error .rejected ∧
          stop = .exit1 (title filename ++ notice file ++ failure) ∧ u.Holds [buf]) := by
  refine (read_file_meets hfuel hold).bind_imp (fun stop u hstop => Or.inl hstop) ?_
  rintro ⟨buf, file⟩ u ⟨hopen, hu⟩
  refine (touch_meets hu (by simp)).bind fun _ v hv => ?_
  rcases zip_read_cases file with ⟨z, zfo, members, hread, hlist⟩ | hrejected
  · simp only [hread, hlist]
    refine (touch_meets hv (by simp)).bind fun _ w hw => ?_
    refine (free_meets hw).bind fun _ x hx => meets_pure ?_
    exact ⟨file, _, hopen, ⟨z, zfo, members, hread, hlist, rfl⟩, by rw [notice_of_ok hread], hx⟩
  · simp only [hrejected]
    exact meets_throw (Or.inr ⟨file, buf, hopen, hrejected, rfl, hv⟩)

theorem main_meets (argv0 : Text)
    (hfuel : ∀ file, o.fopen filename = some file → file.length + 1 < fuel) :
    (main o fuel argv0 [text "list", filename]).Meets Allocator.start
      (fun out u => ∃ file listed, o.fopen filename = some file ∧ Lists file listed ∧
        out = (0, title filename ++ found ++ listed) ∧ u.Holds [])
      (fun stop u => Refused o filename (title filename) stop u ∨
        ∃ file buf, o.fopen filename = some file ∧ zip_read file = .error .rejected ∧
          stop = .exit1 (title filename ++ notice file ++ failure) ∧ u.Holds [buf]) := by
  rw [main, if_pos rfl]
  refine (list_zip_meets hfuel holds_start).bind ?_
  rintro out u ⟨file, listed, hopen, hlists, rfl, hu⟩
  exact meets_pure ⟨file, listed, hopen, hlists, rfl, hu⟩

/-- `zipjpeg list` ends in one of three ways: it prints the listing of the archive and holds no
block; it prints whether an archive was found and that the file cannot be parsed, which the parser
has rejected; or it exits behind the title because something is refused. It frees and touches live
blocks only. -/
theorem list_ends (o : Outside) (argv0 zipfile : Text)
    (hfuel : ∀ file, o.fopen zipfile = some file → file.length + 1 < fuel) :
    let r := (main o fuel argv0 [text "list", zipfile]).on Allocator.start
    ∃ live, Custody.replay Allocator.depends r.2.history = some live ∧ live.card ≤ 1 ∧
      ((∃ file out, o.fopen zipfile = some file ∧ Lists file out ∧
          r.1 = .ok (0, title zipfile ++ found ++ out) ∧ live = ∅) ∨
        (∃ file, o.fopen zipfile = some file ∧ zip_read file = .error .rejected ∧
          r.1 = .error (.exit1 (title zipfile ++ notice file ++ failure))) ∨
        o.Refuses zipfile ∧ r.1 = .error (.exit1 (title zipfile))) := by
  intro r
  rcases main_meets argv0 hfuel with ⟨_, u, hon, file, listed, hopen, hlists, rfl, hu⟩ |
    ⟨stop, u, hon, ⟨rfl, hrefuses, blocks, hu, hfew⟩ | ⟨file, buf, hopen, hrejected, rfl, hu⟩⟩
  · have hr : r = (.ok (0, title zipfile ++ found ++ listed), u) := hon
    refine ⟨∅, by rw [hr]; exact hu.held, by simp, Or.inl ⟨file, listed, hopen, hlists, ?_, rfl⟩⟩
    rw [hr]
  · have hr : r = (.error (.exit1 (title zipfile)), u) := hon
    refine ⟨blocks.toFinset, by rw [hr]; exact hu.held, ?_, Or.inr (Or.inr ⟨hrefuses, ?_⟩)⟩
    · exact (List.toFinset_card_le blocks).trans hfew
    · rw [hr]
  · have hr : r = (.error (.exit1 (title zipfile ++ notice file ++ failure)), u) := hon
    refine ⟨_, by rw [hr]; exact hu.held, List.toFinset_card_le _, Or.inr (Or.inl ⟨file, hopen, hrejected, ?_⟩)⟩
    rw [hr]

/-- Everything is granted, and the file holds some bytes. -/
def Outside.granting (file : Text) : Outside := ⟨fun _ => true, fun _ => some file, fun _ => false, true⟩

theorem list_ends_notAnArchive :
    let r := (main (.granting (text "not a zip")) 11 (text "zipjpeg") [text "list", text "f"]).on Allocator.start
    ∃ live, Custody.replay Allocator.depends r.2.history = some live ∧ live.card ≤ 1 ∧
      ((∃ file out, (Outside.granting (text "not a zip")).fopen (text "f") = some file ∧ Lists file out ∧
          r.1 = .ok (0, title (text "f") ++ found ++ out) ∧ live = ∅) ∨
        (∃ file, (Outside.granting (text "not a zip")).fopen (text "f") = some file ∧
          zip_read file = .error .rejected ∧ r.1 = .error (.exit1 (title (text "f") ++ notice file ++ failure))) ∨
        (Outside.granting (text "not a zip")).Refuses (text "f") ∧ r.1 = .error (.exit1 (title (text "f")))) := by
  refine list_ends (.granting (text "not a zip")) (text "zipjpeg") (text "f") ?_
  rintro file hopen
  obtain rfl := Option.some.inj hopen
  decide

end Runs

section Archives
variable {entries : List Entry} {comment pre : Text}

/-- The bytes at the end of a string. -/
theorem slice_end {front rest : Text} {place : Nat} (hplace : front.length = place) :
    slice (front ++ rest) place rest.length = rest := by
  rw [slice, ← hplace, List.drop_left, List.take_length]

/-- An encoded archive behind a prefix is accepted, with its comment and its members. -/
theorem zip_read_encoded (hcount : entries.length < 2 ^ 16) (hcomment : comment.length < 2 ^ 16)
    (hlen : pre.length + (encode entries comment).length < 2 ^ 32)
    (hfirst : ∀ k < comment.length, ¬EndsWith (encode entries comment) k) :
    ∃ z members, zip_read (pre ++ encode entries comment) = .ok (z, pre.length) ∧
      ZipJpeg.list_zip (pre ++ encode entries comment) z pre.length = .ok members ∧
      members.map (Member.content (pre ++ encode entries comment)) = entries.map Entry.content ∧
      z.comment_len = comment.length ∧
      slice (pre ++ encode entries comment) z.comment z.comment_len = comment := by
  obtain ⟨src, hsrc⟩ : ∃ src, src = encode entries comment := ⟨_, rfl⟩
  rw [← hsrc] at hlen hfirst ⊢
  have hparts : src.length = (locals entries).length + ((centrals 0 entries).length +
      (EOCDR_BASE_SZ + comment.length)) := by
    rw [hsrc, encode, List.length_append, List.length_append, length_end_record]
  have hfront : pre ++ src = (pre ++ (locals entries ++ centrals 0 entries)) ++
      end_record entries.length (centrals 0 entries).length (locals entries).length comment := by
    rw [hsrc, encode, List.append_assoc, List.append_assoc]
  have hhidden : ∀ k < comment.length, ¬EndsWith (pre ++ src) k := by
    intro k hk
    rw [(endsWith_front (by omega)).2]
    exact hfirst k hk
  have hfound := find_eocdr_encoded hfront hcount (by omega) (by omega) hcomment hhidden
  have hlocals : src.drop 0 = locals entries ++ (centrals 0 entries ++
      end_record entries.length (centrals 0 entries).length (locals entries).length comment) := hsrc
  obtain ⟨members, hmembers, hwalk, hlisted⟩ := walk_encoded hlocals (slice_field hlocals).2 (by omega)
  rw [Nat.zero_add] at hwalk hlisted
  have hzfo : pre.length = (0 + pre.length) % 2 ^ 64 := by omega
  have hshifted := hwalk.shift hzfo hlen
  have htotal : (pre ++ src).length = pre.length + src.length := List.length_append
  have hoffset : toUnsigned 32 ((pre ++ src).length - (centrals 0 entries).length - EOCDR_BASE_SZ -
      comment.length : Int) = pre.length + (locals entries).length := by
    rw [htotal, hparts]
    unfold toUnsigned
    push_cast
    omega
  refine ⟨⟨entries.length, eocdr_at (pre ++ src) comment.length + EOCDR_BASE_SZ, comment.length,
      pre.length + (locals entries).length,
      pre.length + ((locals entries).length + (centrals 0 entries).length)⟩, _, ?_,
    list_zip_of_walk hshifted, (listed_front pre src _ _ members).trans hlisted, rfl, ?_⟩
  · refine zip_read_eq_ok.mpr ⟨_, members.map fun m => (m.1.shift pre.length, m.2.shift pre.length),
      hfound, rfl, rfl, rfl, ?_, ?_, ?_, ?_⟩
    · simp only [EocdrFields.at]
      rw [htotal, hparts]
      unfold toUnsigned
      push_cast
      omega
    · rw [List.length_map]
      exact hmembers
    · simp only [EocdrFields.at, hoffset]
      exact hshifted
    · simp only [EocdrFields.at, hoffset]
  · obtain ⟨head, hhead, hrecord⟩ : ∃ head : Text, head.length = EOCDR_BASE_SZ ∧
        end_record entries.length (centrals 0 entries).length (locals entries).length comment =
          head ++ comment := by
      exact ⟨(end_record entries.length (centrals 0 entries).length (locals entries).length comment).take
        EOCDR_BASE_SZ, rfl, rfl⟩
    rw [hfront, hrecord, ← List.append_assoc]
    refine slice_end ?_
    rw [List.length_append, hhead, eocdr_at]
    simp only [List.length_append, hhead]
    omega

/-- The names of the members, one on each line. -/
theorem names_of_contents {src : Text} {members : List Member}
    (h : members.map (Member.content src) = entries.map Entry.content) :
    members.flatMap (fun m => precision src m.name m.name_len ++ text "\n") =
      entries.flatMap fun e => e.name ++ text "\n" := by
  induction members generalizing entries with
  | nil =>
      cases entries with
      | nil => rfl
      | cons e entries => cases h
  | cons m members ih =>
      cases entries with
      | nil => cases h
      | cons e entries =>
          rw [List.map_cons, List.map_cons] at h
          obtain ⟨hm, hrest⟩ := List.cons.inj h
          have hname : slice src m.name m.name_len = e.name := congrArg Content.name hm
          rw [List.flatMap_cons, List.flatMap_cons, ih hrest, precision, hname, cstr_eq_self e.name_ok]

/-- Where nothing is refused, `zipjpeg list` prints the comment up to its first zero byte and the
names of an archive that stands behind any bytes. -/
theorem list_prints_archive (o : Outside) (argv0 zipfile : Text) (entries : List Entry)
    (comment pre : Text) {fuel : Nat} (hgranted : ¬o.Refuses zipfile)
    (hopen : o.fopen zipfile = some (pre ++ encode entries comment))
    (hfuel : (pre ++ encode entries comment).length + 1 < fuel)
    (hcount : entries.length < 2 ^ 16) (hcomment : comment.length < 2 ^ 16)
    (hlen : pre.length + (encode entries comment).length < 2 ^ 32)
    (hfirst : ∀ k < comment.length, ¬EndsWith (encode entries comment) k) :
    ((main o fuel argv0 [text "list", zipfile]).on Allocator.start).1 =
      .ok (0, title zipfile ++ found ++ ((if comment = [] then [] else cstr comment ++ text "\n\n") ++
        (entries.flatMap fun e => e.name ++ text "\n") ++ text "\n")) := by
  obtain ⟨z, members, hread, hlist, hcontents, hsize, htext⟩ :=
    zip_read_encoded hcount hcomment hlen hfirst
  have hends : ∀ file, o.fopen zipfile = some file → file.length + 1 < fuel := by
    intro file hfile
    obtain rfl := Option.some.inj (hopen.symm.trans hfile)
    exact hfuel
  rcases main_meets argv0 hends with
    ⟨_, u, hon, file, _, hfile, ⟨z', zfo, members', hread', hlist', rfl⟩, rfl, _⟩ |
    ⟨stop, u, hon, ⟨_, hrefuses, _⟩ | ⟨file, buf, hfile, hrejected, _⟩⟩
  · obtain rfl := Option.some.inj (hopen.symm.trans hfile)
    obtain ⟨rfl, rfl⟩ := Prod.mk.inj (Except.ok.inj (hread.symm.trans hread'))
    obtain rfl := Except.ok.inj (hlist.symm.trans hlist')
    have hnames := names_of_contents hcontents
    rw [hon, listing, hnames, precision, htext, hsize]
    by_cases hempty : comment = []
    · simp [hempty]
    · simp [hempty]
  · exact absurd hrefuses hgranted
  · obtain rfl := Option.some.inj (hopen.symm.trans hfile)
    cases hread.symm.trans hrejected

theorem list_prints_archive_storedEntry :
    ((main (.granting ([0xff, 0xd8] ++ encode [storedEntry] [111, 107])) 120 (text "zipjpeg")
      [text "list", text "f"]).on Allocator.start).1 =
      .ok (0, title (text "f") ++ found ++ ((if ([111, 107] : Text) = [] then [] else cstr [111, 107] ++ text "\n\n") ++
        ([storedEntry].flatMap fun e => e.name ++ text "\n") ++ text "\n")) := by
  refine list_prints_archive _ (text "zipjpeg") (text "f") [storedEntry] [111, 107] [0xff, 0xd8] ?_ rfl ?_
    (by decide) (by decide) (by decide) ?_
  · simp [Outside.Refuses, Outside.granting]
  · decide
  · intro k hk h
    have hsignature := h.signature
    have hcases : k = 0 ∨ k = 1 := by
      simp only [List.length_cons, List.length_nil] at hk
      omega
    rcases hcases with rfl | rfl
    · revert hsignature
      decide
    · revert hsignature
      decide

end Archives

end OtusCProg.ZipJpeg.Program
