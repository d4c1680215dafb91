import OtusCProg.ZipJpeg.RoundTrip

/-!
# A prefix in front of the archive does not matter

With other bytes in front, every read that succeeded gives the same value at
the shifted offset. The offsets the parser computes modulo a power of two are
then shifted as well, because they were accepted and so lie inside the input.
-/

namespace OtusCProg.ZipJpeg
open Library LittleEndian MachineInt

section Fields
variable (pre src : List UInt8) (p : Nat)

@[simp] theorem READ16_front : READ16 (pre ++ src) (pre.length + p) = READ16 src p := by
  rw [READ16, READ16, read16_front]

@[simp] theorem READ32_front : READ32 (pre ++ src) (pre.length + p) = READ32 src p := by
  rw [READ32, READ32, read32_front]

theorem cfh_fields_front : cfh_fields (pre ++ src) (pre.length + p) = cfh_fields src p := by
  simp only [cfh_fields, Nat.add_assoc, READ16_front, READ32_front]

theorem lfh_fields_front : lfh_fields (pre ++ src) (pre.length + p) = lfh_fields src p := by
  simp only [lfh_fields, Nat.add_assoc, READ16_front, READ32_front]

theorem eocdr_fields_front : eocdr_fields (pre ++ src) (pre.length + p) = eocdr_fields src p := by
  simp only [eocdr_fields, Nat.add_assoc, READ16_front, READ32_front]

end Fields

/-- The central header `n` bytes further back, with its member. -/
def Cfh.shift (n : Nat) (cfh : Cfh) : Cfh :=
  { cfh with
    lfh_offset := n + cfh.lfh_offset
    name := n + cfh.name
    extra := n + cfh.extra
    comment := n + cfh.comment }

/-- The local header `n` bytes further back. -/
def Lfh.shift (n : Nat) (lfh : Lfh) : Lfh :=
  { lfh with name := n + lfh.name, extra := n + lfh.extra }

variable {pre src : List UInt8} {zfo zfo' offset last : Nat} {cfh : Cfh} {lfh : Lfh}

theorem next_header_front (n : Nat) (f : CfhFields) :
    next_header (n + offset) f = n + next_header offset f := by
  simp only [next_header, Nat.add_assoc]

/-- The local header offset is shifted by exactly the prefix as long as it does not wrap. -/
theorem lfh_offset_front {field : Nat} (hzfo : zfo' = (zfo + pre.length) % 2 ^ 64)
    (hlt : pre.length + (field + zfo) % 2 ^ 32 < 2 ^ 32) :
    (field + zfo') % 2 ^ 32 = pre.length + (field + zfo) % 2 ^ 32 := by
  omega

theorem read_cfh_front (h : read_cfh src offset zfo = .ok cfh)
    (hzfo : zfo' = (zfo + pre.length) % 2 ^ 64) (hlt : pre.length + cfh.lfh_offset < 2 ^ 32) :
    read_cfh (pre ++ src) (pre.length + offset) zfo' = .ok (cfh.shift pre.length) := by
  obtain ⟨f, hsig, hf, hinside, rfl⟩ := read_cfh_eq_ok.mp h
  have hlfh : (f.lfh_offset_field + zfo') % 2 ^ 32 =
      pre.length + (f.lfh_offset_field + zfo) % 2 ^ 32 := lfh_offset_front hzfo hlt
  refine read_cfh_eq_ok.mpr ⟨f, ?_, ?_, ?_, ?_⟩
  · rw [read32_front, hsig]
  · rw [Nat.add_assoc, cfh_fields_front, hf]
  · rw [next_header_front, List.length_append]
    omega
  · simp only [Cfh.shift, CfhFields.at, hlfh, Nat.add_assoc]

theorem read_lfh_front (h : read_lfh src offset = .ok lfh) :
    read_lfh (pre ++ src) (pre.length + offset) = .ok (lfh.shift pre.length) := by
  obtain ⟨f, hsig, hf, hinside, rfl⟩ := read_lfh_eq_ok.mp h
  refine read_lfh_eq_ok.mpr ⟨f, ?_, ?_, ?_, ?_⟩
  · rw [read32_front, hsig]
  · rw [Nat.add_assoc, lfh_fields_front, hf]
  · rw [List.length_append]
    omega
  · simp only [Lfh.shift, LfhFields.at, Nat.add_assoc]

/-- An accepted local header starts inside the input. -/
theorem read_lfh_le (h : read_lfh src offset = .ok lfh) : offset ≤ src.length := by
  obtain ⟨f, _, _, hinside, _⟩ := read_lfh_eq_ok.mp h
  omega

theorem MemberOk.shift (h : MemberOk src zfo offset cfh lfh)
    (hzfo : zfo' = (zfo + pre.length) % 2 ^ 64) (hlen : pre.length + src.length < 2 ^ 32) :
    MemberOk (pre ++ src) zfo' (pre.length + offset) (cfh.shift pre.length)
      (lfh.shift pre.length) := by
  have hle := read_lfh_le h.lfh_ok
  constructor
  · exact read_cfh_front h.cfh_ok hzfo (by omega)
  · exact h.not_encrypted
  · exact h.method_ok
  · exact h.stored_size
  · exact h.disk_ok
  · have hname := h.name_inside
    show pre.length + cfh.name + cfh.name_len ≤ _
    rw [List.length_append]
    omega
  · show 0 ∉ slice (pre ++ src) (pre.length + cfh.name) cfh.name_len
    rw [slice_front]
    exact h.name_ok
  · exact read_lfh_front h.lfh_ok
  · have hdata := h.data_ok
    show cfh.comp_size ≤ _ - (pre.length + lfh.extra + lfh.extra_len)
    rw [List.length_append]
    omega

/-- A walk behind a prefix. -/
theorem Walk.shift {members : List (Cfh × Lfh)} (h : Walk src zfo offset members last)
    (hzfo : zfo' = (zfo + pre.length) % 2 ^ 64) (hlen : pre.length + src.length < 2 ^ 32) :
    Walk (pre ++ src) zfo' (pre.length + offset)
      (members.map fun m => (m.1.shift pre.length, m.2.shift pre.length))
      (pre.length + last) := by
  induction h with
  | nil offset => exact .nil _
  | @cons offset last cfh lfh rest hok _ ih =>
      refine .cons (hok.shift hzfo hlen) ?_
      rw [← next_header_front] at ih
      exact ih

/-- What the shifted members say is the same. -/
theorem listed_front (pre src : List UInt8) (it it' : Nat) (members : List (Cfh × Lfh)) :
    (listed it' (members.map fun m => (m.1.shift pre.length, m.2.shift pre.length))).map
        (Member.content (pre ++ src)) =
      (listed it members).map (Member.content src) := by
  induction members generalizing it it' with
  | nil => rfl
  | cons member rest ih =>
      obtain ⟨cfh, lfh⟩ := member
      simp only [List.map_cons, listed, List.cons.injEq]
      refine ⟨?_, ih _ _⟩
      simp only [Member.content, member_of, Cfh.shift, Lfh.shift, Nat.add_assoc, slice_front]
      rfl

section EndRecord

theorem endsWith_front {k : Nat} (hfits : EOCDR_BASE_SZ + k ≤ src.length) :
    eocdr_at (pre ++ src) k = pre.length + eocdr_at src k ∧
      (EndsWith (pre ++ src) k ↔ EndsWith src k) := by
  have hat : eocdr_at (pre ++ src) k = pre.length + eocdr_at src k := by
    unfold eocdr_at
    rw [List.length_append]
    omega
  have hfits' : EOCDR_BASE_SZ + k ≤ (pre ++ src).length := by
    rw [List.length_append]
    omega
  refine ⟨hat, fun h => ?_, fun h => ?_⟩
  · have hsignature := h.signature
    have hcarried := h.carried
    rw [hat, read32_front] at hsignature
    rw [hat, Nat.add_assoc, read16_front] at hcarried
    exact ⟨hfits, hsignature, hcarried⟩
  · refine ⟨hfits', ?_, ?_⟩
    · rw [hat, read32_front, h.signature]
    · rw [hat, Nat.add_assoc, read16_front, h.carried]

/-- The same end record is found behind a prefix. -/
theorem find_eocdr_front (pre : List UInt8) {r : Eocdr} (h : find_eocdr src = .ok r) :
    ∃ f : EocdrFields, r = f.at src ∧ find_eocdr (pre ++ src) = .ok (f.at (pre ++ src)) := by
  obtain ⟨k, f, hlow, hhigh, hfirst, hends, hf, hcomment, rfl⟩ := find_eocdr_from_eq_ok.mp h
  have hfits := hends.fits
  refine ⟨f, rfl, find_eocdr_from_eq_ok.mpr ⟨k, f, hlow, hhigh, fun i hi hik => ?_, ?_, ?_, hcomment,
    rfl⟩⟩
  · rw [(endsWith_front (by omega)).2]
    exact hfirst i hi hik
  · exact (endsWith_front hfits).2.mpr hends
  · rw [(endsWith_front hfits).1, Nat.add_assoc, eocdr_fields_front]
    exact hf

/-- An offset that was accepted is shifted by exactly the prefix. -/
theorem toUnsigned_front {n : Nat} {x : Int} (h : n + toUnsigned 32 x < 2 ^ 32) :
    toUnsigned 32 (n + x) = n + toUnsigned 32 x := by
  unfold toUnsigned at *
  omega

theorem toUnsigned64_front (n : Nat) (x : Int) :
    toUnsigned 64 (n + x) = (toUnsigned 64 x + n) % 2 ^ 64 := by
  unfold toUnsigned
  omega

end EndRecord

/-- Bytes in front of an accepted archive: it is accepted, with `zip_file_offset` shifted by
their number, and the members listed are the same. -/
theorem prefix_transparent {zip : Zip} (h : zip_read src = .ok (zip, zfo))
    (hlen : pre.length + src.length < 2 ^ 32) :
    ∃ zip' members members',
      zip_read (pre ++ src) = .ok (zip', (zfo + pre.length) % 2 ^ 64) ∧
      list_zip src zip zfo = .ok members ∧
      list_zip (pre ++ src) zip' ((zfo + pre.length) % 2 ^ 64) = .ok members' ∧
      members'.length = members.length ∧
      members'.map (Member.content (pre ++ src)) = members.map (Member.content src) := by
  obtain ⟨r, members, hr, hdisk, hstart, hentries, hzfo, hcount, hwalk, hzip⟩ := zip_read_eq_ok.mp h
  obtain ⟨f, rfl, hr'⟩ := find_eocdr_front pre hr
  have hbegin : zip.members_begin = (f.at src).cd_offset := by rw [hzip]
  have hlist : list_zip src zip zfo = .ok (listed zip.members_begin members) :=
    list_zip_of_walk (by rw [hbegin]; exact hwalk)
  have hzfo' : (zfo + pre.length) % 2 ^ 64 = toUnsigned 64 ((pre ++ src).length -
      (f.cd_offset_field + f.cd_size + EOCDR_BASE_SZ + f.comment_len) : Int) := by
    rw [hzfo, ← toUnsigned64_front, List.length_append]
    congr 1
    simp only [EocdrFields.at]
    push_cast
    ring
  obtain ⟨last', hwalk'⟩ : ∃ last', Walk (pre ++ src) ((zfo + pre.length) % 2 ^ 64)
      (f.at (pre ++ src)).cd_offset
      (members.map fun m => (m.1.shift pre.length, m.2.shift pre.length)) last' := by
    by_cases hnone : members = []
    · rw [hnone]
      exact ⟨_, .nil _⟩
    · have hle := hwalk.le
      have hinside := hwalk.le_length hnone
      have hshift : (f.at (pre ++ src)).cd_offset = pre.length + (f.at src).cd_offset := by
        have hlt : pre.length + (f.at src).cd_offset < 2 ^ 32 := by omega
        simp only [EocdrFields.at] at hlt ⊢
        rw [← toUnsigned_front hlt, List.length_append]
        congr 1
        push_cast
        ring
      rw [hshift]
      exact ⟨_, hwalk.shift rfl hlen⟩
  refine ⟨⟨f.cd_entries, (f.at (pre ++ src)).comment, f.comment_len, (f.at (pre ++ src)).cd_offset,
    last'⟩, _, _, ?_, hlist, list_zip_of_walk hwalk', ?_, listed_front pre src _ _ _⟩
  · refine zip_read_eq_ok.mpr ⟨f.at (pre ++ src), _, hr', hdisk, hstart, hentries, hzfo', ?_, hwalk',
      rfl⟩
    rw [List.length_map]
    exact hcount
  · have hcontent := congrArg List.length (listed_front pre src
      zip.members_begin (f.at (pre ++ src)).cd_offset members)
    rwa [List.length_map, List.length_map] at hcontent

theorem prefix_transparent_storedEntry :
    ∃ zip' members members',
      zip_read ([0xff, 0xd8] ++ encode [storedEntry] []) = .ok (zip', 2) ∧
      list_zip (encode [storedEntry] []) ⟨1, 111, 0, 39, 89⟩ 0 = .ok members ∧
      list_zip ([0xff, 0xd8] ++ encode [storedEntry] []) zip' 2 = .ok members' ∧
      members'.length = members.length ∧
      members'.map (Member.content ([0xff, 0xd8] ++ encode [storedEntry] [])) =
        members.map (Member.content (encode [storedEntry] [])) := by
  have h : zip_read (encode [storedEntry] []) = .ok (⟨1, 111, 0, 39, 89⟩, 0) := rfl
  have hlen : ([0xff, 0xd8] : List UInt8).length + (encode [storedEntry] []).length < 2 ^ 32 := by
    decide
  exact prefix_transparent h hlen

end OtusCProg.ZipJpeg
