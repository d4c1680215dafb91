import OtusCProg.ZipJpeg.EndRecord

/-!
# Reading back a reference encoding

An archive is the local headers with name, extra and data, then the central
headers with the offsets of the local ones, then the end record. Every header
is read back at its offset, so the central directory is a walk that lists the
members that were encoded.
-/

namespace OtusCProg.ZipJpeg
open Library LittleEndian MachineInt

/-- A member to be encoded; the local and the central header have extra fields of their own. -/
structure Entry where
  made_by_ver : UInt16
  extract_ver : UInt16
  gp_flag : UInt16
  method : UInt16
  mod_time : UInt16
  mod_date : UInt16
  crc32 : UInt32
  uncomp_size : UInt32
  int_attrs : UInt16
  ext_attrs : UInt32
  name : List UInt8
  local_extra : List UInt8
  central_extra : List UInt8
  comment : List UInt8
  data : List UInt8
  not_encrypted : gp_flag.toNat &&& 1 = 0
  method_ok : method.toNat = ZIP_STORED ∨ method.toNat = ZIP_DEFLATED
  stored_size : method.toNat = ZIP_STORED → uncomp_size.toNat = data.length
  name_ok : 0 ∉ name
  name_len : name.length < 2 ^ 16
  local_extra_len : local_extra.length < 2 ^ 16
  central_extra_len : central_extra.length < 2 ^ 16
  comment_len : comment.length < 2 ^ 16

namespace Entry
variable (e : Entry)

/-- The fields of the local header behind the signature. -/
def local_fields : List UInt8 :=
  encode16 e.extract_ver.toNat ++ (encode16 e.gp_flag.toNat ++ (encode16 e.method.toNat ++
    (encode16 e.mod_time.toNat ++ (encode16 e.mod_date.toNat ++ (encode32 e.crc32.toNat ++
    (encode32 e.data.length ++ (encode32 e.uncomp_size.toNat ++ (encode16 e.name.length ++
    encode16 e.local_extra.length))))))))

/-- The local header with the data behind it. -/
def local_bytes : List UInt8 :=
  encode32 LFH_SIGNATURE ++ (e.local_fields ++ (e.name ++ (e.local_extra ++ e.data)))

/-- The fields of the central header behind the signature. -/
def central_fields (lfh_offset : Nat) : List UInt8 :=
  encode16 e.made_by_ver.toNat ++ (encode16 e.extract_ver.toNat ++ (encode16 e.gp_flag.toNat ++
    (encode16 e.method.toNat ++ (encode16 e.mod_time.toNat ++ (encode16 e.mod_date.toNat ++
    (encode32 e.crc32.toNat ++ (encode32 e.data.length ++ (encode32 e.uncomp_size.toNat ++
    (encode16 e.name.length ++ (encode16 e.central_extra.length ++ (encode16 e.comment.length ++
    (encode16 0 ++ (encode16 e.int_attrs.toNat ++ (encode32 e.ext_attrs.toNat ++
    encode32 lfh_offset))))))))))))))

/-- The central header. -/
def central_bytes (lfh_offset : Nat) : List UInt8 :=
  encode32 CFH_SIGNATURE ++ (e.central_fields lfh_offset ++ (e.name ++ (e.central_extra ++ e.comment)))

/-- What a listing of the member has to say. -/
def content : Content :=
  { name := e.name
    comp_data := e.data
    mtime := dos2ctime e.mod_date.toNat e.mod_time.toNat
    method := e.method.toNat
    comp_size := e.data.length
    uncomp_size := e.uncomp_size.toNat
    crc32 := e.crc32.toNat
    comment := e.comment
    is_dir := e.ext_attrs.toNat &&& EXT_ATTR_DIR ≠ 0 }

end Entry

/-- All local headers with their data. -/
def locals (entries : List Entry) : List UInt8 := entries.flatMap Entry.local_bytes

/-- All central headers, for local headers from `offset` on. -/
def centrals : Nat → List Entry → List UInt8
  | _, [] => []
  | offset, e :: rest => e.central_bytes offset ++ centrals (offset + e.local_bytes.length) rest

/-- The end record with the archive comment. -/
def end_record (count cd_size cd_offset : Nat) (comment : List UInt8) : List UInt8 :=
  encode32 EOCDR_SIGNATURE ++ (encode16 0 ++ (encode16 0 ++ (encode16 count ++ (encode16 count ++
    (encode32 cd_size ++ (encode32 cd_offset ++ (encode16 comment.length ++ comment)))))))

/-- The reference encoding of an archive. -/
def encode (entries : List Entry) (comment : List UInt8) : List UInt8 :=
  locals entries ++ (centrals 0 entries ++
    end_record entries.length (centrals 0 entries).length (locals entries).length comment)

section Headers
variable {src rest : List UInt8} {e : Entry} {offset p : Nat}

theorem length_local_fields (e : Entry) : e.local_fields.length = 26 := rfl

theorem length_central_fields (e : Entry) (offset : Nat) : (e.central_fields offset).length = 42 := rfl

/-- The local fields are read back. -/
theorem lfh_fields_local (h : src.drop p = e.local_fields ++ rest) (hdata : e.data.length < 2 ^ 32) :
    lfh_fields src p = .ok {
      extract_ver := e.extract_ver.toNat
      gp_flag := e.gp_flag.toNat
      method := e.method.toNat
      mod_time := e.mod_time.toNat
      mod_date := e.mod_date.toNat
      crc32 := e.crc32.toNat
      comp_size := e.data.length
      uncomp_size := e.uncomp_size.toNat
      name_len := e.name.length
      extra_len := e.local_extra.length } := by
  simp only [Entry.local_fields, List.append_assoc] at h
  obtain ⟨h0, h⟩ := read16_field h e.extract_ver.toNat_lt
  obtain ⟨h1, h⟩ := read16_field h e.gp_flag.toNat_lt
  obtain ⟨h2, h⟩ := read16_field h e.method.toNat_lt
  obtain ⟨h3, h⟩ := read16_field h e.mod_time.toNat_lt
  obtain ⟨h4, h⟩ := read16_field h e.mod_date.toNat_lt
  obtain ⟨h5, h⟩ := read32_field h e.crc32.toNat_lt
  obtain ⟨h6, h⟩ := read32_field h hdata
  obtain ⟨h7, h⟩ := read32_field h e.uncomp_size.toNat_lt
  obtain ⟨h8, h⟩ := read16_field h e.name_len
  obtain ⟨h9, _⟩ := read16_field h e.local_extra_len
  simp only [lfh_fields, bind_eq_ok, READ16_eq_ok, READ32_eq_ok]
  exact ⟨_, h0, _, h1, _, h2, _, h3, _, h4, _, h5, _, h6, _, h7, _, h8, _, h9, rfl⟩

/-- The fields that a central header is read back to. -/
def Entry.cfh_fields (e : Entry) (lfh_offset : Nat) : CfhFields :=
  { made_by_ver := e.made_by_ver.toNat
    extract_ver := e.extract_ver.toNat
    gp_flag := e.gp_flag.toNat
    method := e.method.toNat
    mod_time := e.mod_time.toNat
    mod_date := e.mod_date.toNat
    crc32 := e.crc32.toNat
    comp_size := e.data.length
    uncomp_size := e.uncomp_size.toNat
    name_len := e.name.length
    extra_len := e.central_extra.length
    comment_len := e.comment.length
    disk_nbr_start := 0
    int_attrs := e.int_attrs.toNat
    ext_attrs := e.ext_attrs.toNat
    lfh_offset_field := lfh_offset }

/-- The central fields are read back. -/
theorem cfh_fields_central (h : src.drop p = e.central_fields offset ++ rest)
    (hdata : e.data.length < 2 ^ 32) (hoffset : offset < 2 ^ 32) :
    cfh_fields src p = .ok (e.cfh_fields offset) := by
  simp only [Entry.central_fields, List.append_assoc] at h
  obtain ⟨h0, h⟩ := read16_field h e.made_by_ver.toNat_lt
  obtain ⟨h1, h⟩ := read16_field h e.extract_ver.toNat_lt
  obtain ⟨h2, h⟩ := read16_field h e.gp_flag.toNat_lt
  obtain ⟨h3, h⟩ := read16_field h e.method.toNat_lt
  obtain ⟨h4, h⟩ := read16_field h e.mod_time.toNat_lt
  obtain ⟨h5, h⟩ := read16_field h e.mod_date.toNat_lt
  obtain ⟨h6, h⟩ := read32_field h e.crc32.toNat_lt
  obtain ⟨h7, h⟩ := read32_field h hdata
  obtain ⟨h8, h⟩ := read32_field h e.uncomp_size.toNat_lt
  obtain ⟨h9, h⟩ := read16_field h e.name_len
  obtain ⟨h10, h⟩ := read16_field h e.central_extra_len
  obtain ⟨h11, h⟩ := read16_field h e.comment_len
  obtain ⟨h12, h⟩ := read16_field h (show (0 : Nat) < 2 ^ 16 by norm_num)
  obtain ⟨h13, h⟩ := read16_field h e.int_attrs.toNat_lt
  obtain ⟨h14, h⟩ := read32_field h e.ext_attrs.toNat_lt
  obtain ⟨h15, _⟩ := read32_field h hoffset
  simp only [cfh_fields, bind_eq_ok, READ16_eq_ok, READ32_eq_ok]
  exact ⟨_, h0, _, h1, _, h2, _, h3, _, h4, _, h5, _, h6, _, h7, _, h8, _, h9, _, h10, _, h11, _, h12,
    _, h13, _, h14, _, h15, rfl⟩

theorem length_local_bytes (e : Entry) :
    e.local_bytes.length = LFH_BASE_SZ + e.name.length + e.local_extra.length + e.data.length := by
  simp only [Entry.local_bytes, List.length_append, length_encode32, length_local_fields, LFH_BASE_SZ]
  omega

theorem length_central_bytes (e : Entry) (offset : Nat) : (e.central_bytes offset).length =
    CFH_BASE_SZ + e.name.length + e.central_extra.length + e.comment.length := by
  simp only [Entry.central_bytes, List.length_append, length_encode32, length_central_fields,
    CFH_BASE_SZ]
  omega

/-- A part that is not empty lies inside the string. -/
theorem add_length_le {bytes : List UInt8} (h : src.drop p = bytes ++ rest) (hpos : 0 < bytes.length) :
    p + bytes.length ≤ src.length := by
  have hlen := congrArg List.length h
  rw [List.length_drop, List.length_append] at hlen
  omega

/-- A central header is read back, and its name and comment are where it says. -/
theorem read_cfh_central (h : src.drop p = e.central_bytes offset ++ rest)
    (hdata : e.data.length < 2 ^ 32) (hoffset : offset < 2 ^ 32) :
    read_cfh src p 0 = .ok ((e.cfh_fields offset).at p 0) ∧
      slice src (p + CFH_BASE_SZ) e.name.length = e.name ∧
      slice src (p + CFH_BASE_SZ + e.name.length + e.central_extra.length) e.comment.length = e.comment := by
  have hlength := length_central_bytes e offset
  have hinside := add_length_le h (by rw [hlength, CFH_BASE_SZ]; omega)
  rw [Entry.central_bytes] at h
  simp only [List.append_assoc] at h
  obtain ⟨hsig, h⟩ := read32_field h (by decide)
  have hfields := cfh_fields_central h hdata hoffset
  obtain ⟨_, h⟩ := slice_field h
  obtain ⟨hname, h⟩ := slice_field h
  obtain ⟨_, h⟩ := slice_field h
  obtain ⟨hcomment, _⟩ := slice_field h
  rw [length_central_fields] at hname hcomment
  refine ⟨read_cfh_eq_ok.mpr ⟨_, hsig, hfields, ?_, rfl⟩, hname, hcomment⟩
  rw [hlength] at hinside
  simp only [next_header, Entry.cfh_fields]
  omega

/-- A local header is read back, and the data is behind it. -/
theorem read_lfh_local (h : src.drop p = e.local_bytes ++ rest) (hdata : e.data.length < 2 ^ 32) :
    ∃ lfh, read_lfh src p = .ok lfh ∧
      lfh.extra + lfh.extra_len + e.data.length ≤ src.length ∧
      slice src (lfh.extra + lfh.extra_len) e.data.length = e.data := by
  have hlength := length_local_bytes e
  have hinside := add_length_le h (by rw [hlength, LFH_BASE_SZ]; omega)
  rw [Entry.local_bytes] at h
  simp only [List.append_assoc] at h
  obtain ⟨hsig, h⟩ := read32_field h (by decide)
  have hfields := lfh_fields_local h hdata
  obtain ⟨_, h⟩ := slice_field h
  obtain ⟨_, h⟩ := slice_field h
  obtain ⟨_, h⟩ := slice_field h
  obtain ⟨hbytes, _⟩ := slice_field h
  rw [length_local_fields] at hbytes
  rw [hlength] at hinside
  refine ⟨_, read_lfh_eq_ok.mpr ⟨_, hsig, hfields, ?_, rfl⟩, ?_, hbytes⟩
  · show p + LFH_BASE_SZ + e.name.length + e.local_extra.length ≤ src.length
    omega
  · show p + LFH_BASE_SZ + e.name.length + e.local_extra.length + e.data.length ≤ src.length
    omega

/-- An encoded member is accepted and says what was encoded. -/
theorem memberOk_encoded {rest' : List UInt8} (hlocal : src.drop offset = e.local_bytes ++ rest)
    (hcentral : src.drop p = e.central_bytes offset ++ rest') (hlen : src.length < 2 ^ 32) :
    ∃ lfh, MemberOk src 0 p ((e.cfh_fields offset).at p 0) lfh ∧
      (member_of p ((e.cfh_fields offset).at p 0) lfh).content src = e.content := by
  have hl := length_local_bytes e
  have hin := add_length_le hlocal (by rw [hl, LFH_BASE_SZ]; omega)
  have hdata : e.data.length < 2 ^ 32 := by omega
  have hoffset : offset < 2 ^ 32 := by omega
  obtain ⟨hcfh, hname, hcomment⟩ := read_cfh_central hcentral hdata hoffset
  obtain ⟨lfh, hlfh, hfits, hbytes⟩ := read_lfh_local hlocal hdata
  have hat : ((e.cfh_fields offset).at p 0).lfh_offset = offset := Nat.mod_eq_of_lt hoffset
  refine ⟨lfh, ⟨hcfh, e.not_encrypted, e.method_ok, e.stored_size, rfl, ?_, ?_, ?_, ?_⟩, ?_⟩
  · have hinside := read_cfh_inside hcfh
    simp only [next_header, Entry.cfh_fields, CfhFields.at] at hinside ⊢
    omega
  · show 0 ∉ slice src (p + CFH_BASE_SZ) e.name.length
    rw [hname]
    exact e.name_ok
  · rw [hat]
    exact hlfh
  · show e.data.length ≤ _
    omega
  · simp only [Member.content, member_of, Entry.cfh_fields, CfhFields.at, hname, hcomment, hbytes]
    rfl

/-- The encoded members form a walk that lists them. -/
theorem walk_encoded {entries : List Entry} {rest' : List UInt8}
    (hlocals : src.drop offset = locals entries ++ rest)
    (hcentrals : src.drop p = centrals offset entries ++ rest') (hlen : src.length < 2 ^ 32) :
    ∃ members, members.length = entries.length ∧
      Walk src 0 p members (p + (centrals offset entries).length) ∧
      (listed p members).map (Member.content src) = entries.map Entry.content := by
  induction entries generalizing offset p with
  | nil => exact ⟨[], rfl, .nil p, rfl⟩
  | cons e entries ih =>
      rw [locals, List.flatMap_cons, List.append_assoc] at hlocals
      rw [centrals, List.append_assoc] at hcentrals
      obtain ⟨lfh, hok, hcontent⟩ := memberOk_encoded hlocals hcentrals hlen
      have hnext : next_header p ((e.cfh_fields offset).at p 0).toCfhFields =
          p + (e.central_bytes offset).length := by
        rw [length_central_bytes]
        simp only [next_header, Entry.cfh_fields, CfhFields.at]
        omega
      obtain ⟨members, hcount, hwalk, hlisted⟩ :=
        ih (slice_field hlocals).2 (slice_field hcentrals).2
      refine ⟨_ :: members, congrArg (· + 1) hcount, .cons hok ?_, ?_⟩
      · rw [hnext, centrals, List.length_append, ← Nat.add_assoc]
        exact hwalk
      · rw [listed, List.map_cons, List.map_cons, hcontent, hnext, hlisted]

end Headers

section RoundTrip
variable {src entries_bytes : List UInt8} {entries : List Entry} {comment : List UInt8}

/-- The end record of an encoding is found. -/
theorem find_eocdr_encoded {front : List UInt8} {count cd_size cd_offset : Nat}
    (hsrc : src = front ++ end_record count cd_size cd_offset comment)
    (hcount : count < 2 ^ 16) (hsize : cd_size < 2 ^ 32) (hoffset : cd_offset < 2 ^ 32)
    (hcomment : comment.length < 2 ^ 16) (hfirst : ∀ k < comment.length, ¬EndsWith src k) :
    find_eocdr src = .ok (EocdrFields.at {
      disk_nbr := 0
      cd_start_disk := 0
      disk_cd_entries := count
      cd_entries := count
      cd_size := cd_size
      cd_offset_field := cd_offset
      comment_len := comment.length } src) := by
  have hlen : src.length = front.length + (EOCDR_BASE_SZ + comment.length) := by
    rw [hsrc, List.length_append]
    simp only [end_record, List.length_append, length_encode32, length_encode16, EOCDR_BASE_SZ]
    omega
  have hat : eocdr_at src comment.length = front.length := by
    unfold eocdr_at
    omega
  have h : src.drop (eocdr_at src comment.length) = end_record count cd_size cd_offset comment := by
    rw [hat, hsrc, List.drop_left]
  rw [end_record] at h
  obtain ⟨hsig, h⟩ := read32_field h (by decide)
  obtain ⟨h0, h⟩ := read16_field h (by norm_num)
  obtain ⟨h1, h⟩ := read16_field h (by norm_num)
  obtain ⟨h2, h⟩ := read16_field h hcount
  obtain ⟨h3, h⟩ := read16_field h hcount
  obtain ⟨h4, h⟩ := read32_field h hsize
  obtain ⟨h5, h⟩ := read32_field h hoffset
  obtain ⟨h6, _⟩ := read16_field h hcomment
  refine find_eocdr_from_eq_ok.mpr ⟨comment.length, _, Nat.zero_le _, by omega,
    fun i _ hi => hfirst i hi, ⟨by omega, hsig, h6⟩,
    eocdr_fields_eq_ok.mpr ⟨h0, h1, h2, h3, h4, h5, h6⟩, rfl, rfl⟩

theorem length_end_record (count cd_size cd_offset : Nat) (comment : List UInt8) :
    (end_record count cd_size cd_offset comment).length = EOCDR_BASE_SZ + comment.length := by
  simp only [end_record, List.length_append, length_encode32, length_encode16, EOCDR_BASE_SZ]
  omega

/-- A reference encoding whose comment hides no end record is accepted without an offset, and
the listing is exactly the members that were encoded. -/
theorem round_trip (entries : List Entry) (comment : List UInt8) (hcount : entries.length < 2 ^ 16)
    (hcomment : comment.length < 2 ^ 16) (hlen : (encode entries comment).length < 2 ^ 32)
    (hfirst : ∀ k < comment.length, ¬EndsWith (encode entries comment) k) :
    ∃ zip members, zip_read (encode entries comment) = .ok (zip, 0) ∧
      list_zip (encode entries comment) zip 0 = .ok members ∧
      members.map (Member.content (encode entries comment)) = entries.map Entry.content := by
  obtain ⟨src, hsrc⟩ : ∃ src, src = encode entries comment := ⟨_, rfl⟩
  rw [← hsrc] at hlen hfirst ⊢
  have hparts : src.length = (locals entries).length + ((centrals 0 entries).length +
      (EOCDR_BASE_SZ + comment.length)) := by
    rw [hsrc, encode, List.length_append, List.length_append, length_end_record]
  have hfront : src = (locals entries ++ centrals 0 entries) ++
      end_record entries.length (centrals 0 entries).length (locals entries).length comment := by
    rw [hsrc, encode, List.append_assoc]
  have hfound := find_eocdr_encoded hfront hcount (by omega) (by omega) hcomment hfirst
  have hlocals : src.drop 0 = locals entries ++ (centrals 0 entries ++
      end_record entries.length (centrals 0 entries).length (locals entries).length comment) := hsrc
  obtain ⟨members, hmembers, hwalk, hlisted⟩ := walk_encoded hlocals (slice_field hlocals).2 hlen
  have hoffset : toUnsigned 32 (src.length - (centrals 0 entries).length - EOCDR_BASE_SZ -
      comment.length : Int) = (locals entries).length := by
    unfold toUnsigned
    omega
  rw [Nat.zero_add] at hwalk hlisted
  refine ⟨⟨entries.length, eocdr_at src comment.length + EOCDR_BASE_SZ, comment.length,
      (locals entries).length, (locals entries).length + (centrals 0 entries).length⟩, _, ?_,
    list_zip_of_walk hwalk, hlisted⟩
  · refine zip_read_eq_ok.mpr ⟨_, members, hfound, rfl, rfl, rfl, ?_, hmembers, ?_, ?_⟩
    · simp only [EocdrFields.at]
      unfold toUnsigned
      omega
    · simp only [EocdrFields.at, hoffset]
      exact hwalk
    · simp only [EocdrFields.at, hoffset]

/-- A stored text file. -/
def storedEntry : Entry :=
  { made_by_ver := 20, extract_ver := 10, gp_flag := 0, method := 0, mod_time := 0x6000,
    mod_date := 0x5821, crc32 := 0xd8932aac, uncomp_size := 2, int_attrs := 1, ext_attrs := 32
    name := [97, 46, 116], local_extra := [1, 0, 0, 0], central_extra := [], comment := [99]
    data := [104, 105]
    not_encrypted := rfl, method_ok := Or.inl rfl, stored_size := fun _ => rfl, name_ok := by decide
    name_len := by decide, local_extra_len := by decide, central_extra_len := by decide
    comment_len := by decide }

theorem round_trip_storedEntry :
    ∃ zip members, zip_read (encode [storedEntry] [111, 107]) = .ok (zip, 0) ∧
      list_zip (encode [storedEntry] [111, 107]) zip 0 = .ok members ∧
      members.map (Member.content (encode [storedEntry] [111, 107])) = [storedEntry.content] := by
  refine round_trip [storedEntry] [111, 107] (by decide) (by decide) (by decide) ?_
  intro k hk h
  have hsignature := h.signature
  have hcases : k = 0 ∨ k = 1 := by
    simp only [List.length_cons, List.length_nil] at hk
    omega
  rcases hcases with rfl | rfl
  · revert hsignature
    decide
  · revert hsignature
    decide

end RoundTrip

end OtusCProg.ZipJpeg
