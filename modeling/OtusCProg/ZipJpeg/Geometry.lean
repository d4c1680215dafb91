import OtusCProg.ZipJpeg.RoundTrip

/-!
# Where an accepted archive places its directory

`zip_read` computes the start of the directory and the offset of the archive by
subtractions that wrap, and compares neither with the input. An accepted archive
has the usual geometry exactly when the sizes that its end record claims fit in
front of the record, and the listed headers fit into the claimed size.
-/

namespace OtusCProg.ZipJpeg
open Library LittleEndian MachineInt

/-- The archive, the directory and the end record lie one behind the other. -/
structure Geometry (src : List UInt8) (r : Eocdr) (zip : Zip) (zfo : Nat) : Prop where
  begin_eq : zfo + r.cd_offset_field = zip.members_begin
  record_eq : zip.members_begin + r.cd_size = eocdr_at src r.comment_len
  end_le : zip.members_end ≤ eocdr_at src r.comment_len

/-- The bytes that the given number of headers claim, from the one at `offset` on. -/
def directory_length (src : List UInt8) : Nat → Nat → Nat
  | 0, _ => 0
  | n + 1, offset =>
      match cfh_fields src (offset + 4) with
      | .error _ => 0
      | .ok f =>
          let len := CFH_BASE_SZ + f.name_len + f.extra_len + f.comment_len
          len + directory_length src n (offset + len)

/-- The sizes that an end record claims fit in front of it, and the headers fit
into the claimed size. -/
structure Fits (src : List UInt8) (r : Eocdr) : Prop where
  record : r.cd_offset_field + r.cd_size + EOCDR_BASE_SZ + r.comment_len ≤ src.length
  headers : directory_length src r.cd_entries (eocdr_at src r.comment_len - r.cd_size) ≤ r.cd_size

variable {src : List UInt8} {zfo offset last : Nat}

/-- A walk is as long as its headers claim. -/
theorem Walk.length_eq {members : List (Cfh × Lfh)} (h : Walk src zfo offset members last) :
    last = offset + directory_length src members.length offset := by
  induction h with
  | nil => rfl
  | @cons offset last cfh lfh rest hok _ ih =>
      obtain ⟨f, _, hf, _, rfl⟩ := read_cfh_eq_ok.mp hok.cfh_ok
      have hnext : next_header offset (f.at offset zfo).toCfhFields =
          offset + (CFH_BASE_SZ + f.name_len + f.extra_len + f.comment_len) := by
        simp only [next_header, CfhFields.at]
        omega
      rw [hnext] at ih
      rw [ih, List.length_cons, directory_length, hf, Nat.add_assoc offset]

/-- What the search says about the record it finds. -/
theorem find_eocdr_spec {r : Eocdr} (h : find_eocdr src = .ok r) :
    EOCDR_BASE_SZ + r.comment_len ≤ src.length ∧ r.cd_size < 2 ^ 32 ∧
      r.cd_offset_field < 2 ^ 32 ∧
      r.cd_offset = toUnsigned 32 (src.length - r.cd_size - EOCDR_BASE_SZ - r.comment_len : Int) := by
  obtain ⟨k, f, _, _, _, hends, hf, rfl, rfl⟩ := find_eocdr_from_eq_ok.mp h
  obtain ⟨_, _, _, _, hsize, hfield, _⟩ := eocdr_fields_eq_ok.mp hf
  exact ⟨hends.fits, read32_lt hsize, read32_lt hfield, rfl⟩

/-- The start of the directory does not wrap exactly when the claimed size fits. -/
theorem begin_add_size_iff {len size tail : Nat} (hlen : len < 2 ^ 32) (hsize : size < 2 ^ 32)
    (htail : tail ≤ len) :
    toUnsigned 32 (len - size - tail : Int) + size = len - tail ↔ size ≤ len - tail := by
  have hrange : (len - size - tail : Int) % 2 ^ 32 =
      if size ≤ len - tail then (len - size - tail : Int) else len - size - tail + 2 ^ 32 := by
    split
    · rw [Int.emod_eq_of_lt (by omega) (by omega)]
    · rw [← Int.add_emod_right, Int.emod_eq_of_lt (by omega) (by omega)]
  unfold toUnsigned
  rw [hrange]
  split <;> omega

/-- The offset of the archive does not wrap exactly when all that lies behind it fits. -/
theorem archive_offset_iff {len behind : Nat} (hlen : len < 2 ^ 32) (hbehind : behind < 2 ^ 63) :
    (toUnsigned 64 (len - behind : Int) + behind = len) ↔ behind ≤ len := by
  have hrange : (len - behind : Int) % 2 ^ 64 =
      if behind ≤ len then (len - behind : Int) else len - behind + 2 ^ 64 := by
    split
    · rw [Int.emod_eq_of_lt (by omega) (by omega)]
    · rw [← Int.add_emod_right, Int.emod_eq_of_lt (by omega) (by omega)]
  unfold toUnsigned
  rw [hrange]
  split <;> omega

/-- An accepted archive shorter than `2 ^ 32` has the usual geometry if and only
if the sizes of its end record and its headers fit. -/
theorem zip_read_geometry_iff (src : List UInt8) (zip : Zip) (zfo : Nat)
    (h : zip_read src = .ok (zip, zfo)) (hlen : src.length < 2 ^ 32) :
    ∃ r, find_eocdr src = .ok r ∧ (Geometry src r zip zfo ↔ Fits src r) := by
  obtain ⟨r, members, hr, _, _, _, hzfo, hcount, hwalk, hzip⟩ := zip_read_eq_ok.mp h
  obtain ⟨htail, hsize, hfield, hbegin⟩ := find_eocdr_spec hr
  have hend := hwalk.length_eq
  have hmembers : zip.members_begin = r.cd_offset := by rw [hzip]
  have hat : eocdr_at src r.comment_len = src.length - (EOCDR_BASE_SZ + r.comment_len) := by
    unfold eocdr_at
    omega
  have hrecord : r.cd_offset + r.cd_size = eocdr_at src r.comment_len ↔
      r.cd_size ≤ eocdr_at src r.comment_len := by
    rw [hat, hbegin, ← begin_add_size_iff hlen hsize htail]
    have hsame : (src.length - r.cd_size - EOCDR_BASE_SZ - r.comment_len : Int) =
        src.length - r.cd_size - ((EOCDR_BASE_SZ + r.comment_len : Nat) : Int) := by
      push_cast
      ring
    rw [hsame]
  have hoffset : zfo + (r.cd_offset_field + r.cd_size + EOCDR_BASE_SZ + r.comment_len) = src.length ↔
      r.cd_offset_field + r.cd_size + EOCDR_BASE_SZ + r.comment_len ≤ src.length := by
    rw [← archive_offset_iff hlen (by omega), hzfo]
    push_cast
    rfl
  refine ⟨r, hr, ?_⟩
  constructor
  · rintro ⟨hstart, hplace, hlast⟩
    rw [hmembers] at hstart hplace
    have hfit := hrecord.mp hplace
    have hcd : r.cd_offset = eocdr_at src r.comment_len - r.cd_size := by omega
    constructor
    · apply hoffset.mp
      omega
    · rw [← hcd, ← hcount]
      omega
  · rintro ⟨hfits, hheaders⟩
    have hplace := hrecord.mpr (by omega)
    have hstart := hoffset.mpr hfits
    have hcd : r.cd_offset = eocdr_at src r.comment_len - r.cd_size := by omega
    rw [← hcd, ← hcount] at hheaders
    constructor
    · omega
    · omega
    · omega

/-- A stored file in an archive with a comment, behind two other bytes. -/
def behindTwoBytes : List UInt8 := [0xff, 0xd8] ++ encode [storedEntry] [111, 107]

/-- The directory lies where the end record says. -/
theorem zip_read_geometry_iff_behindTwoBytes :
    ∃ r, find_eocdr behindTwoBytes = .ok r ∧
      (Geometry behindTwoBytes r ⟨1, 113, 2, 41, 91⟩ 2 ↔ Fits behindTwoBytes r) ∧
        Fits behindTwoBytes r := by
  have h : zip_read behindTwoBytes = .ok (⟨1, 113, 2, 41, 91⟩, 2) := rfl
  obtain ⟨r, hr, hiff⟩ := zip_read_geometry_iff _ _ _ h (by decide)
  have hrecord : find_eocdr behindTwoBytes =
      .ok { disk_nbr := 0, cd_start_disk := 0, disk_cd_entries := 1, cd_entries := 1, cd_size := 50,
            cd_offset_field := 39, comment_len := 2, cd_offset := 41, comment := 113 } := rfl
  obtain rfl := Except.ok.inj (hr.symm.trans hrecord)
  exact ⟨_, hr, hiff, by decide, by decide⟩

/-- An end record alone, without entries, that claims a directory of one byte. -/
def emptyDirectory : List UInt8 :=
  [0x50, 0x4b, 5, 6, 0, 0, 0, 0, 0, 0, 0, 0, 1, 0, 0, 0, 0, 0, 0, 0, 0, 0]

/-- The claimed directory of one byte in front of the first byte is accepted. -/
theorem emptyDirectory_without_geometry :
    ¬∀ (src : List UInt8) (zip : Zip) (zfo : Nat) (r : Eocdr),
      zip_read src = .ok (zip, zfo) → find_eocdr src = .ok r → src.length < 2 ^ 32 →
        Geometry src r zip zfo := by
  intro hall
  have h : zip_read emptyDirectory =
      .ok (⟨0, 22, 0, 2 ^ 32 - 1, 2 ^ 32 - 1⟩, 2 ^ 64 - 1) := rfl
  have hr : find_eocdr emptyDirectory =
      .ok { disk_nbr := 0, cd_start_disk := 0, disk_cd_entries := 0, cd_entries := 0, cd_size := 1,
            cd_offset_field := 0, comment_len := 0, cd_offset := 2 ^ 32 - 1, comment := 22 } := rfl
  have hrecord := (hall _ _ _ _ h hr (by decide)).record_eq
  exact absurd hrecord (by decide)

end OtusCProg.ZipJpeg
