import OtusCProg.ZipJpeg.Model
import OtusCProg.Library.Outcome

/-!
# Accepted archives as walks over the central directory

`MemberOk` is what one turn of the loop of `zip_read` checks. A walk is a
sequence of accepted members, and the loops of `zip_read` and of `list_zip`
both follow it.
-/

namespace OtusCProg.ZipJpeg
open Library LittleEndian

variable {src : List UInt8} {zfo offset last it : Nat}

theorem READ16_eq_ok {p n : Nat} : READ16 src p = .ok n ↔ read16 src p = some n := by
  unfold READ16
  cases read16 src p <;> simp

theorem READ32_eq_ok {p n : Nat} : READ32 src p = .ok n ↔ read32 src p = some n := by
  unfold READ32
  cases read32 src p <;> simp

/-- What one turn of the loop of `zip_read` accepts. -/
structure MemberOk (src : List UInt8) (zfo offset : Nat) (cfh : Cfh) (lfh : Lfh) : Prop where
  cfh_ok : read_cfh src offset zfo = .ok cfh
  not_encrypted : cfh.gp_flag &&& 1 = 0
  method_ok : cfh.method = ZIP_STORED ∨ cfh.method = ZIP_DEFLATED
  stored_size : cfh.method = ZIP_STORED → cfh.uncomp_size = cfh.comp_size
  disk_ok : cfh.disk_nbr_start = 0
  name_inside : cfh.name + cfh.name_len ≤ src.length
  name_ok : 0 ∉ slice src cfh.name cfh.name_len
  lfh_ok : read_lfh src cfh.lfh_offset = .ok lfh
  data_ok : cfh.comp_size ≤ src.length - (lfh.extra + lfh.extra_len)

theorem check_member_eq_ok {next : Nat} : check_member src zfo offset = .ok next ↔
    ∃ cfh lfh, MemberOk src zfo offset cfh lfh ∧ next = next_header offset cfh.toCfhFields := by
  constructor
  · intro h
    unfold check_member at h
    obtain ⟨cfh, hcfh, h⟩ := bind_eq_ok.mp h
    simp only [ite_error_eq_ok] at h
    obtain ⟨hencrypted, hmethod, hstored, hdisk, h⟩ := h
    obtain ⟨name, hname, h⟩ := bind_eq_ok.mp h
    unfold bytes_at at hname
    split at hname
    · rename_i hinside
      obtain rfl := Except.ok.inj hname
      obtain ⟨hnul, h⟩ := ite_error_eq_ok.mp h
      obtain ⟨lfh, hlfh, h⟩ := bind_eq_ok.mp h
      obtain ⟨hdata, h⟩ := ite_error_eq_ok.mp h
      refine ⟨cfh, lfh, ⟨hcfh, not_not.mp hencrypted, ?_, ?_, not_not.mp hdisk, hinside, hnul, hlfh,
        Nat.le_of_not_lt hdata⟩, (Except.ok.inj h).symm⟩
      · rwa [← not_or, not_not] at hmethod
      · exact fun hzero => not_not.mp fun hne => hstored ⟨hzero, hne⟩
    · cases hname
  · rintro ⟨cfh, lfh, h, rfl⟩
    unfold check_member
    refine bind_eq_ok.mpr ⟨cfh, h.cfh_ok, ?_⟩
    simp only [ite_error_eq_ok]
    refine ⟨not_not.mpr h.not_encrypted, ?_, fun hstored => hstored.2 (h.stored_size hstored.1),
      not_not.mpr h.disk_ok, ?_⟩
    · rintro ⟨hne, hne'⟩
      exact h.method_ok.elim hne hne'
    · refine bind_eq_ok.mpr ⟨_, if_pos h.name_inside, ?_⟩
      refine ite_error_eq_ok.mpr ⟨h.name_ok, bind_eq_ok.mpr ⟨lfh, h.lfh_ok, ?_⟩⟩
      exact ite_error_eq_ok.mpr ⟨Nat.not_lt.mpr h.data_ok, rfl⟩

/-- Members accepted one behind the other, from `offset` to the end `last`. -/
inductive Walk (src : List UInt8) (zfo : Nat) : Nat → List (Cfh × Lfh) → Nat → Prop where
  | nil (offset : Nat) : Walk src zfo offset [] offset
  | cons {offset last : Nat} {cfh : Cfh} {lfh : Lfh} {rest : List (Cfh × Lfh)} :
      MemberOk src zfo offset cfh lfh →
      Walk src zfo (next_header offset cfh.toCfhFields) rest last →
      Walk src zfo offset ((cfh, lfh) :: rest) last

theorem check_members_eq_ok {n : Nat} : check_members src zfo n offset = .ok last ↔
    ∃ members, members.length = n ∧ Walk src zfo offset members last := by
  induction n generalizing offset with
  | zero =>
      constructor
      · intro h
        obtain rfl := Except.ok.inj h
        exact ⟨[], rfl, .nil _⟩
      · rintro ⟨members, hlen, hwalk⟩
        obtain rfl := List.length_eq_zero_iff.mp hlen
        cases hwalk
        rfl
  | succ n ih =>
      rw [check_members, bind_eq_ok]
      constructor
      · rintro ⟨next, hnext, hrest⟩
        obtain ⟨cfh, lfh, hok, rfl⟩ := check_member_eq_ok.mp hnext
        obtain ⟨members, hlen, hwalk⟩ := ih.mp hrest
        exact ⟨(cfh, lfh) :: members, congrArg (· + 1) hlen, .cons hok hwalk⟩
      · rintro ⟨members, hlen, hwalk⟩
        cases hwalk with
        | nil => cases hlen
        | cons hok hwalk =>
            exact ⟨_, check_member_eq_ok.mpr ⟨_, _, hok, rfl⟩,
              ih.mpr ⟨_, Nat.succ.inj hlen, hwalk⟩⟩

/-- When `read_cfh` succeeds. -/
theorem read_cfh_eq_ok {cfh : Cfh} : read_cfh src offset zfo = .ok cfh ↔
    ∃ f, read32 src offset = some CFH_SIGNATURE ∧ cfh_fields src (offset + 4) = .ok f ∧
      next_header offset f ≤ src.length ∧ cfh = f.at offset zfo := by
  constructor
  · intro h
    unfold read_cfh at h
    obtain ⟨hguard, h⟩ := ite_error_eq_ok.mp h
    obtain ⟨signature, hsig, h⟩ := bind_eq_ok.mp h
    obtain ⟨hsignature, h⟩ := ite_error_eq_ok.mp h
    obtain ⟨f, hf, h⟩ := bind_eq_ok.mp h
    obtain ⟨hlen, h⟩ := ite_error_eq_ok.mp h
    rw [not_or] at hguard
    rw [not_not.mp hsignature] at hsig
    refine ⟨f, READ32_eq_ok.mp hsig, hf, ?_, (Except.ok.inj h).symm⟩
    simp only [next_header]
    omega
  · rintro ⟨f, hsig, hf, hinside, rfl⟩
    simp only [next_header] at hinside
    unfold read_cfh
    refine ite_error_eq_ok.mpr ⟨by omega, bind_eq_ok.mpr ⟨_, READ32_eq_ok.mpr hsig, ?_⟩⟩
    refine ite_error_eq_ok.mpr ⟨fun h => h rfl, bind_eq_ok.mpr ⟨f, hf, ?_⟩⟩
    exact ite_error_eq_ok.mpr ⟨by omega, rfl⟩

/-- When `read_lfh` succeeds. -/
theorem read_lfh_eq_ok {lfh : Lfh} : read_lfh src offset = .ok lfh ↔
    ∃ f, read32 src offset = some LFH_SIGNATURE ∧ lfh_fields src (offset + 4) = .ok f ∧
      offset + LFH_BASE_SZ + f.name_len + f.extra_len ≤ src.length ∧ lfh = f.at offset := by
  constructor
  · intro h
    unfold read_lfh at h
    obtain ⟨hguard, h⟩ := ite_error_eq_ok.mp h
    obtain ⟨signature, hsig, h⟩ := bind_eq_ok.mp h
    obtain ⟨hsignature, h⟩ := ite_error_eq_ok.mp h
    obtain ⟨f, hf, h⟩ := bind_eq_ok.mp h
    obtain ⟨hlen, h⟩ := ite_error_eq_ok.mp h
    rw [not_or] at hguard
    rw [not_not.mp hsignature] at hsig
    exact ⟨f, READ32_eq_ok.mp hsig, hf, by omega, (Except.ok.inj h).symm⟩
  · rintro ⟨f, hsig, hf, hinside, rfl⟩
    unfold read_lfh
    refine ite_error_eq_ok.mpr ⟨by omega, bind_eq_ok.mpr ⟨_, READ32_eq_ok.mpr hsig, ?_⟩⟩
    refine ite_error_eq_ok.mpr ⟨fun h => h rfl, bind_eq_ok.mpr ⟨f, hf, ?_⟩⟩
    exact ite_error_eq_ok.mpr ⟨by omega, rfl⟩

/-- An accepted central header ends inside the input. -/
theorem read_cfh_inside {cfh : Cfh} (h : read_cfh src offset zfo = .ok cfh) :
    next_header offset cfh.toCfhFields ≤ src.length := by
  obtain ⟨f, _, _, hinside, rfl⟩ := read_cfh_eq_ok.mp h
  exact hinside

theorem Walk.le {members : List (Cfh × Lfh)} (h : Walk src zfo offset members last) :
    offset + CFH_BASE_SZ * members.length ≤ last := by
  induction h with
  | nil => exact le_rfl
  | cons hok _ ih =>
      simp only [next_header, List.length_cons] at ih ⊢
      rw [Nat.mul_succ]
      omega

/-- A walk with members ends inside the input. -/
theorem Walk.le_length {members : List (Cfh × Lfh)} (h : Walk src zfo offset members last)
    (hne : members ≠ []) : last ≤ src.length := by
  induction h with
  | nil => exact absurd rfl hne
  | @cons offset last cfh lfh rest hok hwalk ih =>
      cases rest with
      | nil =>
          cases hwalk
          exact read_cfh_inside hok.cfh_ok
      | cons _ _ => exact ih (List.cons_ne_nil _ _)

/-- The members a walk lists, from the offset of the first header on. -/
def listed : Nat → List (Cfh × Lfh) → List Member
  | _, [] => []
  | it, (cfh, lfh) :: rest => member_of it cfh lfh :: listed (next_header it cfh.toCfhFields) rest

theorem zip_member_of_ok {zip : Zip} {cfh : Cfh} {lfh : Lfh} (hok : MemberOk src zfo it cfh lfh)
    (hbegin : zip.members_begin ≤ it) (hlast : next_header it cfh.toCfhFields ≤ zip.members_end) :
    zip_member src zip it zfo = .ok (member_of it cfh lfh) := by
  have hlt : it < zip.members_end := by
    simp only [next_header, CFH_BASE_SZ] at hlast
    omega
  unfold zip_member
  rw [if_neg (not_not.mpr ⟨hbegin, hlt⟩), hok.cfh_ok]
  show (assert_ok (read_lfh src cfh.lfh_offset) >>= _) = _
  rw [hok.lfh_ok]
  exact if_pos hlast

/-- The loop of `list_zip` follows the walk to its end, and no assertion fails. -/
theorem list_members_of_walk {zip : Zip} {members : List (Cfh × Lfh)}
    (h : Walk src zfo it members zip.members_end) (hbegin : zip.members_begin ≤ it) {turns : Nat}
    (hturns : members.length ≤ turns) :
    list_members src zip zfo turns it = .ok (listed it members) := by
  induction members generalizing it turns with
  | nil =>
      cases h
      unfold list_members
      rw [if_pos rfl]
      rfl
  | cons member rest ih =>
      cases h with
      | @cons _ _ cfh lfh _ hok hwalk =>
          have hle := hwalk.le
          cases turns with
          | zero => cases hturns
          | succ turns =>
              have hlast : next_header it cfh.toCfhFields ≤ zip.members_end := by omega
              have hne : it ≠ zip.members_end := by
                simp only [next_header, CFH_BASE_SZ] at hlast
                omega
              have hnext : zip.members_begin ≤ next_header it cfh.toCfhFields := by
                simp only [next_header]
                omega
              unfold list_members
              rw [if_neg hne, zip_member_of_ok hok hbegin hlast]
              show (list_members src zip zfo turns (next_header it cfh.toCfhFields) >>= _) = _
              rw [ih hwalk hnext (Nat.le_of_succ_le_succ hturns)]
              rfl

/-- `zip_read` accepts what has an end record without further disks and a walk. -/
theorem zip_read_eq_ok {zip : Zip} : zip_read src = .ok (zip, zfo) ↔
    ∃ eocdr members, find_eocdr src = .ok eocdr ∧ eocdr.disk_nbr = 0 ∧ eocdr.cd_start_disk = 0 ∧
      eocdr.disk_cd_entries = eocdr.cd_entries ∧
      zfo = MachineInt.toUnsigned 64 (src.length -
        (eocdr.cd_offset_field + eocdr.cd_size + EOCDR_BASE_SZ + eocdr.comment_len) : Int) ∧
      members.length = eocdr.cd_entries ∧ Walk src zfo eocdr.cd_offset members zip.members_end ∧
      zip = {
        num_members := eocdr.cd_entries
        comment := eocdr.comment
        comment_len := eocdr.comment_len
        members_begin := eocdr.cd_offset
        members_end := zip.members_end } := by
  constructor
  · intro h
    unfold zip_read at h
    obtain ⟨eocdr, heocdr, h⟩ := bind_eq_ok.mp h
    obtain ⟨hdisk, h⟩ := ite_error_eq_ok.mp h
    obtain ⟨last, hlast, h⟩ := bind_eq_ok.mp h
    obtain ⟨rfl, rfl⟩ := Prod.mk.inj (Except.ok.inj h)
    rw [not_or, not_or, not_not, not_not, not_not] at hdisk
    obtain ⟨members, hlen, hwalk⟩ := check_members_eq_ok.mp hlast
    exact ⟨eocdr, members, heocdr, hdisk.1, hdisk.2.1, hdisk.2.2, rfl, hlen, hwalk, rfl⟩
  · rintro ⟨eocdr, members, heocdr, hdisk, hstart, hentries, hzfo, hlen, hwalk, hzip⟩
    unfold zip_read
    refine bind_eq_ok.mpr ⟨eocdr, heocdr, ite_error_eq_ok.mpr ⟨?_, ?_⟩⟩
    · rw [not_or, not_or, not_not, not_not, not_not]
      exact ⟨hdisk, hstart, hentries⟩
    · rw [← hzfo]
      exact bind_eq_ok.mpr ⟨_, check_members_eq_ok.mpr ⟨members, hlen, hwalk⟩, by rw [← hzip]⟩

/-- After `zip_read` the listing succeeds and follows the walk. -/
theorem list_zip_of_walk {zip : Zip} {members : List (Cfh × Lfh)}
    (h : Walk src zfo zip.members_begin members zip.members_end) :
    list_zip src zip zfo = .ok (listed zip.members_begin members) := by
  apply list_members_of_walk h le_rfl
  by_cases hne : members = []
  · rw [hne]
    exact Nat.zero_le _
  · have hle := h.le
    have hlength := h.le_length hne
    simp only [CFH_BASE_SZ] at hle
    omega

end OtusCProg.ZipJpeg
