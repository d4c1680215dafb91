import OtusCProg.Library.LittleEndian
import OtusCProg.Library.MachineInt

/-!
# The ZIP parser of `03_types_homework`

`zip_read`, `zip_member` and the loop of `list_zip` over a byte string. A
pointer is an offset into that string. `size_t` has 64 bits; the offsets that
the parser has checked against the length cannot wrap and are plain numbers.
-/

namespace OtusCProg.ZipJpeg
open Library LittleEndian MachineInt

/-- Why a function has no result: it returns `false`, it reads a byte outside
the input, an assertion fails, or the model's bound on the loop was too small. -/
inductive Halt where
  | rejected
  | outOfBounds
  | assertion
  | bound
deriving DecidableEq

section Reads
variable (src : List UInt8) (p : Nat)

def READ16 : Except Halt Nat :=
  match read16 src p with
  | some n => .ok n
  | none => .error .outOfBounds

def READ32 : Except Halt Nat :=
  match read32 src p with
  | some n => .ok n
  | none => .error .outOfBounds

/-- The bytes that `memchr` may look at. -/
def bytes_at (n : Nat) : Except Halt (List UInt8) :=
  if p + n ≤ src.length then .ok (slice src p n) else .error .outOfBounds

end Reads

def EOCDR_BASE_SZ : Nat := 22
def EOCDR_SIGNATURE : Nat := 0x06054b50
def EXT_ATTR_DIR : Nat := 1 <<< 4
def CFH_BASE_SZ : Nat := 46
def CFH_SIGNATURE : Nat := 0x02014b50
def LFH_BASE_SZ : Nat := 30
def LFH_SIGNATURE : Nat := 0x04034b50
def ZIP_STORED : Nat := 0
def ZIP_DEFLATED : Nat := 8

/-- The fields of an end record as they stand in the file. -/
structure EocdrFields where
  disk_nbr : Nat
  cd_start_disk : Nat
  disk_cd_entries : Nat
  cd_entries : Nat
  cd_size : Nat
  cd_offset_field : Nat
  comment_len : Nat
deriving DecidableEq

/-- `struct eocdr`, with the recomputed offset of the central directory. -/
structure Eocdr extends EocdrFields where
  cd_offset : Nat
  comment : Nat

/-- The fields of a central header as they stand in the file. -/
structure CfhFields where
  made_by_ver : Nat
  extract_ver : Nat
  gp_flag : Nat
  method : Nat
  mod_time : Nat
  mod_date : Nat
  crc32 : Nat
  comp_size : Nat
  uncomp_size : Nat
  name_len : Nat
  extra_len : Nat
  comment_len : Nat
  disk_nbr_start : Nat
  int_attrs : Nat
  ext_attrs : Nat
  lfh_offset_field : Nat
deriving DecidableEq

/-- `struct cfh` -/
structure Cfh extends CfhFields where
  lfh_offset : Nat
  name : Nat
  extra : Nat
  comment : Nat

/-- The fields of a local header as they stand in the file. -/
structure LfhFields where
  extract_ver : Nat
  gp_flag : Nat
  method : Nat
  mod_time : Nat
  mod_date : Nat
  crc32 : Nat
  comp_size : Nat
  uncomp_size : Nat
  name_len : Nat
  extra_len : Nat
deriving DecidableEq

/-- `struct lfh` -/
structure Lfh extends LfhFields where
  name : Nat
  extra : Nat

/-- The offset of the next central header. -/
def next_header (offset : Nat) (f : CfhFields) : Nat :=
  offset + CFH_BASE_SZ + f.name_len + f.extra_len + f.comment_len

/-- The central header with these fields at `offset`; `lfh_offset` is a `uint32_t`. -/
def CfhFields.at (f : CfhFields) (offset zip_file_offset : Nat) : Cfh :=
  { f with
    lfh_offset := (f.lfh_offset_field + zip_file_offset) % 2 ^ 32
    name := offset + CFH_BASE_SZ
    extra := offset + CFH_BASE_SZ + f.name_len
    comment := offset + CFH_BASE_SZ + f.name_len + f.extra_len }

/-- The local header with these fields at `offset`. -/
def LfhFields.at (f : LfhFields) (offset : Nat) : Lfh :=
  { f with name := offset + LFH_BASE_SZ, extra := offset + LFH_BASE_SZ + f.name_len }

section Headers
variable (src : List UInt8)

/-- The fields of an end record, from behind its signature. -/
def eocdr_fields (p : Nat) : Except Halt EocdrFields := do
  let disk_nbr ← READ16 src p
  let cd_start_disk ← READ16 src (p + 2)
  let disk_cd_entries ← READ16 src (p + 4)
  let cd_entries ← READ16 src (p + 6)
  let cd_size ← READ32 src (p + 8)
  let cd_offset_field ← READ32 src (p + 12)
  let comment_len ← READ16 src (p + 16)
  .ok { disk_nbr, cd_start_disk, disk_cd_entries, cd_entries, cd_size, cd_offset_field, comment_len }

/-- The fields of a central header, from behind its signature. -/
def cfh_fields (p : Nat) : Except Halt CfhFields := do
  let made_by_ver ← READ16 src p
  let extract_ver ← READ16 src (p + 2)
  let gp_flag ← READ16 src (p + 4)
  let method ← READ16 src (p + 6)
  let mod_time ← READ16 src (p + 8)
  let mod_date ← READ16 src (p + 10)
  let crc32 ← READ32 src (p + 12)
  let comp_size ← READ32 src (p + 16)
  let uncomp_size ← READ32 src (p + 20)
  let name_len ← READ16 src (p + 24)
  let extra_len ← READ16 src (p + 26)
  let comment_len ← READ16 src (p + 28)
  let disk_nbr_start ← READ16 src (p + 30)
  let int_attrs ← READ16 src (p + 32)
  let ext_attrs ← READ32 src (p + 34)
  let lfh_offset_field ← READ32 src (p + 38)
  .ok {
    made_by_ver, extract_ver, gp_flag, method, mod_time, mod_date, crc32, comp_size, uncomp_size,
    name_len, extra_len, comment_len, disk_nbr_start, int_attrs, ext_attrs, lfh_offset_field }

/-- The fields of a local header, from behind its signature. -/
def lfh_fields (p : Nat) : Except Halt LfhFields := do
  let extract_ver ← READ16 src p
  let gp_flag ← READ16 src (p + 2)
  let method ← READ16 src (p + 4)
  let mod_time ← READ16 src (p + 6)
  let mod_date ← READ16 src (p + 8)
  let crc32 ← READ32 src (p + 10)
  let comp_size ← READ32 src (p + 14)
  let uncomp_size ← READ32 src (p + 18)
  let name_len ← READ16 src (p + 22)
  let extra_len ← READ16 src (p + 24)
  .ok {
    extract_ver, gp_flag, method, mod_time, mod_date, crc32, comp_size, uncomp_size, name_len,
    extra_len }

/-- `read_cfh` -/
def read_cfh (offset zip_file_offset : Nat) : Except Halt Cfh :=
  if offset > src.length ∨ src.length - offset < CFH_BASE_SZ then .error .rejected
  else do
    let signature ← READ32 src offset
    if signature ≠ CFH_SIGNATURE then .error .rejected
    else
      let f ← cfh_fields src (offset + 4)
      if src.length - offset - CFH_BASE_SZ < f.name_len + f.extra_len + f.comment_len then
        .error .rejected
      else .ok (f.at offset zip_file_offset)

/-- `read_lfh` -/
def read_lfh (offset : Nat) : Except Halt Lfh :=
  if offset > src.length ∨ src.length - offset < LFH_BASE_SZ then .error .rejected
  else do
    let signature ← READ32 src offset
    if signature ≠ LFH_SIGNATURE then .error .rejected
    else
      let f ← lfh_fields src (offset + 4)
      if src.length - offset - LFH_BASE_SZ < f.name_len + f.extra_len then .error .rejected
      else .ok (f.at offset)

/-- The loop of `find_eocdr` from `comment_len` on, for at most `turns` turns. -/
def find_eocdr_from : Nat → Nat → Except Halt Eocdr
  | 0, _ => .error .rejected
  | turns + 1, comment_len =>
      if src.length < EOCDR_BASE_SZ + comment_len then .error .rejected
      else do
        let p := src.length - EOCDR_BASE_SZ - comment_len
        let signature ← READ32 src p
        if signature = EOCDR_SIGNATURE then
          let f ← eocdr_fields src (p + 4)
          let cd_offset := toUnsigned 32 (src.length - f.cd_size - EOCDR_BASE_SZ - comment_len : Int)
          if f.comment_len = comment_len then
            .ok { f with cd_offset := cd_offset, comment := p + EOCDR_BASE_SZ }
          else find_eocdr_from turns (comment_len + 1)
        else find_eocdr_from turns (comment_len + 1)

/-- `find_eocdr`; the offset it also returns is `cd_offset_field`. -/
def find_eocdr : Except Halt Eocdr := find_eocdr_from src 65536 0

end Headers

/-- `struct zip_t` without the input itself. -/
structure Zip where
  num_members : Nat
  comment : Nat
  comment_len : Nat
  members_begin : Nat
  members_end : Nat

/-- The time that `dos2ctime` hands to `mktime`. -/
structure Tm where
  tm_sec : Nat
  tm_min : Nat
  tm_hour : Nat
  tm_mday : Nat
  tm_mon : Int
  tm_year : Nat
deriving DecidableEq

def dos2ctime (dos_date dos_time : Nat) : Tm :=
  { tm_sec := (dos_time &&& 0x1f) * 2
    tm_min := (dos_time >>> 5) &&& 0x3f
    tm_hour := dos_time >>> 11
    tm_mday := dos_date &&& 0x1f
    tm_mon := (((dos_date >>> 5) &&& 0xf : Nat) : Int) - 1
    tm_year := (dos_date >>> 9) + 80 }

/-- `struct zipmemb_t` -/
structure Member where
  name : Nat
  name_len : Nat
  mtime : Tm
  comp_size : Nat
  comp_data : Nat
  method : Nat
  uncomp_size : Nat
  crc32 : Nat
  comment : Nat
  comment_len : Nat
  is_dir : Bool
  next : Nat

section Archive
variable (src : List UInt8)

/-- One turn of the loop of `zip_read`. -/
def check_member (zip_file_offset offset : Nat) : Except Halt Nat := do
  let cfh ← read_cfh src offset zip_file_offset
  if cfh.gp_flag &&& 1 ≠ 0 then .error .rejected
  else if cfh.method ≠ ZIP_STORED ∧ cfh.method ≠ ZIP_DEFLATED then .error .rejected
  else if cfh.method = ZIP_STORED ∧ cfh.uncomp_size ≠ cfh.comp_size then .error .rejected
  else if cfh.disk_nbr_start ≠ 0 then .error .rejected
  else
    let name ← bytes_at src cfh.name cfh.name_len
    if 0 ∈ name then .error .rejected
    else
      let lfh ← read_lfh src cfh.lfh_offset
      let comp_data := lfh.extra + lfh.extra_len
      if cfh.comp_size > src.length - comp_data then .error .rejected
      else .ok (next_header offset cfh.toCfhFields)

/-- The loop of `zip_read` over the given number of members. -/
def check_members (zip_file_offset : Nat) : Nat → Nat → Except Halt Nat
  | 0, offset => .ok offset
  | n + 1, offset => do
      let offset ← check_member src zip_file_offset offset
      check_members zip_file_offset n offset

/-- `zip_read`: the archive and `zip_file_offset`. -/
def zip_read : Except Halt (Zip × Nat) := do
  let eocdr ← find_eocdr src
  let zip_file_offset := toUnsigned 64
    (src.length - (eocdr.cd_offset_field + eocdr.cd_size + EOCDR_BASE_SZ + eocdr.comment_len) : Int)
  if eocdr.disk_nbr ≠ 0 ∨ eocdr.cd_start_disk ≠ 0 ∨ eocdr.disk_cd_entries ≠ eocdr.cd_entries then
    .error .rejected
  else
    let members_end ← check_members src zip_file_offset eocdr.cd_entries eocdr.cd_offset
    .ok (
      { num_members := eocdr.cd_entries
        comment := eocdr.comment
        comment_len := eocdr.comment_len
        members_begin := eocdr.cd_offset
        members_end := members_end }, zip_file_offset)

/-- `assert(ok)` -/
def assert_ok {α : Type*} : Except Halt α → Except Halt α
  | .error .rejected => .error .assertion
  | result => result

/-- The member that two headers describe. -/
def member_of (it : Nat) (cfh : Cfh) (lfh : Lfh) : Member :=
  { name := cfh.name
    name_len := cfh.name_len
    mtime := dos2ctime cfh.mod_date cfh.mod_time
    comp_size := cfh.comp_size
    comp_data := lfh.extra + lfh.extra_len
    method := cfh.method
    uncomp_size := cfh.uncomp_size
    crc32 := cfh.crc32
    comment := cfh.comment
    comment_len := cfh.comment_len
    is_dir := cfh.ext_attrs &&& EXT_ATTR_DIR ≠ 0
    next := next_header it cfh.toCfhFields }

/-- `zip_member` -/
def zip_member (zip : Zip) (it zip_file_offset : Nat) : Except Halt Member :=
  if ¬(zip.members_begin ≤ it ∧ it < zip.members_end) then .error .assertion
  else do
    let cfh ← assert_ok (read_cfh src it zip_file_offset)
    let lfh ← assert_ok (read_lfh src cfh.lfh_offset)
    let m := member_of it cfh lfh
    if m.next ≤ zip.members_end then .ok m else .error .assertion

/-- The loop of `list_zip` from `it` on, for at most `turns` members. -/
def list_members (zip : Zip) (zip_file_offset : Nat) : Nat → Nat → Except Halt (List Member)
  | turns, it =>
      if it = zip.members_end then .ok []
      else
        match turns with
        | 0 => .error .bound
        | turns + 1 => do
            let m ← zip_member src zip it zip_file_offset
            let rest ← list_members zip zip_file_offset turns m.next
            .ok (m :: rest)

/-- The members that `list_zip` goes over; it cannot meet more than the input has bytes. -/
def list_zip (zip : Zip) (zip_file_offset : Nat) : Except Halt (List Member) :=
  list_members src zip zip_file_offset src.length zip.members_begin

end Archive

/-- What a member says, with its bytes in place of pointers. -/
structure Content where
  name : List UInt8
  comp_data : List UInt8
  mtime : Tm
  method : Nat
  comp_size : Nat
  uncomp_size : Nat
  crc32 : Nat
  comment : List UInt8
  is_dir : Bool
deriving DecidableEq

def Member.content (src : List UInt8) (m : Member) : Content :=
  { name := slice src m.name m.name_len
    comp_data := slice src m.comp_data m.comp_size
    mtime := m.mtime
    method := m.method
    comp_size := m.comp_size
    uncomp_size := m.uncomp_size
    crc32 := m.crc32
    comment := slice src m.comment m.comment_len
    is_dir := m.is_dir }

end OtusCProg.ZipJpeg
