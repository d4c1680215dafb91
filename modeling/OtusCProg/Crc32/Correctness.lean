import OtusCProg.Crc32.Model

/-!
# The CRC utility computes CRC-32

The byte loop agrees with bit-by-bit division because the register update is
additive and the table stores the division of every single byte. The chunk
loop keeps the register equal to the division of the prefix read so far.
-/

namespace OtusCProg.Crc32
open Library.MachineInt Library.ShiftRegister

/-- The reflected polynomial of CRC-32. -/
def polynomial : BitVec 32 := 0xEDB88320#32

/-- Bit-by-bit division of a byte string, starting from a register. -/
def divide (crc : BitVec 32) (bytes : List UInt8) : BitVec 32 :=
  bytes.foldl (fun r b => shiftSteps polynomial 8 (r ^^^ b.toBitVec.setWidth 32)) crc

/-- CRC-32 with initial value and final exclusive or `0xFFFFFFFF`. -/
def crc32Reference (bytes : List UInt8) : BitVec 32 :=
  divide 0xFFFFFFFF#32 bytes ^^^ 0xFFFFFFFF#32

theorem divide_append (crc : BitVec 32) (xs ys : List UInt8) :
    divide crc (xs ++ ys) = divide (divide crc xs) ys := by
  simp [divide, List.foldl_append]

/-- Every entry of the table is the division of its own index. -/
theorem tabEntry_eq_divide :
    ∀ i < 256, tabEntry (BitVec.ofNat 32 i) = shiftSteps polynomial 8 (BitVec.ofNat 32 i) := by
  decide +kernel

theorem getLsbD_low_byte (x : BitVec 32) (i : Nat) :
    (x &&& 0xFF#32).getLsbD i = (x.getLsbD i && decide (i < 8)) := by
  have hmask : (0xFF#32).getLsbD i = decide (i < 8) := by
    have h : (255 : Nat).testBit i = decide (i < 8) := Nat.testBit_two_pow_sub_one 8 i
    rw [BitVec.getLsbD_ofNat, h]
    by_cases hi : i < 8 <;> simp [hi]
    omega
  rw [BitVec.getLsbD_and, hmask]

theorem low_byte_lt (x : BitVec 32) : (x &&& 0xFF#32).toNat < 256 := by
  rw [BitVec.toNat_and]
  exact Nat.lt_of_le_of_lt Nat.and_le_right (by decide)

/-- One table step is eight division steps. -/
theorem tabStep_eq_divide (crc : BitVec 32) (b : UInt8) :
    tabStep crc b = shiftSteps polynomial 8 (crc ^^^ b.toBitVec.setWidth 32) := by
  let x := crc ^^^ b.toBitVec.setWidth 32
  have hentry : tabEntry (x &&& 0xFF#32) = shiftSteps polynomial 8 (x &&& 0xFF#32) := by
    have h := tabEntry_eq_divide (x &&& 0xFF#32).toNat (low_byte_lt x)
    simpa only [BitVec.ofNat_toNat, BitVec.setWidth_eq] using h
  have hbyte : (b.toBitVec.setWidth 32) >>> 8 = 0#32 := by
    apply BitVec.eq_of_getLsbD_eq
    intro i _
    rw [BitVec.getLsbD_ushiftRight, BitVec.getLsbD_setWidth,
      BitVec.getLsbD_of_ge _ _ (by omega)]
    simp
  have hshift : x >>> 8 = crc >>> 8 := by
    rw [BitVec.ushiftRight_xor_distrib, hbyte, BitVec.xor_zero]
  calc
    tabStep crc b = shiftSteps polynomial 8 (x &&& 0xFF#32) ^^^ (x >>> 8) := by
      rw [tabStep, hentry, hshift]
    _ = shiftSteps polynomial 8 x := by
      symm
      apply shiftSteps_split
      · intro i hi
        rw [getLsbD_low_byte, decide_eq_true hi, Bool.and_true]
      · intro i hi
        rw [getLsbD_low_byte, decide_eq_false (Nat.not_lt.mpr hi), Bool.and_false]

/-- The byte loop over a whole buffer is its bit-by-bit division. -/
theorem crc32_raw_eq_divide (p : List UInt8) (crc : BitVec 32) :
    crc32_raw p p.length crc = divide crc p := by
  induction p generalizing crc with
  | nil => rfl
  | cons b p ih =>
      rw [List.length_cons, crc32_raw, ih, tabStep_eq_divide]
      rfl

/-- The requests follow each other without gap or overlap from one offset to another. -/
def Tiles : Int → List MmapCall → Int → Prop
  | start, [], stop => start = stop
  | start, c :: cs, stop => c.offset = start ∧ Tiles (start + c.len) cs stop

theorem Tiles.snoc {start stop : Int} {cs : List MmapCall} (h : Tiles start cs stop) (len : Nat) :
    Tiles start (cs ++ [⟨stop, len⟩]) (stop + len) := by
  induction cs generalizing start with
  | nil => exact ⟨h.symm, congrArg (· + (len : Int)) h⟩
  | cons c cs ih => exact ⟨h.1, ih h.2⟩

/-- A request the loop may make: page aligned and not empty. -/
def MmapCall.Valid (page_size : Int) (c : MmapCall) : Prop :=
  page_size ∣ c.offset ∧ 0 < c.len

/-- What the chunk loop keeps: the requests so far tile the prefix before
`offset`, and the register is the division of that prefix. -/
structure LoopInv (file : List UInt8) (page_size : Int) (s : LoopState) : Prop where
  offset_nonneg : 0 ≤ s.offset
  offset_le : s.offset ≤ file.length
  aligned : s.offset < file.length → page_size ∣ s.offset
  valid : ∀ c ∈ s.calls, c.Valid page_size
  tiles : Tiles 0 s.calls s.offset
  crc_eq : s.crc = divide 0xFFFFFFFF#32 (file.take s.offset.toNat)

/-- The derived chunk size is a positive multiple of the page size. -/
theorem chunkSize_spec {page_size : Int} (hpos : 0 < page_size) (hlong : page_size < 2 ^ 63) :
    0 < chunkSize page_size ∧ page_size ∣ chunkSize page_size ∧
      (chunkSize page_size : Int) < 2 ^ 63 := by
  obtain ⟨p, rfl⟩ : ∃ p : Nat, page_size = p := ⟨page_size.toNat, by omega⟩
  have hp : p < 2 ^ 63 := by exact_mod_cast hlong
  have hconv : toUnsigned 64 (p : Int) = p := by
    rw [toUnsigned_natCast, Nat.mod_eq_of_lt (by omega)]
  have hmul : 64 * 1024 * 1024 / p * p ≤ 64 * 1024 * 1024 := Nat.div_mul_le_self _ _
  have hconv' : toUnsigned 64 ((64 * 1024 * 1024 / p * p : Nat) : Int) =
      64 * 1024 * 1024 / p * p := by
    rw [toUnsigned_natCast, Nat.mod_eq_of_lt (by omega)]
  simp only [chunkSize, hconv, hconv']
  split
  · exact ⟨by omega, dvd_rfl, by exact_mod_cast hp⟩
  · refine ⟨by omega, ?_, by omega⟩
    exact_mod_cast Nat.dvd_mul_left p _

/-- The length of one request is the rest of the file, cut at the chunk size. -/
theorem chunkLen_eq {filesize offset : Int} {chunk_size : Nat}
    (hfile : filesize < 2 ^ 63) (hoffset : 0 ≤ offset) (hlt : offset < filesize)
    (hchunk : (chunk_size : Int) < 2 ^ 63) :
    (chunkLen filesize chunk_size offset : Int) = min (chunk_size : Int) (filesize - offset) := by
  have hsigned : toSigned 64 (chunk_size : Int) = chunk_size :=
    toSigned_of_range (by omega) hchunk
  unfold chunkLen
  rw [hsigned]
  split
  · omega
  · rw [toUnsigned_of_range (by omega) (by omega)]
    omega

/-- Adding a request to `offset` does not leave the range of `off_t`. -/
theorem afterChunk_offset (file : List UInt8) (s : LoopState) (len : Nat)
    (hnonneg : 0 ≤ s.offset) (hend : s.offset + len < 2 ^ 63) :
    (s.afterChunk file len).offset = s.offset + len := by
  have hsum : ((toUnsigned 64 s.offset + len : Nat) : Int) = s.offset + len := by
    rw [Nat.cast_add, toUnsigned_of_range hnonneg (by omega)]
  simp only [LoopState.afterChunk, hsum]
  exact toSigned_of_range (by omega) hend

variable {file : List UInt8} {page_size : Int} {s : LoopState}

/-- The request of one iteration is valid and stays inside the file. -/
theorem LoopInv.request (inv : LoopInv file page_size s) (hfile : (file.length : Int) < 2 ^ 63)
    (hpos : 0 < page_size) (hlong : page_size < 2 ^ 63) (hlt : s.offset < file.length) :
    let len := chunkLen file.length (chunkSize page_size) s.offset
    MmapCall.Valid page_size ⟨s.offset, len⟩ ∧ s.offset + len ≤ file.length ∧
      (s.offset + len < file.length → (len : Int) = chunkSize page_size) := by
  intro len
  obtain ⟨hchunk, _, hchunk_lt⟩ := chunkSize_spec hpos hlong
  have hlen : (len : Int) = min (chunkSize page_size : Int) (file.length - s.offset) :=
    chunkLen_eq hfile inv.offset_nonneg hlt hchunk_lt
  have hlen_pos : 0 < len := by omega
  exact ⟨⟨inv.aligned hlt, hlen_pos⟩, by omega, by omega⟩

/-- One granted iteration keeps the invariant. -/
theorem LoopInv.step (inv : LoopInv file page_size s) (hfile : (file.length : Int) < 2 ^ 63)
    (hpos : 0 < page_size) (hlong : page_size < 2 ^ 63) (hlt : s.offset < file.length) :
    LoopInv file page_size
      (s.afterChunk file (chunkLen file.length (chunkSize page_size) s.offset)) := by
  obtain ⟨hvalid, hend, hfull⟩ := inv.request hfile hpos hlong hlt
  generalize chunkLen file.length (chunkSize page_size) s.offset = len at hvalid hend hfull
  have hnonneg := inv.offset_nonneg
  have hoffset : (s.afterChunk file len).offset = s.offset + len :=
    afterChunk_offset file s len hnonneg (by omega)
  have hmapped : (mapped file s.offset len).length = len := by
    rw [mapped, List.length_take, List.length_drop]
    omega
  refine ⟨by omega, by omega, ?_, ?_, ?_, ?_⟩
  · intro hmore
    rw [hoffset] at hmore ⊢
    have hdvd := (chunkSize_spec hpos hlong).2.1
    rw [hfull hmore]
    exact dvd_add (inv.aligned hlt) hdvd
  · intro c hc
    rcases List.mem_append.mp hc with hold | hnew
    · exact inv.valid c hold
    · rw [List.mem_singleton.mp hnew]
      exact hvalid
  · rw [hoffset]
    exact inv.tiles.snoc len
  · have hprefix : file.take (s.offset + len).toNat =
        file.take s.offset.toNat ++ mapped file s.offset len := by
      rw [mapped, Int.toNat_add hnonneg (by omega), Int.toNat_natCast, List.take_add]
    rw [hoffset, hprefix, divide_append, ← inv.crc_eq, ← crc32_raw_eq_divide, hmapped]
    rfl

/-- How a run of the loop may leave: with the whole file read, or after a
refused `mmap` or `munmap` at the last of its requests. -/
def LoopResult (vm : VirtualMemory) (file : List UInt8) (page_size : Int) :
    LoopState × LoopEnd → Prop
  | (s, .finished) => LoopInv file page_size s ∧ s.offset = file.length
  | (s, .error exit) => ∃ (cs : List MmapCall) (c : MmapCall), s.calls = cs ++ [c] ∧ Tiles 0 s.calls (c.offset + c.len) ∧
      (∀ c ∈ s.calls, c.Valid page_size) ∧ c.offset + c.len ≤ file.length ∧
      (exit = .mmapFailed ∧ vm.mmap c.offset c.len = false ∨
        exit = .munmapFailed ∧ vm.munmap c.offset c.len = false)

/-- From any state that satisfies the invariant the loop ends, with one result
for every sufficient fuel. The induction is on the bytes not yet read. -/
theorem chunkLoop_terminates (vm : VirtualMemory) (hfile : (file.length : Int) < 2 ^ 63)
    (hpos : 0 < page_size) (hlong : page_size < 2 ^ 63) (n : Nat) (s : LoopState)
    (inv : LoopInv file page_size s) (hn : (file.length : Int) - s.offset ≤ n) :
    ∃ r, (∀ fuel, n < fuel →
        chunkLoop vm file file.length (chunkSize page_size) fuel s = some r) ∧
      LoopResult vm file page_size r := by
  induction n generalizing s with
  | zero =>
      have hend : s.offset = file.length := le_antisymm inv.offset_le (by omega)
      refine ⟨(s, .finished), ?_, inv, hend⟩
      intro fuel hfuel
      obtain ⟨k, rfl⟩ : ∃ k, fuel = k + 1 := ⟨fuel - 1, by omega⟩
      simp [chunkLoop, hend]
  | succ n ih =>
      by_cases hlt : s.offset < file.length
      · have hnext := inv.step hfile hpos hlong hlt
        obtain ⟨hvalid, hend, _⟩ := inv.request hfile hpos hlong hlt
        let len := chunkLen file.length (chunkSize page_size) s.offset
        have hnonneg := inv.offset_nonneg
        have hoffset : (s.afterChunk file len).offset = s.offset + len :=
          afterChunk_offset file s len hnonneg (by omega)
        have hlen : 0 < len := hvalid.2
        have hcalls : ∀ c ∈ s.calls ++ [⟨s.offset, len⟩], c.Valid page_size := hnext.valid
        have htiles : Tiles 0 (s.calls ++ [⟨s.offset, len⟩]) (s.offset + len) :=
          inv.tiles.snoc len
        cases hmap : vm.mmap s.offset len with
        | false =>
            refine ⟨({ s with calls := s.calls ++ [⟨s.offset, len⟩] }, .error .mmapFailed), ?_,
              s.calls, ⟨s.offset, len⟩, rfl, htiles, hcalls, hend, Or.inl ⟨rfl, hmap⟩⟩
            intro fuel hfuel
            obtain ⟨k, rfl⟩ : ∃ k, fuel = k + 1 := ⟨fuel - 1, by omega⟩
            simp [chunkLoop, hlt, len, hmap]
        | true =>
            cases hunmap : vm.munmap s.offset len with
            | false =>
                refine ⟨({ s.afterChunk file len with offset := s.offset },
                  .error .munmapFailed), ?_, s.calls, ⟨s.offset, len⟩, rfl, htiles, hcalls, hend,
                  Or.inr ⟨rfl, hunmap⟩⟩
                intro fuel hfuel
                obtain ⟨k, rfl⟩ : ∃ k, fuel = k + 1 := ⟨fuel - 1, by omega⟩
                simp [chunkLoop, hlt, len, hmap, hunmap]
            | true =>
                obtain ⟨r, hr, hres⟩ := ih (s.afterChunk file len) hnext (by omega)
                refine ⟨r, ?_, hres⟩
                intro fuel hfuel
                obtain ⟨k, rfl⟩ : ∃ k, fuel = k + 1 := ⟨fuel - 1, by omega⟩
                rw [← hr k (by omega)]
                simp [chunkLoop, hlt, len, hmap, hunmap]
      · have hend : s.offset = file.length := le_antisymm inv.offset_le (by omega)
        refine ⟨(s, .finished), ?_, inv, hend⟩
        intro fuel hfuel
        obtain ⟨k, rfl⟩ : ∃ k, fuel = k + 1 := ⟨fuel - 1, by omega⟩
        simp [chunkLoop, hend]

/-- The state in which `main` enters the loop. -/
theorem LoopInv.init (file : List UInt8) (page_size : Int) :
    LoopInv file page_size { crc := ~~~0#32, offset := 0, calls := [] } where
  offset_nonneg := le_rfl
  offset_le := by simp
  aligned := fun _ => dvd_zero page_size
  valid := by simp
  tiles := rfl
  crc_eq := rfl

/-- The utility terminates on every file and page size. All its requests are
page aligned, not empty and tile the file from the start. It stops early only
after a refused `mmap` or `munmap`; otherwise the requests cover the file
exactly and the printed value is the CRC-32 of the whole file. -/
theorem main_computes_crc32 (vm : VirtualMemory) (file : List UInt8) (sysconf : Int)
    (hfile : (file.length : Int) < 2 ^ 63) (hpos : 0 < pageSize sysconf)
    (hlong : pageSize sysconf < 2 ^ 63) :
    ∃ calls exit, (∀ fuel, file.length < fuel → main vm file sysconf fuel = some (calls, exit)) ∧
      (∀ c ∈ calls, pageSize sysconf ∣ c.offset ∧ 0 < c.len) ∧
      (Tiles 0 calls file.length ∧ exit = .printed (printf08x (crc32Reference file)) ∨
        ∃ (cs : List MmapCall) (c : MmapCall), calls = cs ++ [c] ∧ Tiles 0 calls (c.offset + c.len) ∧
          c.offset + c.len ≤ file.length ∧
          (exit = .mmapFailed ∧ vm.mmap c.offset c.len = false ∨
            exit = .munmapFailed ∧ vm.munmap c.offset c.len = false)) := by
  obtain ⟨⟨s, e⟩, hr, hres⟩ := chunkLoop_terminates vm hfile hpos hlong file.length _
    (LoopInv.init file (pageSize sysconf)) (by simp)
  cases e with
  | finished =>
      obtain ⟨inv, hend⟩ := hres
      refine ⟨s.calls, .printed (printf08x (s.crc ^^^ ~~~0#32)), ?_, inv.valid, Or.inl ⟨?_, ?_⟩⟩
      · intro fuel hfuel
        rw [main, hr fuel hfuel]
      · simpa only [hend] using inv.tiles
      · rw [inv.crc_eq, hend, Int.toNat_natCast, List.take_length]
        rfl
  | error exit =>
      obtain ⟨cs, c, hcalls, htiles, hvalid, hend, hcause⟩ := hres
      refine ⟨s.calls, exit, ?_, hvalid, Or.inr ⟨cs, c, hcalls, htiles, hend, hcause⟩⟩
      intro fuel hfuel
      rw [main, hr fuel hfuel]

/-- The nine digits on pages of 4096 bytes, with every request granted. -/
theorem main_computes_crc32_digits :
    let vm : VirtualMemory := ⟨fun _ _ => true, fun _ _ => true⟩
    let file : List UInt8 := [0x31, 0x32, 0x33, 0x34, 0x35, 0x36, 0x37, 0x38, 0x39]
    ∃ calls exit, (∀ fuel, file.length < fuel → main vm file 4096 fuel = some (calls, exit)) ∧
      (∀ c ∈ calls, pageSize 4096 ∣ c.offset ∧ 0 < c.len) ∧
      (Tiles 0 calls file.length ∧ exit = .printed (printf08x (crc32Reference file)) ∨
        ∃ (cs : List MmapCall) (c : MmapCall), calls = cs ++ [c] ∧
          Tiles 0 calls (c.offset + c.len) ∧ c.offset + c.len ≤ file.length ∧
          (exit = .mmapFailed ∧ vm.mmap c.offset c.len = false ∨
            exit = .munmapFailed ∧ vm.munmap c.offset c.len = false)) :=
  main_computes_crc32 ⟨fun _ _ => true, fun _ _ => true⟩
    [0x31, 0x32, 0x33, 0x34, 0x35, 0x36, 0x37, 0x38, 0x39] 4096
    (by decide) (by decide) (by decide)

end OtusCProg.Crc32
