import OtusCProg.Crc32.Correctness
import OtusCProg.Library.BurstDetection

/-!
# The CRC utility detects short bursts

The printed digits determine the register, and the polynomial of the utility
has its top bit. Files that differ only inside four consecutive bytes therefore
print different checksums, however the chunks of the two runs are cut.
-/

namespace OtusCProg.Crc32
open Library.MachineInt Library.ShiftRegister Library.BurstDetection

/-- More fuel does not change a result of the chunk loop. -/
theorem chunkLoop_mono {vm : VirtualMemory} {file : List UInt8} {filesize : Int}
    {chunk_size fuel : Nat} {s : LoopState} {r : LoopState × LoopEnd} (extra : Nat)
    (h : chunkLoop vm file filesize chunk_size fuel s = some r) :
    chunkLoop vm file filesize chunk_size (fuel + extra) s = some r := by
  induction fuel generalizing s with
  | zero => simp [chunkLoop] at h
  | succ fuel ih =>
      rw [Nat.succ_add]
      by_cases hlt : s.offset < filesize
      · cases hmap : vm.mmap s.offset (chunkLen filesize chunk_size s.offset) with
        | false => simpa [chunkLoop, hlt, hmap] using h
        | true =>
            cases hunmap : vm.munmap s.offset (chunkLen filesize chunk_size s.offset) with
            | false => simpa [chunkLoop, hlt, hmap, hunmap] using h
            | true =>
                have hrest : chunkLoop vm file filesize chunk_size fuel
                    (s.afterChunk file (chunkLen filesize chunk_size s.offset)) = some r := by
                  simpa [chunkLoop, hlt, hmap, hunmap] using h
                simpa [chunkLoop, hlt, hmap, hunmap] using ih hrest
      · simpa [chunkLoop, hlt] using h

section Runs

variable {file : List UInt8} {sysconf : Int} (hfile : (file.length : Int) < 2 ^ 63)
  (hpos : 0 < pageSize sysconf) (hlong : pageSize sysconf < 2 ^ 63)

include hfile hpos hlong

/-- Whatever the utility prints is the CRC-32 of the file. -/
theorem printed_eq {vm : VirtualMemory} {fuel : Nat} {calls : List MmapCall} {text : List Char}
    (h : main vm file sysconf fuel = some (calls, .printed text)) :
    text = printf08x (crc32Reference file) := by
  obtain ⟨⟨s, e⟩, hr, hres⟩ := chunkLoop_terminates vm hfile hpos hlong file.length _
    (LoopInv.init file (pageSize sysconf)) (by simp)
  rw [main] at h
  cases hloop : chunkLoop vm file file.length (chunkSize (pageSize sysconf)) fuel
      { crc := ~~~0#32, offset := 0, calls := [] } with
  | none =>
      rw [hloop] at h
      simp at h
  | some out =>
      have hlater := chunkLoop_mono (file.length + 1) hloop
      rw [hr (fuel + (file.length + 1)) (by omega)] at hlater
      rw [hloop, ← Option.some.inj hlater] at h
      cases e with
      | finished =>
          obtain ⟨inv, hend⟩ := hres
          have htext : text = printf08x (s.crc ^^^ ~~~0#32) := by
            simpa using (Prod.ext_iff.mp (Option.some.inj h)).2.symm
          rw [htext, inv.crc_eq, hend, Int.toNat_natCast, List.take_length]
          rfl
      | error exit =>
          obtain ⟨cs, c, _, _, _, _, hcause⟩ := hres
          rcases hcause with ⟨hexit, _⟩ | ⟨hexit, _⟩ <;> simp [hexit] at h

/-- With every request granted the utility prints. -/
theorem main_prints {vm : VirtualMemory}
    (hgrant : ∀ offset len, vm.mmap offset len = true ∧ vm.munmap offset len = true)
    {fuel : Nat} (hfuel : file.length < fuel) :
    ∃ calls text, main vm file sysconf fuel = some (calls, .printed text) := by
  obtain ⟨⟨s, e⟩, hr, hres⟩ := chunkLoop_terminates vm hfile hpos hlong file.length _
    (LoopInv.init file (pageSize sysconf)) (by simp)
  cases e with
  | finished =>
      refine ⟨s.calls, printf08x (s.crc ^^^ ~~~0#32), ?_⟩
      rw [main, hr fuel hfuel]
  | error exit =>
      obtain ⟨cs, c, _, _, _, _, hcause⟩ := hres
      rcases hcause with ⟨_, hmap⟩ | ⟨_, hunmap⟩
      · simp [(hgrant c.offset c.len).1] at hmap
      · simp [(hgrant c.offset c.len).2] at hunmap

end Runs

theorem hexDigit_injective : ∀ a < 16, ∀ b < 16, hexDigit a = hexDigit b → a = b := by
  decide

/-- The eight digits determine the register. -/
theorem printf08x_injective : Function.Injective printf08x := by
  intro a b h
  have hdigit : ∀ i < 8, (a >>> (4 * (7 - i))).toNat % 16 = (b >>> (4 * (7 - i))).toNat % 16 := by
    intro i hi
    have hget := congrArg (fun text => text[i]?) h
    simp only [printf08x, List.getElem?_map, List.getElem?_range hi, Option.map_some,
      Option.some.injEq] at hget
    exact hexDigit_injective _ (Nat.mod_lt _ (by decide)) _ (Nat.mod_lt _ (by decide)) hget
  simp only [BitVec.toNat_ushiftRight, Nat.shiftRight_eq_div_pow] at hdigit
  apply BitVec.eq_of_toNat_eq
  refine eq_of_digits 16 8 a.isLt b.isLt ?_
  intro i hi
  have hpow : 2 ^ (4 * (7 - (7 - i))) = 16 ^ i := by
    rw [Nat.pow_mul]
    congr 1
    omega
  have hpos := hdigit (7 - i) (by omega)
  rwa [hpow] at hpos

/-- Lists that agree outside a window differ in the window alone. -/
theorem split_window {xs ys : List UInt8} (start width : Nat)
    (hwindow : ∀ i, xs[i]? ≠ ys[i]? → start ≤ i ∧ i < start + width) :
    xs.take start = ys.take start ∧ xs.drop (start + width) = ys.drop (start + width) := by
  constructor
  · apply List.ext_getElem?
    intro i
    rw [List.getElem?_take, List.getElem?_take]
    split
    · rename_i hi
      by_contra hne
      exact absurd (hwindow i hne).1 (by omega)
    · rfl
  · apply List.ext_getElem?
    intro i
    rw [List.getElem?_drop, List.getElem?_drop]
    by_contra hne
    exact absurd (hwindow _ hne).2 (by omega)

theorem polynomial_top : polynomial.getLsbD (32 - 1) = true := by
  decide

/-- CRC-32 tells files apart that differ only inside four consecutive bytes. -/
theorem crc32Reference_ne_of_burst {xs ys : List UInt8} (hlen : xs.length = ys.length)
    (hne : xs ≠ ys) (start : Nat)
    (hwindow : ∀ i, xs[i]? ≠ ys[i]? → start ≤ i ∧ i < start + 4) :
    crc32Reference xs ≠ crc32Reference ys := by
  obtain ⟨hbefore, hafter⟩ := split_window start 4 hwindow
  have hsplit (zs : List UInt8) :
      zs = zs.take start ++ (zs.drop start).take 4 ++ zs.drop (start + 4) := by
    rw [List.append_assoc, ← List.drop_drop, List.take_append_drop, List.take_append_drop]
  have hpart : (xs.drop start).take 4 ≠ (ys.drop start).take 4 := by
    intro heq
    apply hne
    rw [hsplit xs, hbefore, heq, hafter, ← hsplit ys]
  intro h
  have hfeed : feed polynomial 0xFFFFFFFF#32 xs = feed polynomial 0xFFFFFFFF#32 ys :=
    (BitVec.xor_left_inj _).mp h
  rw [hsplit xs, hsplit ys, hbefore, hafter] at hfeed
  refine feed_ne_of_burst polynomial_top _ _ _ ?_ ?_ hpart hfeed
  · simp [hlen]
  · simp
    omega

/-- Files of one length that differ, with all differing bytes inside four
consecutive ones, never print the same checksum, and both runs do print when
the system grants their requests. -/
theorem main_detects_bursts (vm vm' : VirtualMemory) (xs ys : List UInt8) (sysconf sysconf' : Int)
    (hlen : xs.length = ys.length) (hne : xs ≠ ys) (start : Nat)
    (hwindow : ∀ i, xs[i]? ≠ ys[i]? → start ≤ i ∧ i < start + 4)
    (hfile : (xs.length : Int) < 2 ^ 63)
    (hpos : 0 < pageSize sysconf) (hlong : pageSize sysconf < 2 ^ 63)
    (hpos' : 0 < pageSize sysconf') (hlong' : pageSize sysconf' < 2 ^ 63) :
    (∀ fuel fuel' calls calls' text text',
      main vm xs sysconf fuel = some (calls, .printed text) →
      main vm' ys sysconf' fuel' = some (calls', .printed text') → text ≠ text') ∧
    ((∀ offset len, vm.mmap offset len = true ∧ vm.munmap offset len = true) →
      (∀ offset len, vm'.mmap offset len = true ∧ vm'.munmap offset len = true) →
      ∀ fuel, xs.length < fuel → ∃ calls calls' text text',
        main vm xs sysconf fuel = some (calls, .printed text) ∧
        main vm' ys sysconf' fuel = some (calls', .printed text') ∧ text ≠ text') := by
  have hfile' : (ys.length : Int) < 2 ^ 63 := hlen ▸ hfile
  have hdiffer : ∀ fuel fuel' calls calls' text text',
      main vm xs sysconf fuel = some (calls, .printed text) →
      main vm' ys sysconf' fuel' = some (calls', .printed text') → text ≠ text' := by
    intro fuel fuel' calls calls' text text' hx hy heq
    rw [printed_eq hfile hpos hlong hx, printed_eq hfile' hpos' hlong' hy] at heq
    exact crc32Reference_ne_of_burst hlen hne start hwindow (printf08x_injective heq)
  refine ⟨hdiffer, ?_⟩
  intro hgrant hgrant' fuel hfuel
  obtain ⟨calls, text, hx⟩ := main_prints hfile hpos hlong hgrant hfuel
  obtain ⟨calls', text', hy⟩ := main_prints hfile' hpos' hlong' hgrant' (hlen ▸ hfuel)
  exact ⟨calls, calls', text, text', hx, hy, hdiffer _ _ _ _ _ _ hx hy⟩

/-- Two files of six bytes that differ in the second and the fifth. -/
theorem main_detects_bursts_six_bytes :
    let vm : VirtualMemory := ⟨fun _ _ => true, fun _ _ => true⟩
    let xs : List UInt8 := [0x31, 0x32, 0x33, 0x34, 0x35, 0x36]
    let ys : List UInt8 := [0x31, 0x42, 0x33, 0x34, 0x75, 0x36]
    (∀ fuel fuel' calls calls' text text',
      main vm xs 4096 fuel = some (calls, .printed text) →
      main vm ys 4096 fuel' = some (calls', .printed text') → text ≠ text') ∧
    ((∀ offset len, vm.mmap offset len = true ∧ vm.munmap offset len = true) →
      (∀ offset len, vm.mmap offset len = true ∧ vm.munmap offset len = true) →
      ∀ fuel, xs.length < fuel → ∃ calls calls' text text',
        main vm xs 4096 fuel = some (calls, .printed text) ∧
        main vm ys 4096 fuel = some (calls', .printed text') ∧ text ≠ text') := by
  intro vm xs ys
  have hsame : ∀ i < 6, ¬(1 ≤ i ∧ i < 1 + 4) → xs[i]? = ys[i]? := by decide
  refine main_detects_bursts vm vm xs ys 4096 4096 rfl (by decide) 1 ?_
    (by decide) (by decide) (by decide) (by decide) (by decide)
  intro i hi
  by_contra hout
  apply hi
  rcases Nat.lt_or_ge i 6 with hlt | hge
  · exact hsame i hlt hout
  · rw [List.getElem?_eq_none hge, List.getElem?_eq_none hge]

end OtusCProg.Crc32
