import OtusCProg.RingbufDriver.Model
import OtusCProg.Library.CyclicWindow
import OtusCProg.Library.DropOldest

/-!
# The driver refines a drop-oldest queue

The unread bytes are a cyclic window of the block. A write stores into the
cells behind that window, in at most two pieces, after it has moved the start
of the window far enough. Faulting copies may spoil only those cells.
-/

namespace OtusCProg.RingbufDriver
open Library Library.CyclicWindow Library.MachineInt

/-- The cells of a block. -/
def cells (data : List UInt8) (i : Nat) : UInt8 := data.getD i 0

/-- The bytes that reads would return, in order. -/
def RingBuffer.contents (rb : RingBuffer) : List UInt8 :=
  match rb.data with
  | none => []
  | some data => window (cells data) rb.size rb.read_pos rb.count

/-- The representation invariant of `struct ring_buffer`. -/
structure RepInv (rb : RingBuffer) : Prop where
  size_pos : 0 < rb.size
  size_le : rb.size ≤ 65536
  block_length : ∀ data, rb.data = some data → data.length = rb.size
  count_le : rb.count ≤ rb.size
  read_lt : rb.read_pos < rb.size
  write_eq : rb.write_pos = (rb.read_pos + rb.count) % rb.size

theorem RepInv.write_lt {rb : RingBuffer} (inv : RepInv rb) : rb.write_pos < rb.size := by
  rw [inv.write_eq]
  exact Nat.mod_lt _ inv.size_pos

theorem contents_of_data {rb : RingBuffer} {data : List UInt8} (h : rb.data = some data) :
    rb.contents = window (cells data) rb.size rb.read_pos rb.count := by
  simp [RingBuffer.contents, h]

theorem length_contents {rb : RingBuffer} {data : List UInt8} (h : rb.data = some data) :
    rb.contents.length = rb.count := by
  rw [contents_of_data h, length_window]

theorem length_store {data bytes : List UInt8} {pos : Nat} (h : pos + bytes.length ≤ data.length) :
    (store data pos bytes).length = data.length := by
  simp only [store, List.length_append, List.length_take, List.length_drop]
  omega

/-- Storing changes exactly the cells it covers. -/
theorem cells_store {data bytes : List UInt8} {pos : Nat} (h : pos + bytes.length ≤ data.length)
    (i : Nat) :
    cells (store data pos bytes) i =
      if pos ≤ i ∧ i < pos + bytes.length then bytes.getD (i - pos) 0 else cells data i := by
  have hpos : (data.take pos).length = pos := by rw [List.length_take]; omega
  unfold cells store
  rw [List.append_assoc]
  by_cases hlow : i < pos
  · rw [List.getD_append _ _ _ _ (by omega), if_neg (by omega)]
    simp only [List.getD_eq_getElem?_getD, List.getElem?_take, if_pos hlow]
  · rw [List.getD_append_right _ _ _ _ (by omega), hpos]
    by_cases hin : i < pos + bytes.length
    · rw [List.getD_append _ _ _ _ (by omega), if_pos ⟨by omega, hin⟩]
    · rw [List.getD_append_right _ _ _ _ (by omega), if_neg (by omega)]
      simp only [List.getD_eq_getElem?_getD, List.getElem?_drop]
      congr 2
      omega

section CopyIn
variable (k : Kernel) (rb : RingBuffer) (data ubuf : List UInt8) (len : Nat)

/-- The block after the first piece of a write. -/
def afterPart1 : List UInt8 :=
  let to_write := min len (rb.size - rb.write_pos)
  store data rb.write_pos (copied ubuf to_write k.fault1)

/-- The block after both pieces of a write. -/
def afterPart2 : List UInt8 :=
  let to_write := min len (rb.size - rb.write_pos)
  store (afterPart1 k rb data ubuf len) 0
    (copied (ubuf.drop to_write) (len - to_write) k.fault2)

theorem transferred_le (fault : Option Nat) (n : Nat) : transferred fault n ≤ n := by
  cases fault with
  | none => exact le_rfl
  | some k => exact Nat.min_le_right k n

/-- A copy stays in its destination, zeros included. -/
theorem length_copied_le (ubuf : List UInt8) (n : Nat) (fault : Option Nat) :
    (copied ubuf n fault).length ≤ n := by
  have hle := transferred_le fault n
  rw [copied, List.length_append, List.length_take, List.length_replicate]
  omega

theorem copied_of_whole {fault : Option Nat} {n : Nat} (h : transferred fault n = n)
    (ubuf : List UInt8) : copied ubuf n fault = ubuf.take n := by
  rw [copied, h, Nat.sub_self, List.replicate_zero, List.append_nil]

variable {k rb data ubuf len}

/-- A cell that no position of the write covers keeps its value, whatever faults. -/
theorem cells_outside (hdata : data.length = rb.size) (hwrite : rb.write_pos < rb.size)
    (hlen : len ≤ rb.size) {x : Nat} (hx : x < rb.size)
    (hout : ∀ j < len, x ≠ (rb.write_pos + j) % rb.size) :
    cells (afterPart1 k rb data ubuf len) x = cells data x ∧
      cells (afterPart2 k rb data ubuf len) x = cells data x := by
  have hlen1 := length_copied_le ubuf (min len (rb.size - rb.write_pos)) k.fault1
  have hlen2 := length_copied_le (ubuf.drop (min len (rb.size - rb.write_pos)))
    (len - min len (rb.size - rb.write_pos)) k.fault2
  have h1 : cells (afterPart1 k rb data ubuf len) x = cells data x := by
    rw [afterPart1, cells_store (by omega), if_neg]
    rintro ⟨hlow, hhigh⟩
    apply hout (x - rb.write_pos) (by omega)
    rw [Nat.add_sub_cancel' hlow, Nat.mod_eq_of_lt hx]
  refine ⟨h1, ?_⟩
  have hlength : (afterPart1 k rb data ubuf len).length = rb.size := by
    rw [afterPart1, length_store (by omega), hdata]
  rw [afterPart2, cells_store (by omega), if_neg, h1]
  rintro ⟨_, hhigh⟩
  apply hout (rb.size - rb.write_pos + x) (by omega)
  have hsum : rb.write_pos + (rb.size - rb.write_pos + x) = x + rb.size := by omega
  rw [hsum, Nat.add_mod_right, Nat.mod_eq_of_lt hx]

/-- When both pieces are copied whole, the user bytes fill the cells behind the
write position. -/
theorem cells_inside (hdata : data.length = rb.size) (hwrite : rb.write_pos < rb.size)
    (hlen : len ≤ rb.size) (hubuf : ubuf.length = len)
    (ht1 : transferred k.fault1 (min len (rb.size - rb.write_pos)) =
      min len (rb.size - rb.write_pos))
    (ht2 : transferred k.fault2 (len - min len (rb.size - rb.write_pos)) =
      len - min len (rb.size - rb.write_pos)) {j : Nat} (hj : j < len) :
    cells (afterPart2 k rb data ubuf len) ((rb.write_pos + j) % rb.size) = ubuf.getD j 0 := by
  have hlen1 : (ubuf.take (min len (rb.size - rb.write_pos))).length =
      min len (rb.size - rb.write_pos) := by
    rw [List.length_take]
    omega
  have hlen2 : ((ubuf.drop (min len (rb.size - rb.write_pos))).take
      (len - min len (rb.size - rb.write_pos))).length =
      len - min len (rb.size - rb.write_pos) := by
    rw [List.length_take, List.length_drop]
    omega
  have hlength : (afterPart1 k rb data ubuf len).length = rb.size := by
    rw [afterPart1, copied_of_whole ht1, length_store (by omega), hdata]
  rw [afterPart2, copied_of_whole ht2, cells_store (by omega)]
  by_cases hwrap : rb.write_pos + j < rb.size
  · -- the byte lies in the first piece, which the second piece does not reach
    rw [Nat.mod_eq_of_lt hwrap, if_neg (by omega), afterPart1, copied_of_whole ht1,
      cells_store (by omega), if_pos (by omega), Nat.add_sub_cancel_left]
    simp only [List.getD_eq_getElem?_getD, List.getElem?_take]
    rw [if_pos (by omega)]
  · have hmod : (rb.write_pos + j) % rb.size = rb.write_pos + j - rb.size := by
      rw [Nat.mod_eq_sub_mod (by omega), Nat.mod_eq_of_lt (by omega)]
    rw [hmod, if_pos (by omega), Nat.sub_zero]
    simp only [List.getD_eq_getElem?_getD, List.getElem?_take, List.getElem?_drop]
    rw [if_pos (by omega)]
    congr 2
    omega

theorem length_afterPart (k : Kernel) (ubuf : List UInt8) (hdata : data.length = rb.size) (hwrite : rb.write_pos < rb.size)
    (hlen : len ≤ rb.size) :
    (afterPart1 k rb data ubuf len).length = rb.size ∧
      (afterPart2 k rb data ubuf len).length = rb.size := by
  have hlen1 := length_copied_le ubuf (min len (rb.size - rb.write_pos)) k.fault1
  have hlen2 := length_copied_le (ubuf.drop (min len (rb.size - rb.write_pos)))
    (len - min len (rb.size - rb.write_pos)) k.fault2
  have h1 : (afterPart1 k rb data ubuf len).length = rb.size := by
    rw [afterPart1, length_store (by omega), hdata]
  refine ⟨h1, ?_⟩
  rw [afterPart2, length_store (by omega), h1]

/-- The two copies of a write in one expression. -/
theorem copyIn_eq :
    copyIn k rb data ubuf len =
      let to_write := min len (rb.size - rb.write_pos)
      if to_write - transferred k.fault1 to_write ≠ 0 then
        ({ rb with data := some (afterPart1 k rb data ubuf len) }, 0)
      else if len - to_write - transferred k.fault2 (len - to_write) ≠ 0 then
        ({ rb with data := some (afterPart2 k rb data ubuf len) }, 0)
      else
        ({ rb with
            data := some (afterPart2 k rb data ubuf len)
            write_pos := (rb.write_pos + len) % rb.size
            count := rb.count + len }, len) := by
  unfold copyIn copy_from_user afterPart2 afterPart1
  simp only
  by_cases hpart2 : len - min len (rb.size - rb.write_pos) = 0
  · have hnothing : transferred k.fault2 0 = 0 := Nat.eq_zero_of_le_zero (transferred_le _ _)
    simp [hpart2, store, copied, hnothing]
  · simp only [ne_eq, hpart2, not_false_eq_true, if_true]

/-- The cells of the unread bytes are not covered by a write that fits. -/
theorem unread_outside (inv : RepInv rb) (hroom : len ≤ ringbuf_space rb) {i : Nat}
    (hi : i < rb.count) :
    ∀ j < len, (rb.read_pos + i) % rb.size ≠ (rb.write_pos + j) % rb.size := by
  intro j hj heq
  have hcount := inv.count_le
  rw [ringbuf_space] at hroom
  rw [inv.write_eq, Nat.mod_add_mod, Nat.add_assoc] at heq
  have := add_mod_injective (by omega) (by omega) heq
  omega

/-- A block with the same unread bytes may take the place of the old one. -/
theorem RepInv.setData (inv : RepInv rb) (hdata : rb.data = some data) {data' : List UInt8}
    (hlength : data'.length = rb.size)
    (hcells : ∀ i < rb.count, cells data' ((rb.read_pos + i) % rb.size) =
      cells data ((rb.read_pos + i) % rb.size)) :
    RepInv { rb with data := some data' } ∧
      RingBuffer.contents { rb with data := some data' } = rb.contents := by
  constructor
  · refine ⟨inv.size_pos, inv.size_le, ?_, inv.count_le, inv.read_lt, inv.write_eq⟩
    intro block hsome
    rw [← Option.some.inj hsome, hlength]
  · rw [contents_of_data rfl, contents_of_data hdata]
    exact window_congr hcells

/-- What a write does once room was made: either all bytes are appended, or a
fault lets it return zero with the unread bytes as they were. -/
theorem copyIn_cases (inv : RepInv rb) (hdata : rb.data = some data)
    (hubuf : ubuf.length = len) (hroom : len ≤ ringbuf_space rb) :
    RepInv (copyIn k rb data ubuf len).1 ∧
      (copyIn k rb data ubuf len).1.size = rb.size ∧
      (copyIn k rb data ubuf len).1.data.isSome ∧
      ((copyIn k rb data ubuf len).2 = len ∧
          (copyIn k rb data ubuf len).1.contents = rb.contents ++ ubuf ∨
        (copyIn k rb data ubuf len).2 = 0 ∧
          (copyIn k rb data ubuf len).1.contents = rb.contents ∧
          (k.fault1 ≠ none ∨ k.fault2 ≠ none)) := by
  have hblock := inv.block_length data hdata
  have hwrite := inv.write_lt
  have hcount := inv.count_le
  have hspace : len ≤ rb.size - rb.count := hroom
  obtain ⟨hlen1, hlen2⟩ := length_afterPart k ubuf hblock hwrite
    (show len ≤ rb.size by omega)
  have hout : ∀ i < rb.count,
      cells (afterPart1 k rb data ubuf len) ((rb.read_pos + i) % rb.size) =
          cells data ((rb.read_pos + i) % rb.size) ∧
        cells (afterPart2 k rb data ubuf len) ((rb.read_pos + i) % rb.size) =
          cells data ((rb.read_pos + i) % rb.size) := fun i hi =>
    cells_outside hblock hwrite (by omega) (Nat.mod_lt _ inv.size_pos)
      (unread_outside inv hroom hi)
  rw [copyIn_eq]
  simp only
  split
  · rename_i hpart1
    obtain ⟨hinv, hcontents⟩ := inv.setData hdata hlen1 fun i hi => (hout i hi).1
    refine ⟨hinv, rfl, rfl, Or.inr ⟨rfl, hcontents, Or.inl ?_⟩⟩
    intro hnone
    simp [hnone, transferred] at hpart1
  · split
    · rename_i hpart2
      obtain ⟨hinv, hcontents⟩ := inv.setData hdata hlen2 fun i hi => (hout i hi).2
      refine ⟨hinv, rfl, rfl, Or.inr ⟨rfl, hcontents, Or.inr ?_⟩⟩
      intro hnone
      simp [hnone, transferred] at hpart2
    · rename_i hpart1 hpart2
      have ht1 := transferred_le k.fault1 (min len (rb.size - rb.write_pos))
      have ht2 := transferred_le k.fault2 (len - min len (rb.size - rb.write_pos))
      refine ⟨⟨inv.size_pos, inv.size_le, ?_, ?_, inv.read_lt, ?_⟩, rfl, rfl, Or.inl ⟨rfl, ?_⟩⟩
      · intro block hsome
        rw [← Option.some.inj hsome, hlen2]
      · change rb.count + len ≤ rb.size
        omega
      · change (rb.write_pos + len) % rb.size = (rb.read_pos + (rb.count + len)) % rb.size
        rw [inv.write_eq, Nat.mod_add_mod, Nat.add_assoc]
      · rw [contents_of_data rfl, contents_of_data hdata]
        change window _ rb.size rb.read_pos (rb.count + len) = _
        rw [window_add]
        congr 1
        · exact window_congr fun i hi => (hout i hi).2
        · rw [← window_mod_start, ← inv.write_eq, ← hubuf]
          apply window_eq_of_cells
          intro j hj
          rw [hubuf, cells_inside hblock hwrite (by omega) hubuf (by omega) (by omega)
            (by omega), List.getD_eq_getElem _ _ hj]

end CopyIn

section Operations
variable {k : Kernel} {rb : RingBuffer} {ubuf : List UInt8} {len : Nat}

/-- Making room drops the oldest unread bytes that do not fit beside `len` new ones. -/
theorem makeRoom_spec (len : Nat) (inv : RepInv rb) (hsome : rb.data.isSome) (hlen : len ≤ rb.size) :
    RepInv (makeRoom rb len) ∧ (makeRoom rb len).size = rb.size ∧
      (makeRoom rb len).data = rb.data ∧ len ≤ ringbuf_space (makeRoom rb len) ∧
      (makeRoom rb len).contents = rb.contents.drop (rb.count + len - rb.size) := by
  obtain ⟨data, hdata⟩ := Option.isSome_iff_exists.mp hsome
  have hcount := inv.count_le
  unfold makeRoom ringbuf_space
  split
  · rename_i hexcess
    have hsub : len - (rb.size - rb.count) = rb.count + len - rb.size := by omega
    refine ⟨⟨inv.size_pos, inv.size_le, inv.block_length, by simp only; omega,
      Nat.mod_lt _ inv.size_pos, ?_⟩, rfl, rfl, by simp only; omega, ?_⟩
    · have hsum : rb.read_pos + (len - (rb.size - rb.count)) +
          (rb.count - (len - (rb.size - rb.count))) = rb.read_pos + rb.count := by omega
      simp only [Nat.mod_add_mod, hsum]
      exact inv.write_eq
    · simp only [RingBuffer.contents, hdata, window_mod_start, hsub]
      exact (drop_window (cells data) rb.size rb.read_pos (by omega)).symm
  · have hzero : rb.count + len - rb.size = 0 := by omega
    exact ⟨inv, rfl, rfl, by omega, by rw [hzero, List.drop_zero]⟩

/-- A write appends and keeps the newest bytes; after a fault it returns zero
and the bytes it made room for are gone. -/
theorem ringbuf_write_cases (inv : RepInv rb) (hsome : rb.data.isSome)
    (hubuf : ubuf.length = len) :
    RepInv (ringbuf_write k rb ubuf len).1 ∧
      (ringbuf_write k rb ubuf len).1.size = rb.size ∧
      (ringbuf_write k rb ubuf len).1.data.isSome ∧
      ((ringbuf_write k rb ubuf len).2 = min len rb.size ∧
          (ringbuf_write k rb ubuf len).1.contents = lastN rb.size (rb.contents ++ ubuf) ∨
        (ringbuf_write k rb ubuf len).2 = 0 ∧
          (ringbuf_write k rb ubuf len).1.contents =
            rb.contents.drop (rb.count + min len rb.size - rb.size) ∧
          (k.fault1 ≠ none ∨ k.fault2 ≠ none)) := by
  obtain ⟨data, hdata⟩ := Option.isSome_iff_exists.mp hsome
  have hcount := inv.count_le
  have hlength := length_contents hdata
  by_cases hzero : len = 0
  · have hnil : ubuf = [] := List.eq_nil_of_length_eq_zero (by omega)
    have hkeep : lastN rb.size (rb.contents ++ ubuf) = rb.contents := by
      rw [lastN_append_of_le _ (by omega), hubuf, hlength, hzero, hnil, List.append_nil]
      rw [show rb.count + 0 - rb.size = 0 by omega, List.drop_zero]
    simp only [ringbuf_write, hdata, if_pos hzero]
    exact ⟨inv, trivial, rfl, Or.inl ⟨by omega, hkeep.symm⟩⟩
  · -- from here on the write is one of the last `n` user bytes
    obtain ⟨n, user, hn, huser, hwrite, hlast⟩ : ∃ n user, n = min len rb.size ∧
        user.length = n ∧
        ringbuf_write k rb ubuf len = copyIn k (makeRoom rb n) data user n ∧
        lastN rb.size (rb.contents ++ ubuf) =
          rb.contents.drop (rb.count + n - rb.size) ++ user := by
      by_cases hlong : len > rb.size
      · refine ⟨rb.size, ubuf.drop (len - rb.size), by omega,
          by rw [List.length_drop]; omega, ?_, ?_⟩
        · simp only [ringbuf_write, hdata, if_neg hzero, if_pos hlong]
        · have hnil : rb.contents.drop (rb.count + rb.size - rb.size) = [] :=
            List.drop_eq_nil_of_le (by omega)
          rw [lastN_append_of_ge _ (by omega), lastN, hubuf, hnil, List.nil_append]
      · refine ⟨len, ubuf, by omega, hubuf, ?_, ?_⟩
        · simp only [ringbuf_write, hdata, if_neg hzero, if_neg hlong]
        · rw [lastN_append_of_le _ (by omega), hubuf, hlength]
    obtain ⟨hinv, hsize, hsame, hroom, hcontents⟩ :=
      makeRoom_spec n inv hsome (by omega)
    obtain ⟨hinv', hsize', hsome', hresult⟩ :=
      copyIn_cases (k := k) hinv (hsame.trans hdata) huser hroom
    rw [hwrite]
    refine ⟨hinv', hsize'.trans hsize, hsome', ?_⟩
    rcases hresult with ⟨hret, happend⟩ | ⟨hret, hkept, hfault⟩
    · exact Or.inl ⟨hret.trans hn, by rw [happend, hcontents, hlast]⟩
    · exact Or.inr ⟨hret, by rw [hkept, hcontents, hn], hfault⟩

/-- A window that does not reach the end of the block is a plain slice of it. -/
theorem window_eq_slice {data : List UInt8} {size start n : Nat} (hlen : data.length = size)
    (hend : start + n ≤ size) :
    window (cells data) size start n = (data.drop start).take n := by
  have hslice : ((data.drop start).take n).length = n := by
    rw [List.length_take, List.length_drop]
    omega
  conv_lhs => rw [← hslice]
  apply window_eq_of_cells
  intro i hi
  rw [hslice] at hi
  rw [Nat.mod_eq_of_lt (by omega), cells, List.getD_eq_getElem _ _ (by omega)]
  simp

/-- The two copies of a read in one expression. -/
theorem copyOut_eq (data : List UInt8) (avail : Nat) :
    copyOut k rb data avail =
      let part1 := min avail (rb.size - rb.read_pos)
      let bytes1 := (data.drop rb.read_pos).take (transferred k.fault1 part1)
      let bytes2 := (data.drop 0).take (transferred k.fault2 (avail - part1))
      if part1 - transferred k.fault1 part1 ≠ 0 then (0, bytes1)
      else if avail - part1 - transferred k.fault2 (avail - part1) ≠ 0 then (0, bytes1 ++ bytes2)
      else (avail, bytes1 ++ bytes2) := by
  unfold copyOut copy_to_user
  simp only
  by_cases hpart2 : avail - min avail (rb.size - rb.read_pos) = 0
  · simp [hpart2, transferred]
    cases k.fault2 <;> simp
  · simp only [ne_eq, hpart2, not_false_eq_true, if_true]

/-- The oldest bytes lie in the block in at most two slices. -/
theorem contents_take_eq (inv : RepInv rb) {data : List UInt8} (hdata : rb.data = some data)
    {avail : Nat} (havail : avail ≤ rb.count) :
    rb.contents.take avail =
      (data.drop rb.read_pos).take (min avail (rb.size - rb.read_pos)) ++
        (data.drop 0).take (avail - min avail (rb.size - rb.read_pos)) := by
  have hblock := inv.block_length data hdata
  have hread := inv.read_lt
  have hcount := inv.count_le
  let part1 := min avail (rb.size - rb.read_pos)
  rw [contents_of_data hdata, take_window, Nat.min_eq_left havail]
  conv_lhs => rw [show avail = part1 + (avail - part1) by omega]
  rw [window_add, window_eq_slice hblock (by omega)]
  congr 1
  by_cases hwrap : avail - part1 = 0
  · rw [show avail - min avail (rb.size - rb.read_pos) = 0 from hwrap, window_zero, List.take_zero]
  · have hstart : rb.read_pos + part1 = rb.size := by omega
    rw [hstart, ← window_mod_start, Nat.mod_self, window_eq_slice hblock (by omega)]

/-- Reading either delivers the oldest bytes in order, or faults and returns zero. -/
theorem ringbuf_peek_cases (len : Nat) (inv : RepInv rb) (hsome : rb.data.isSome) :
    ringbuf_peek k rb len = (min len rb.count, rb.contents.take (min len rb.count)) ∨
      (ringbuf_peek k rb len).1 = 0 ∧ (k.fault1 ≠ none ∨ k.fault2 ≠ none) := by
  obtain ⟨data, hdata⟩ := Option.isSome_iff_exists.mp hsome
  by_cases hzero : min len rb.count = 0
  · left
    by_cases hempty : rb.count = 0
    · simp [ringbuf_peek, hdata, ringbuf_empty, hempty]
    · simp [ringbuf_peek, hdata, ringbuf_empty, hempty, hzero]
  · have hempty : rb.count ≠ 0 := by omega
    have hpeek : ringbuf_peek k rb len = copyOut k rb data (min len rb.count) := by
      simp [ringbuf_peek, hdata, ringbuf_empty, hempty, hzero]
    rw [hpeek, contents_take_eq inv hdata (Nat.min_le_right _ _), copyOut_eq]
    simp only
    split
    · rename_i hpart1
      refine Or.inr ⟨rfl, Or.inl ?_⟩
      intro hnone
      simp [hnone, transferred] at hpart1
    · split
      · rename_i hpart2
        refine Or.inr ⟨rfl, Or.inr ?_⟩
        intro hnone
        simp [hnone, transferred] at hpart2
      · left
        have ht1 := transferred_le k.fault1 (min (min len rb.count) (rb.size - rb.read_pos))
        have ht2 := transferred_le k.fault2
          (min len rb.count - min (min len rb.count) (rb.size - rb.read_pos))
        congr 3 <;> omega

/-- Discarding moves the window past the bytes that were read. -/
theorem ringbuf_discard_spec (inv : RepInv rb) (hsome : rb.data.isSome) (hlen : len ≤ rb.count) :
    RepInv (ringbuf_discard rb len) ∧ (ringbuf_discard rb len).size = rb.size ∧
      (ringbuf_discard rb len).data.isSome ∧
      (ringbuf_discard rb len).contents = rb.contents.drop len := by
  obtain ⟨data, hdata⟩ := Option.isSome_iff_exists.mp hsome
  have hcount := inv.count_le
  have hbranch : ringbuf_discard rb len =
      { rb with read_pos := (rb.read_pos + len) % rb.size, count := rb.count - len } := by
    simp [ringbuf_discard, hdata, Nat.not_lt.mpr hlen]
  rw [hbranch]
  refine ⟨⟨inv.size_pos, inv.size_le, inv.block_length, by simp only; omega,
    Nat.mod_lt _ inv.size_pos, ?_⟩, rfl, hsome, ?_⟩
  · have hsum : rb.read_pos + len + (rb.count - len) = rb.read_pos + rb.count := by omega
    simp only [Nat.mod_add_mod, hsum]
    exact inv.write_eq
  · simp only [RingBuffer.contents, hdata, window_mod_start]
    exact (drop_window (cells data) rb.size rb.read_pos hlen).symm

end Operations

section Driver
variable {k : Kernel} {d : Driver}

@[simp] theorem dev_open_state (d : Driver) : (dev_open d).1 = d := by
  unfold dev_open
  split <;> rfl

@[simp] theorem dev_llseek_rb (k : Kernel) (d : Driver) (file : Nat) (off whence : Int) :
    (dev_llseek k d file off whence).1.rb = d.rb := by
  unfold dev_llseek
  repeat' split
  all_goals rfl

/-- A positive result of `ringbuf_peek` is at most the number of unread bytes. -/
theorem ringbuf_peek_le (inv : RepInv d.rb) (len : Nat) (hpos : 0 < (ringbuf_peek k d.rb len).1) :
    (ringbuf_peek k d.rb len).1 ≤ d.rb.count ∧ d.rb.data.isSome := by
  cases hdata : d.rb.data with
  | none => simp [ringbuf_peek, hdata] at hpos
  | some data =>
      rcases ringbuf_peek_cases (k := k) len inv (by rw [hdata]; rfl) with h | h
      · rw [h]
        exact ⟨Nat.min_le_right _ _, rfl⟩
      · omega

/-- A read leaves the buffer alone or discards bytes that were there. -/
theorem dev_read_rb (inv : RepInv d.rb) (file len : Nat) :
    (dev_read k d file len).1.rb = d.rb ∨
      ∃ n ≤ d.rb.count, d.rb.data.isSome ∧
        (dev_read k d file len).1.rb = ringbuf_discard d.rb n := by
  unfold dev_read
  split
  · exact Or.inl rfl
  · simp only
    split
    · rename_i hpos
      have hbound := inv.size_le
      have hcount := inv.count_le
      by_cases hzero : (ringbuf_peek k d.rb len).1 = 0
      · rw [hzero, show toSigned 64 ((0 : Nat) : Int) = 0 from rfl] at hpos
        omega
      · obtain ⟨hle, hsome⟩ := ringbuf_peek_le (k := k) inv len (by omega)
        have hret : toSigned 64 ((ringbuf_peek k d.rb len).1 : Int) =
            (ringbuf_peek k d.rb len).1 := toSigned_of_range (by omega) (by omega)
        refine Or.inr ⟨(ringbuf_peek k d.rb len).1, hle, hsome, ?_⟩
        rw [hret, toUnsigned_natCast, Nat.mod_eq_of_lt (by omega)]
    · exact Or.inl rfl

/-- What setting the parameter can do: fail with the block kept or lost, or
install an empty buffer of the requested size. -/
theorem buf_size_set_cases (k : Kernel) (d : Driver) (val : List Char) :
    (buf_size_set k d val).1.rb = d.rb ∨
      (buf_size_set k d val).1.rb = { d.rb with data := none } ∨
      ∃ (n : Int) (bytes : Nat → UInt8), kstrtoint val = .ok n ∧ 16 ≤ n ∧ n ≤ 65536 ∧
        (buf_size_set k d val).1.rb = ⟨some (block bytes n.toNat), n.toNat, 0, 0, 0⟩ := by
  unfold buf_size_set
  split
  · exact Or.inl rfl
  · rename_i n hn
    split
    · exact Or.inl rfl
    · rename_i hrange
      simp only
      split
      · exact Or.inl rfl
      · split
        · exact Or.inr (Or.inl rfl)
        · rename_i bytes _
          have hconv : toUnsigned 64 n = n.toNat := by
            have := toUnsigned_of_range (w := 64) (x := n) (by omega) (by omega)
            omega
          exact Or.inr (Or.inr ⟨n, bytes, hn, by omega, by omega, by simp only [hconv]⟩)

/-- A new buffer satisfies the invariant. -/
theorem RepInv.empty (bytes : Nat → UInt8) {n : Nat} (hpos : 0 < n) (hle : n ≤ 65536) :
    RepInv ⟨some (block bytes n), n, 0, 0, 0⟩ where
  size_pos := hpos
  size_le := hle
  block_length := by
    intro data hsome
    rw [← Option.some.inj hsome]
    simp [block]
  count_le := Nat.zero_le _
  read_lt := hpos
  write_eq := by simp

/-- Every call keeps the invariant, whether it succeeds, faults or is interrupted. -/
theorem step_inv (inv : RepInv d.rb) (c : Call) : RepInv (step k d c).1.rb := by
  cases c with
  | openFile => simpa [step] using inv
  | read file len =>
      rcases dev_read_rb (k := k) inv file len with h | ⟨n, hn, hsome, h⟩
      · simpa only [step, h] using inv
      · simpa only [step, h] using (ringbuf_discard_spec inv hsome hn).1
  | write file ubuf =>
      simp only [step, dev_write]
      split
      · exact inv
      · cases hdata : d.rb.data with
        | none => simpa [ringbuf_write, hdata] using inv
        | some data => exact (ringbuf_write_cases inv (by rw [hdata]; rfl) rfl).1
  | llseek file off whence => simpa [step] using inv
  | bufSizeSet val =>
      rcases buf_size_set_cases k d val with h | h | ⟨n, bytes, _, hlow, hhigh, h⟩
      · simpa only [step, h] using inv
      · rw [step, h]
        exact ⟨inv.size_pos, inv.size_le, by simp, inv.count_le, inv.read_lt, inv.write_eq⟩
      · rw [step, h]
        exact RepInv.empty bytes (by omega) (by omega)

/-- The invariant holds after any sequence of calls on the loaded driver. -/
theorem run_inv (calls : List (Kernel × Call)) (d : Driver) (inv : RepInv d.rb) :
    RepInv (run d calls).1.rb := by
  induction calls generalizing d with
  | nil => exact inv
  | cons c calls ih => exact ih _ (step_inv inv c.2)

/-- The driver's buffer stores a queue. -/
structure Represents (rb : RingBuffer) (q : DropOldest UInt8) : Prop where
  inv : RepInv rb
  allocated : rb.data.isSome
  size_eq : rb.size = q.capacity
  contents_eq : rb.contents = q.contents

/-- Every allocated buffer in the invariant stores the queue of its unread bytes. -/
theorem exists_represents {rb : RingBuffer} (inv : RepInv rb) (hsome : rb.data.isSome) :
    ∃ q, Represents rb q := by
  obtain ⟨data, hdata⟩ := Option.isSome_iff_exists.mp hsome
  have hbound : rb.contents.length ≤ rb.size := by
    rw [length_contents hdata]
    exact inv.count_le
  exact ⟨⟨rb.size, rb.contents, hbound⟩, inv, hsome, rfl, rfl⟩

/-- The kernel grants the lock, the user copies and the allocation. -/
structure Kernel.Grants (k : Kernel) : Prop where
  lock : k.interrupted = false
  copy1 : k.fault1 = none
  copy2 : k.fault2 = none
  memory : k.kmalloc.isSome

/-- The queue operation that a successful call stands for. -/
def Call.op : Call → Option (DropOldest.Op UInt8)
  | .openFile => none
  | .read _ len => some (.read len)
  | .write _ ubuf => some (.write ubuf)
  | .llseek _ _ _ => some .seek
  | .bufSizeSet val =>
      match kstrtoint val with
      | .error _ => none
      | .ok n => if n < 16 ∨ n > 65536 then none else some (.resize n.toNat)

/-- A reply of the driver says what the queue answered. -/
def Reply.Matches (r : Reply) : DropOldest.Answer UInt8 → Prop
  | .accepted n => r.ret = n
  | .entries xs => r.ret = xs.length ∧ r.bytes = xs
  | .done => True

/-- A granted read returns the oldest bytes in order and removes exactly those. -/
theorem dev_read_granted (inv : RepInv d.rb) (hsome : d.rb.data.isSome) (hk : k.Grants)
    (file len : Nat) :
    (dev_read k d file len).1.rb = ringbuf_discard d.rb (min len d.rb.count) ∧
      (dev_read k d file len).2 =
        ⟨(min len d.rb.count : Nat), d.rb.contents.take (min len d.rb.count)⟩ := by
  have hbound := inv.size_le
  have hcount := inv.count_le
  obtain ⟨data, hdata⟩ := Option.isSome_iff_exists.mp hsome
  have hpeek : ringbuf_peek k d.rb len =
      (min len d.rb.count, d.rb.contents.take (min len d.rb.count)) := by
    rcases ringbuf_peek_cases (k := k) len inv hsome with h | ⟨_, h | h⟩
    · exact h
    · exact absurd hk.copy1 h
    · exact absurd hk.copy2 h
  have hret : toSigned 64 ((min len d.rb.count : Nat) : Int) = (min len d.rb.count : Nat) :=
    toSigned_of_range (by omega) (by omega)
  simp only [dev_read, hk.lock, Bool.false_eq_true, if_false, hpeek, hret]
  split
  · rw [toUnsigned_natCast, Nat.mod_eq_of_lt (by omega)]
    exact ⟨rfl, rfl⟩
  · have hzero : min len d.rb.count = 0 := by omega
    refine ⟨?_, rfl⟩
    rw [hzero, ringbuf_discard, Nat.add_zero, Nat.sub_zero, Nat.mod_eq_of_lt inv.read_lt]
    exact (ite_self _).symm

/-- A granted write keeps the newest bytes and returns how many of its own it stored. -/
theorem dev_write_granted (inv : RepInv d.rb) (hsome : d.rb.data.isSome) (hk : k.Grants)
    (ubuf : List UInt8) :
    RepInv (dev_write k d ubuf).1.rb ∧ (dev_write k d ubuf).1.rb.data.isSome ∧
      (dev_write k d ubuf).1.rb.size = d.rb.size ∧
      (dev_write k d ubuf).1.rb.contents = lastN d.rb.size (d.rb.contents ++ ubuf) ∧
      (dev_write k d ubuf).2.ret = (min ubuf.length d.rb.size : Nat) := by
  have hbound := inv.size_le
  obtain ⟨hinv, hsize, hsome', hcases⟩ := ringbuf_write_cases (k := k) inv hsome
    (show ubuf.length = ubuf.length from rfl)
  have hret : toSigned 64 ((min ubuf.length d.rb.size : Nat) : Int) =
      (min ubuf.length d.rb.size : Nat) := toSigned_of_range (by omega) (by omega)
  simp only [dev_write, hk.lock, Bool.false_eq_true, if_false]
  rcases hcases with ⟨hn, hnew⟩ | ⟨_, _, h | h⟩
  · exact ⟨hinv, hsome', hsize, hnew, by rw [hn, hret]⟩
  · exact absurd hk.copy1 h
  · exact absurd hk.copy2 h

/-- One granted call does to the buffer what its operation does to the queue. -/
theorem step_refines {q : DropOldest UInt8} (hrep : Represents d.rb q) (hk : k.Grants)
    {c : Call} {op : DropOldest.Op UInt8} (hop : c.op = some op) :
    Represents (step k d c).1.rb (q.apply op).1 ∧ (step k d c).2.Matches (q.apply op).2 := by
  obtain ⟨inv, hsome, hsize, hcontents⟩ := hrep
  obtain ⟨data, hdata⟩ := Option.isSome_iff_exists.mp hsome
  have hlength := length_contents hdata
  cases c with
  | openFile => simp [Call.op] at hop
  | read file len =>
      obtain rfl : DropOldest.Op.read len = op := Option.some.inj hop
      obtain ⟨hrb, hreply⟩ := dev_read_granted inv hsome hk file len
      obtain ⟨hinv', hsize', hsome', hcontents'⟩ :=
        ringbuf_discard_spec inv hsome (Nat.min_le_right len d.rb.count)
      have htake : (d.rb.contents.take (min len d.rb.count)).length = min len d.rb.count := by
        rw [List.length_take]
        omega
      simp only [step, DropOldest.apply, ← hcontents, hlength, hreply, Reply.Matches, htake,
        and_self, and_true]
      exact ⟨hrb ▸ hinv', hrb ▸ hsome', hrb ▸ hsize'.trans hsize, hrb ▸ hcontents'⟩
  | write file ubuf =>
      obtain rfl : DropOldest.Op.write ubuf = op := Option.some.inj hop
      obtain ⟨hinv', hsome', hsize', hnew, hret⟩ := dev_write_granted inv hsome hk ubuf
      refine ⟨⟨hinv', hsome', hsize'.trans hsize, ?_⟩, ?_⟩
      · simp only [step, hnew, hsize, hcontents, DropOldest.apply]
      · simp only [step, Reply.Matches, DropOldest.apply, hret, hsize]
  | llseek file off whence =>
      obtain rfl : DropOldest.Op.seek = op := Option.some.inj hop
      refine ⟨?_, trivial⟩
      simp only [step, dev_llseek_rb, DropOldest.apply]
      exact ⟨inv, hsome, hsize, hcontents⟩
  | bufSizeSet val =>
      obtain ⟨bytes, hbytes⟩ := Option.isSome_iff_exists.mp hk.memory
      cases hn : kstrtoint val with
      | error e => simp [Call.op, hn] at hop
      | ok n =>
          by_cases hrange : n < 16 ∨ n > 65536
          · simp [Call.op, hn, hrange] at hop
          · obtain rfl : DropOldest.Op.resize n.toNat = op := by
              simpa only [Call.op, hn, if_neg hrange, Option.some.injEq] using hop
            have hconv : toUnsigned 64 n = n.toNat := by
              have := toUnsigned_of_range (w := 64) (x := n) (by omega) (by omega)
              omega
            simp only [step, buf_size_set, hn, if_neg hrange, hk.lock, hbytes, hconv,
              Bool.false_eq_true, if_false, DropOldest.apply]
            exact ⟨⟨RepInv.empty bytes (by omega) (by omega), rfl, rfl, rfl⟩, trivial⟩

/-- A sequence of granted calls does to the buffer, and answers, what the
queue operations do. -/
theorem run_refines (calls : List (Kernel × Call)) (ops : List (DropOldest.Op UInt8))
    (d : Driver) (q : DropOldest UInt8) (hrep : Represents d.rb q)
    (hgrants : ∀ c ∈ calls, c.1.Grants) (hops : calls.map (·.2.op) = ops.map some) :
    Represents (run d calls).1.rb (q.applyAll ops).1 ∧
      List.Forall₂ Reply.Matches (run d calls).2 (q.applyAll ops).2 := by
  induction calls generalizing ops d q with
  | nil =>
      obtain rfl : ops = [] := by simpa using hops.symm
      exact ⟨hrep, List.Forall₂.nil⟩
  | cons c calls ih =>
      cases ops with
      | nil => simp at hops
      | cons op ops =>
          obtain ⟨hop, hrest⟩ : c.2.op = some op ∧ calls.map (·.2.op) = ops.map some := by
            simpa using hops
          obtain ⟨hstep, hmatch⟩ := step_refines hrep (hgrants c (by simp)) hop
          obtain ⟨hrun, hmatches⟩ := ih ops (step c.1 d c.2).1 (q.apply op).1 hstep
            (fun c hc => hgrants c (by simp [hc])) hrest
          exact ⟨hrun, List.Forall₂.cons hmatch hmatches⟩

/-- From every state that the loaded driver can reach with its block allocated,
any sequence of successful calls keeps the representation invariant and acts
on the unread bytes as a queue that drops its oldest bytes. -/
theorem driver_refines_drop_oldest (bytes : Nat → UInt8) (history calls : List (Kernel × Call))
    (ops : List (DropOldest.Op UInt8))
    (hsome : (run (ringbuf_init bytes) history).1.rb.data.isSome)
    (hgrants : ∀ c ∈ calls, c.1.Grants) (hops : calls.map (·.2.op) = ops.map some) :
    ∃ q, Represents (run (ringbuf_init bytes) history).1.rb q ∧
      Represents (run (run (ringbuf_init bytes) history).1 calls).1.rb (q.applyAll ops).1 ∧
      List.Forall₂ Reply.Matches (run (run (ringbuf_init bytes) history).1 calls).2
        (q.applyAll ops).2 := by
  have inv : RepInv (run (ringbuf_init bytes) history).1.rb :=
    run_inv history _ (RepInv.empty bytes (by decide) (by decide))
  obtain ⟨q, hrep⟩ := exists_represents inv hsome
  exact ⟨q, hrep, run_refines calls ops _ q hrep hgrants hops⟩

/-- A kernel that grants everything and hands out zeroed blocks. -/
def Kernel.granting : Kernel := ⟨false, none, none, some fun _ => 0⟩

theorem Kernel.granting_grants : Kernel.granting.Grants := ⟨rfl, rfl, rfl, rfl⟩

/-- The first calls of the test program, with a resize in between. -/
theorem driver_refines_drop_oldest_test :
    let calls := [(Kernel.granting, Call.write 0 [72, 101, 108, 108, 111]),
      (Kernel.granting, .llseek 0 0 0), (Kernel.granting, .read 0 255),
      (Kernel.granting, .bufSizeSet ['5', '4'])]
    let d := (run (ringbuf_init fun _ => 0) []).1
    ∃ q, Represents d.rb q ∧
      Represents (run d calls).1.rb
        (q.applyAll [.write [72, 101, 108, 108, 111], .seek, .read 255, .resize 54]).1 ∧
      List.Forall₂ Reply.Matches (run d calls).2
        (q.applyAll [.write [72, 101, 108, 108, 111], .seek, .read 255, .resize 54]).2 :=
  driver_refines_drop_oldest (fun _ => 0) []
    [(Kernel.granting, .write 0 [72, 101, 108, 108, 111]), (Kernel.granting, .llseek 0 0 0),
      (Kernel.granting, .read 0 255), (Kernel.granting, .bufSizeSet ['5', '4'])]
    [.write [72, 101, 108, 108, 111], .seek, .read 255, .resize 54]
    rfl (by simp [Kernel.granting_grants]) rfl

/-- Two writes that overflow the initial 16 bytes: the read returns the last 16. -/
example : (run (ringbuf_init fun _ => 0)
    [(Kernel.granting, .write 0 ("Hello".toList.map fun c => UInt8.ofNat c.toNat)),
      (Kernel.granting, .write 0 (", ring buffer world!".toList.map fun c => UInt8.ofNat c.toNat)),
      (Kernel.granting, .read 0 255)]).2[2]? =
    some ⟨16, "ng buffer world!".toList.map fun c => UInt8.ofNat c.toNat⟩ := by
  decide

end Driver

end OtusCProg.RingbufDriver
