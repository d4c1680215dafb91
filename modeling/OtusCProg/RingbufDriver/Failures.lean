import OtusCProg.RingbufDriver.Refinement

/-!
# Calls that fail

`ringbuf_write` makes room before its copies, so a faulting write that had to
make room has lost the oldest bytes. `buf_size_set` frees the old block before
it asks for the new one, so a failed `kmalloc` leaves no block at all. Every
other failure leaves the driver as it was.
-/

namespace OtusCProg.RingbufDriver
open Library Library.MachineInt

section Write
variable {k : Kernel} {d : Driver}

/-- A write without a block does nothing. -/
theorem dev_write_unallocated (hlock : k.interrupted = false) (hnone : d.rb.data = none)
    (ubuf : List UInt8) : dev_write k d ubuf = (d, ⟨0, []⟩) := by
  simp only [dev_write, hlock, ringbuf_write, hnone]
  rfl

/-- The bytes that a write has to drop, to make room for its own. -/
def overflow (rb : RingBuffer) (len : Nat) : Nat := rb.count + min len rb.size - rb.size

/-- Nothing is dropped where the bytes that a write stores fit beside the unread ones. -/
theorem overflow_eq_zero {rb : RingBuffer} (inv : RepInv rb) (len : Nat) :
    overflow rb len = 0 ↔ min len rb.size ≤ ringbuf_space rb := by
  have hcount := inv.count_le
  rw [overflow, ringbuf_space]
  omega

/-- A write that returns zero has stored nothing, but it has made room. -/
theorem dev_write_zero (inv : RepInv d.rb) (hsome : d.rb.data.isSome) (ubuf : List UInt8)
    (hret : (dev_write k d ubuf).2.ret = 0) :
    (dev_write k d ubuf).1.rb.contents = d.rb.contents.drop (overflow d.rb ubuf.length) ∧
      (dev_write k d ubuf).1.rb.count = d.rb.count - overflow d.rb ubuf.length := by
  have hbound := inv.size_le
  have hcount := inv.count_le
  have hpos := inv.size_pos
  obtain ⟨data, hdata⟩ := Option.isSome_iff_exists.mp hsome
  have hlength : d.rb.contents.length = d.rb.count := length_contents hdata
  cases hlock : k.interrupted with
  | true => simp [dev_write, hlock, ERESTARTSYS] at hret
  | false =>
      obtain ⟨_, _, hsome', hcases⟩ :=
        ringbuf_write_cases (k := k) inv hsome (show ubuf.length = ubuf.length from rfl)
      have hcontents : (ringbuf_write k d.rb ubuf ubuf.length).1.contents =
          d.rb.contents.drop (overflow d.rb ubuf.length) := by
        rcases hcases with ⟨hn, hnew⟩ | ⟨_, hnew, _⟩
        · -- nothing was stored because there was nothing to store
          have hzero : toSigned 64 ((min ubuf.length d.rb.size : Nat) : Int) = 0 := by
            simpa [dev_write, hlock, hn] using hret
          rw [toSigned_of_range (by omega) (by omega)] at hzero
          have hnil : ubuf = [] := List.eq_nil_of_length_eq_zero (by omega)
          have hdrop : overflow d.rb ubuf.length = 0 := by
            rw [overflow]
            omega
          rw [hnew, hdrop, hnil, List.append_nil, lastN, hlength,
            Nat.sub_eq_zero_of_le hcount]
        · exact hnew
      obtain ⟨data', hdata'⟩ := Option.isSome_iff_exists.mp hsome'
      have hlength' := length_contents hdata'
      simp only [dev_write, hlock, Bool.false_eq_true, if_false]
      refine ⟨hcontents, ?_⟩
      rw [← hlength', hcontents, List.length_drop, hlength]

/-- A write that returns zero leaves the unread bytes exactly where it needs no room. -/
theorem dev_write_kept_iff (inv : RepInv d.rb) (ubuf : List UInt8)
    (hret : (dev_write k d ubuf).2.ret = 0) :
    ((dev_write k d ubuf).1.rb.contents = d.rb.contents ∧
        (dev_write k d ubuf).1.rb.count = d.rb.count) ↔
      d.rb.data = none ∨ min ubuf.length d.rb.size ≤ ringbuf_space d.rb := by
  cases hdata : d.rb.data with
  | none =>
      cases hlock : k.interrupted with
      | true => simp [dev_write, hlock, ERESTARTSYS] at hret
      | false => simp [dev_write_unallocated hlock hdata]
  | some data =>
      have hcount := inv.count_le
      have hsome : d.rb.data.isSome := by
        rw [hdata]
        rfl
      obtain ⟨hcontents, hleft⟩ := dev_write_zero inv hsome ubuf hret
      rw [hcontents, hleft, ← overflow_eq_zero inv]
      constructor
      · rintro ⟨-, hsame⟩
        right
        rw [overflow] at hsame ⊢
        omega
      · rintro (hnone | hzero)
        · cases hnone
        · rw [hzero]
          exact ⟨rfl, rfl⟩

end Write

/-- From every reachable state, a write that returns zero leaves the unread bytes and their number
if and only if there is no block or the bytes it would store fit in the free space. -/
theorem faulting_write_keeps_iff (bytes : Nat → UInt8) (history : List (Kernel × Call))
    (k : Kernel) (ubuf : List UInt8) :
    let d := (run (ringbuf_init bytes) history).1
    (dev_write k d ubuf).2.ret = 0 →
      (((dev_write k d ubuf).1.rb.contents = d.rb.contents ∧
          (dev_write k d ubuf).1.rb.count = d.rb.count) ↔
        d.rb.data = none ∨ min ubuf.length d.rb.size ≤ ringbuf_space d.rb) := by
  intro d hret
  apply dev_write_kept_iff
  · exact run_inv history _ (RepInv.empty bytes (by decide) (by decide))
  · exact hret

/-- A kernel whose first user copy faults at once. -/
def Kernel.faulting : Kernel := { Kernel.granting with fault1 := some 0 }

/-- Nothing is lost when the faulting write fits beside the unread bytes. -/
theorem faulting_write_keeps_iff_oneByte :
    let d := (run (ringbuf_init fun _ => 0) [(.granting, .write 0 [72])]).1
    ((dev_write .faulting d [33]).1.rb.contents = d.rb.contents ∧
        (dev_write .faulting d [33]).1.rb.count = d.rb.count) ↔
      d.rb.data = none ∨ min 1 d.rb.size ≤ ringbuf_space d.rb :=
  faulting_write_keeps_iff (fun _ => 0) [(.granting, .write 0 [72])] .faulting [33] (by decide)

/-- A faulting write to the full buffer returns zero and drops a byte. -/
theorem faulting_write_drops_byte :
    ¬∀ (bytes : Nat → UInt8) (history : List (Kernel × Call)) (k : Kernel) (ubuf : List UInt8),
      let d := (run (ringbuf_init bytes) history).1
      (dev_write k d ubuf).2.ret = 0 →
        (dev_write k d ubuf).1.rb.contents = d.rb.contents ∧
          (dev_write k d ubuf).1.rb.count = d.rb.count := by
  intro hall
  have hkept := hall (fun _ => 0) [(.granting, .write 0 (List.replicate 16 72))] .faulting [33]
    (by decide)
  exact absurd hkept.2 (by decide)

section Resize
variable (k : Kernel) (d : Driver) (val : List Char)

/-- The size that the string asks for is one that the driver takes. -/
def Accepted (val : List Char) : Prop := ∃ n, kstrtoint val = .ok n ∧ 16 ≤ n ∧ n ≤ 65536

/-- The call gets as far as `kmalloc`, which fails while the old block is gone already. -/
structure LosesBlock : Prop where
  accepted : Accepted val
  locked : k.interrupted = false
  kmalloc : k.kmalloc = none
  data : d.rb.data ≠ none

variable {k d val}

/-- What a call does that loses the block. -/
theorem LosesBlock.buf_size_set (h : LosesBlock k d val) :
    buf_size_set k d val = ({ d with rb := { d.rb with data := none } }, ⟨-ENOMEM, []⟩) := by
  obtain ⟨n, hn, hlow, hhigh⟩ := h.accepted
  have hrange : ¬(n < 16 ∨ n > 65536) := by omega
  simp only [RingbufDriver.buf_size_set, hn, if_neg hrange, h.locked, Bool.false_eq_true, if_false,
    h.kmalloc]

/-- Any other call that fails leaves the driver as it was. -/
theorem buf_size_set_failed (h : ¬LosesBlock k d val) (hret : (buf_size_set k d val).2.ret < 0) :
    (buf_size_set k d val).1 = d := by
  unfold buf_size_set at hret ⊢
  cases hn : kstrtoint val with
  | error e => rfl
  | ok n =>
      simp only [hn] at hret ⊢
      by_cases hrange : n < 16 ∨ n > 65536
      · rw [if_pos hrange]
      · rw [if_neg hrange] at hret ⊢
        cases hlock : k.interrupted with
        | true => rfl
        | false =>
            simp only [hlock, Bool.false_eq_true, if_false] at hret ⊢
            cases hmem : k.kmalloc with
            | none =>
                have hdata : d.rb.data = none := by
                  by_contra hdata
                  exact h ⟨⟨n, hn, by omega, by omega⟩, hlock, hmem, hdata⟩
                simp only [← hdata]
            | some bytes => simp [hmem] at hret

/-- A call that fails leaves the size, the unread bytes, the parameter and all replies to later
calls as they were, if and only if it does not lose the block. -/
theorem buf_size_set_all_or_nothing_iff (k : Kernel) (d : Driver) (val : List Char) :
    ((buf_size_set k d val).2.ret < 0 →
        (buf_size_set k d val).1.rb.size = d.rb.size ∧
        (buf_size_set k d val).1.rb.contents = d.rb.contents ∧
        (buf_size_set k d val).1.param_buf_size = d.param_buf_size ∧
        ∀ calls, (run (buf_size_set k d val).1 calls).2 = (run d calls).2) ↔
      ¬LosesBlock k d val := by
  constructor
  · intro hkept hloses
    obtain ⟨data, hdata⟩ := Option.ne_none_iff_exists'.mp hloses.data
    rw [hloses.buf_size_set] at hkept
    obtain ⟨-, -, -, hcalls⟩ := hkept (show -ENOMEM < 0 by decide)
    have hopen := hcalls [(.granting, .openFile)]
    simp [run, step, dev_open, hdata, ENOMEM] at hopen
  · intro hloses hret
    rw [buf_size_set_failed hloses hret]
    exact ⟨rfl, rfl, rfl, fun _ => rfl⟩

/-- When the memory for 32 bytes is missing, a driver that could be opened cannot be opened. -/
theorem buf_size_set_loses_block :
    ¬∀ (bytes : Nat → UInt8) (history : List (Kernel × Call)) (k : Kernel) (val : List Char),
      let d := (run (ringbuf_init bytes) history).1
      (buf_size_set k d val).2.ret < 0 →
        (buf_size_set k d val).1.rb.size = d.rb.size ∧
        (buf_size_set k d val).1.rb.contents = d.rb.contents ∧
        (buf_size_set k d val).1.param_buf_size = d.param_buf_size ∧
        ∀ calls, (run (buf_size_set k d val).1 calls).2 = (run d calls).2 := by
  intro hall
  have hkept := hall (fun _ => 0) [] { Kernel.granting with kmalloc := none } ['3', '2'] (by decide)
  exact absurd (hkept.2.2.2 [(.granting, .openFile)]) (by decide)

end Resize

end OtusCProg.RingbufDriver
