import OtusCProg.RingbufDriver.Refinement

/-!
# A write-all caller of the driver

`dev_write` stores the last bytes of a write that is longer than the buffer, but
it returns the size of the buffer, so the caller goes on with bytes that are
stored already. The last of its calls appends the tail of the string a second
time. The result is still that of one write exactly when the string fits, or
when its last bytes repeat with the length of that tail.
-/

namespace OtusCProg.RingbufDriver
open Library

/-- The kernel copies everything; it may still interrupt the wait for the lock. -/
structure Kernel.Copies (k : Kernel) : Prop where
  copy1 : k.fault1 = none
  copy2 : k.fault2 = none

/-- A caller that writes until all its bytes are reported written, with what the
kernel decides in each call. An interrupted call is made again. There is no
result when the calls run out or one of them makes no progress. -/
def write_all : List Kernel → Driver → List UInt8 → Option Driver
  | _, d, [] => some d
  | [], _, _ :: _ => none
  | k :: ks, d, b :: bs =>
      let (next, reply) := dev_write k d (b :: bs)
      if reply.ret = -ERESTARTSYS then write_all ks next (b :: bs)
      else if reply.ret ≤ 0 then none
      else write_all ks next ((b :: bs).drop reply.ret.toNat)

/-- How many bytes are left for the last call. -/
def tailLength (size : Nat) (bs : List UInt8) : Nat := (bs.length - 1) % size + 1

/-- The string fits, or its last bytes repeat with the length of the last call. -/
def WritesOnce (size : Nat) (bs : List UInt8) : Prop :=
  bs.length ≤ size ∨
    (lastN size bs).drop (tailLength size bs) = (lastN size bs).take (size - tailLength size bs)

/-- The contents that the repeated calls leave. -/
def rewritten (size : Nat) (old bs : List UInt8) : List UInt8 :=
  if bs.length ≤ size then lastN size (old ++ bs)
  else (lastN size bs).drop (tailLength size bs) ++
    (lastN size bs).drop (size - tailLength size bs)

section Contents
variable {size : Nat} (old : List UInt8) {bs : List UInt8}

/-- The last bytes of a long string are those of the part that comes next. -/
theorem lastN_drop (hlong : 2 * size ≤ bs.length) : lastN size (bs.drop size) = lastN size bs := by
  rw [lastN, lastN, List.drop_drop, List.length_drop]
  congr 1
  omega

/-- One call and the repeated calls on the rest leave what all calls leave. -/
theorem rewritten_drop (hsize : 0 < size) (hlong : size < bs.length) :
    rewritten size (lastN size (old ++ bs)) (bs.drop size) = rewritten size old bs := by
  have hnew : lastN size (old ++ bs) = lastN size bs := lastN_append_of_ge old hlong.le
  have hlength : (lastN size bs).length = size := by
    rw [length_lastN]
    omega
  have hrest : (bs.drop size).length = bs.length - size := List.length_drop
  have htail : tailLength size (bs.drop size) = tailLength size bs := by
    rw [tailLength, tailLength, hrest, Nat.mod_eq_sub_mod (a := bs.length - 1) (by omega)]
    congr 2
    omega
  unfold rewritten
  rw [if_neg (Nat.not_le.mpr hlong), hnew]
  by_cases hlast : (bs.drop size).length ≤ size
  · have htl : tailLength size bs = bs.length - size := by
      rw [← htail, tailLength, Nat.mod_eq_of_lt (by omega)]
      omega
    rw [if_pos hlast, lastN_append_of_le _ hlast, hlength, hrest, htl]
    congr 1
    · congr 1
      omega
    · rw [lastN, List.drop_drop]
      congr 1
      omega
  · rw [if_neg hlast, htail, lastN_drop (by omega)]

/-- The repeated calls leave what one write leaves exactly for such strings. -/
theorem rewritten_eq_iff :
    rewritten size old bs = lastN size (old ++ bs) ↔ WritesOnce size bs := by
  unfold rewritten WritesOnce
  by_cases hfit : bs.length ≤ size
  · simp [hfit]
  · have hsplit : lastN size bs = (lastN size bs).take (size - tailLength size bs) ++
        (lastN size bs).drop (size - tailLength size bs) := (List.take_append_drop _ _).symm
    rw [if_neg hfit, lastN_append_of_ge old (by omega)]
    constructor
    · intro h
      right
      conv_rhs at h => rw [hsplit]
      exact List.append_cancel_right h
    · rintro (h | h)
      · exact absurd h hfit
      · rw [h, ← hsplit]

end Contents

section Calls
variable {k : Kernel} {d : Driver}

/-- An interrupted call changes nothing and says so. -/
theorem dev_write_interrupted (hk : k.interrupted = true) (bs : List UInt8) :
    dev_write k d bs = (d, ⟨-ERESTARTSYS, []⟩) := by
  simp [dev_write, hk]

/-- What a call does that gets the lock. -/
theorem dev_write_copied (inv : RepInv d.rb) (hsome : d.rb.data.isSome) (hk : k.Copies)
    (hlock : k.interrupted = false) (bs : List UInt8) :
    RepInv (dev_write k d bs).1.rb ∧ (dev_write k d bs).1.rb.data.isSome ∧
      (dev_write k d bs).1.rb.size = d.rb.size ∧
      (dev_write k d bs).1.rb.contents = lastN d.rb.size (d.rb.contents ++ bs) ∧
      (dev_write k d bs).2.ret = (min bs.length d.rb.size : Nat) := by
  have hgrants : Kernel.Grants { k with kmalloc := some fun _ => 0 } :=
    ⟨hlock, hk.copy1, hk.copy2, rfl⟩
  exact dev_write_granted inv hsome hgrants bs

/-- With enough calls the caller finishes, and leaves the rewritten contents. -/
theorem write_all_contents (ks : List Kernel) (d : Driver) (bs : List UInt8) (inv : RepInv d.rb)
    (hsome : d.rb.data.isSome) (hcopies : ∀ k ∈ ks, k.Copies)
    (hcalls : bs.length ≤ (ks.filter fun k => !k.interrupted).length) :
    ∃ last, write_all ks d bs = some last ∧
      (bs ≠ [] → last.rb.contents = rewritten d.rb.size d.rb.contents bs) ∧
      (bs = [] → last = d) := by
  induction ks generalizing d bs with
  | nil =>
      obtain rfl : bs = [] := List.eq_nil_of_length_eq_zero (Nat.le_zero.mp hcalls)
      exact ⟨d, by simp [write_all], fun h => absurd rfl h, fun _ => rfl⟩
  | cons k ks ih =>
      cases bs with
      | nil => exact ⟨d, by simp [write_all], fun h => absurd rfl h, fun _ => rfl⟩
      | cons b bs =>
          have hrest : ∀ k ∈ ks, k.Copies := fun k hk => hcopies k (List.mem_cons_of_mem _ hk)
          cases hlock : k.interrupted with
          | true =>
              obtain ⟨last, hlast, hcontents⟩ := ih d (b :: bs) inv hsome hrest
                (by simpa [hlock] using hcalls)
              refine ⟨last, ?_, hcontents⟩
              rw [write_all, dev_write_interrupted hlock]
              exact hlast
          | false =>
              obtain ⟨hinv, hsome', hsize, hnew, hret⟩ := dev_write_copied inv hsome
                (hcopies k List.mem_cons_self) hlock (b :: bs)
              have hpos := inv.size_pos
              have hcalls' : bs.length ≤ (ks.filter fun k => !k.interrupted).length := by
                simpa [hlock] using hcalls
              have hcount : 0 < min (b :: bs).length d.rb.size := by
                rw [List.length_cons]
                omega
              obtain ⟨last, hlast, hmore, hdone⟩ := ih (dev_write k d (b :: bs)).1
                ((b :: bs).drop (min (b :: bs).length d.rb.size)) hinv hsome' hrest
                (by
                  rw [List.length_drop]
                  rw [List.length_cons] at hcount ⊢
                  omega)
              refine ⟨last, ?_, fun _ => ?_, fun h => absurd h (List.cons_ne_nil b bs)⟩
              · rw [write_all]
                simp only [hret, Int.toNat_natCast]
                rw [if_neg (by simp only [ERESTARTSYS]; omega), if_neg (by omega)]
                exact hlast
              · by_cases hfit : (b :: bs).length ≤ d.rb.size
                · have hnone : (b :: bs).drop (min (b :: bs).length d.rb.size) = [] :=
                    List.drop_eq_nil_of_le (by omega)
                  rw [hdone hnone, hnew, rewritten, if_pos hfit]
                · have hlong : d.rb.size < (b :: bs).length := Nat.lt_of_not_le hfit
                  have hmin : min (b :: bs).length d.rb.size = d.rb.size := by omega
                  have hne : (b :: bs).drop d.rb.size ≠ [] := by
                    intro h
                    have hle := List.drop_eq_nil_iff.mp h
                    omega
                  rw [hmin] at hmore
                  rw [hmore hne, hsize, hnew, rewritten_drop _ hpos hlong]

end Calls

/-- From every reachable state with the block allocated, a write-all caller
finishes, and it leaves what one write of the whole string leaves if and only if
the string fits or repeats. -/
theorem write_all_eq_one_write_iff (bytes : Nat → UInt8) (history : List (Kernel × Call))
    (ks : List Kernel) (bs : List UInt8)
    (hsome : (run (ringbuf_init bytes) history).1.rb.data.isSome)
    (hcopies : ∀ k ∈ ks, k.Copies)
    (hcalls : bs.length ≤ (ks.filter fun k => !k.interrupted).length) :
    let d := (run (ringbuf_init bytes) history).1
    ∃ last, write_all ks d bs = some last ∧
      (last.rb.contents = lastN d.rb.size (d.rb.contents ++ bs) ↔ WritesOnce d.rb.size bs) := by
  intro d
  have inv : RepInv d.rb :=
    run_inv history _ (RepInv.empty bytes (by decide) (by decide))
  obtain ⟨last, hlast, hmore, hdone⟩ := write_all_contents ks d bs inv hsome hcopies hcalls
  refine ⟨last, hlast, ?_⟩
  by_cases hnil : bs = []
  · have hcount := inv.count_le
    obtain ⟨data, hdata⟩ := Option.isSome_iff_exists.mp hsome
    have hlength : d.rb.contents.length = d.rb.count := length_contents hdata
    have hkeep : lastN d.rb.size d.rb.contents = d.rb.contents := by
      rw [lastN, hlength, show d.rb.count - d.rb.size = 0 by omega, List.drop_zero]
    rw [hdone hnil, hnil, List.append_nil, hkeep]
    simp [WritesOnce]
  · rw [hmore hnil]
    exact rewritten_eq_iff _

/-- The string that the test program writes into the buffer of 16 bytes. -/
def data3 : List UInt8 := "1_3_5_7_9_11_14_16_18".toList.map fun c => UInt8.ofNat c.toNat

theorem granting_copies : Kernel.granting.Copies := ⟨rfl, rfl⟩

theorem write_all_eq_one_write_iff_data3 :
    let d := (run (ringbuf_init fun _ => 0) []).1
    ∃ last, write_all (List.replicate 21 Kernel.granting) d data3 = some last ∧
      (last.rb.contents = lastN d.rb.size (d.rb.contents ++ data3) ↔
        WritesOnce d.rb.size data3) := by
  apply write_all_eq_one_write_iff (fun _ => 0) [] (List.replicate 21 Kernel.granting) data3 rfl
  · intro k hk
    rw [List.eq_of_mem_replicate hk]
    exact granting_copies
  · decide

/-- Writing the string of the test to its end leaves its last five bytes twice. -/
theorem write_all_data3 :
    ¬∀ (bytes : Nat → UInt8) (history : List (Kernel × Call)) (ks : List Kernel) (bs : List UInt8),
      (run (ringbuf_init bytes) history).1.rb.data.isSome → (∀ k ∈ ks, k.Copies) →
      bs.length ≤ (ks.filter fun k => !k.interrupted).length →
      let d := (run (ringbuf_init bytes) history).1
      ∃ last, write_all ks d bs = some last ∧
        last.rb.contents = lastN d.rb.size (d.rb.contents ++ bs) := by
  intro hall
  have hcopies : ∀ k ∈ List.replicate 21 Kernel.granting, k.Copies := by
    intro k hk
    rw [List.eq_of_mem_replicate hk]
    exact granting_copies
  obtain ⟨last, hlast, hcontents⟩ := hall (fun _ => 0) [] (List.replicate 21 Kernel.granting) data3
    rfl hcopies (by decide)
  have hleft : (write_all (List.replicate 21 Kernel.granting) (ringbuf_init fun _ => 0) data3).map
      (fun d => d.rb.contents) =
        some ("11_14_16_1816_18".toList.map fun c => UInt8.ofNat c.toNat) := by
    decide
  have hwrite : write_all (List.replicate 21 Kernel.granting) (ringbuf_init fun _ => 0) data3 =
      some last := hlast
  rw [hwrite, Option.map_some, hcontents] at hleft
  exact absurd hleft (by decide)

end OtusCProg.RingbufDriver
