import OtusCProg.RingbufDriver.Failures

/-!
# The byte stream through the driver

Any number of callers read, write, seek and resize in any order, and the kernel
may interrupt a call, fault a copy or refuse memory. What a caller may rely on is
what the replies say: a read delivered its first `ret` bytes, and a write stored
the last `ret` bytes of its own. The bytes delivered never repeat, invent or
reorder any of the bytes stored.
-/

namespace OtusCProg.RingbufDriver
open Library Library.MachineInt

/-- The bytes that a call reports as stored. -/
def Call.stored : Call → Reply → List UInt8
  | .write _ ubuf, r => lastN r.ret.toNat ubuf
  | _, _ => []

/-- The bytes that a call reports as delivered. -/
def Call.delivered : Call → Reply → List UInt8
  | .read _ _, r => r.bytes.take r.ret.toNat
  | _, _ => []

/-- The unread bytes that a call throws away: a write drops the oldest to make room, and a resize
to a size in range frees the block with all of them before it knows whether `kmalloc` fails. -/
def Call.lost (k : Kernel) (d : Driver) : Call → Nat
  | .write _ ubuf =>
      if k.interrupted ∨ d.rb.data = none then 0 else overflow d.rb ubuf.length
  | .bufSizeSet val =>
      match kstrtoint val with
      | .error _ => 0
      | .ok n => if n < 16 ∨ n > 65536 ∨ k.interrupted then 0 else d.rb.contents.length
  | _ => 0

/-- The calls of a history with their replies. -/
def log (d : Driver) (calls : List (Kernel × Call)) : List (Call × Reply) :=
  (calls.map Prod.snd).zip (run d calls).2

/-- All bytes that the writes of a history report as stored. -/
def storedBytes (log : List (Call × Reply)) : List UInt8 := log.flatMap fun e => e.1.stored e.2

/-- All bytes that the reads of a history report as delivered. -/
def deliveredBytes (log : List (Call × Reply)) : List UInt8 :=
  log.flatMap fun e => e.1.delivered e.2

/-- The number of unread bytes that the calls of a history throw away. -/
def lostBytes (d : Driver) : List (Kernel × Call) → Nat
  | [] => 0
  | (k, c) :: calls => c.lost k d + lostBytes (step k d c).1 calls

theorem log_cons (d : Driver) (k : Kernel) (c : Call) (calls : List (Kernel × Call)) :
    log d ((k, c) :: calls) = (c, (step k d c).2) :: log (step k d c).1 calls := by
  simp [log, run]

/-- What one call does to the stream: what it delivers and leaves unread comes, in order, from
what was unread and what it stored, less the bytes it threw away. -/
structure Flows (before stored delivered after : List UInt8) (lost : Nat) : Prop where
  ordered : (delivered ++ after).Sublist (before ++ stored)
  counted : before.length + stored.length = delivered.length + after.length + lost

/-- A call that touches no byte. -/
theorem Flows.idle (unread : List UInt8) : Flows unread [] [] unread 0 where
  ordered := by simp
  counted := by simp

/-- Calls in a row: what the first leaves unread is what the second finds. -/
theorem Flows.append {before middle after stored stored' delivered delivered' : List UInt8}
    {lost lost' : Nat} (first : Flows before stored delivered middle lost)
    (second : Flows middle stored' delivered' after lost') :
    Flows before (stored ++ stored') (delivered ++ delivered') after (lost + lost') where
  ordered := by
    have hsecond : (delivered ++ (delivered' ++ after)).Sublist (delivered ++ (middle ++ stored')) :=
      (List.append_sublist_append_left delivered).mpr second.ordered
    have hfirst : (delivered ++ middle ++ stored').Sublist (before ++ stored ++ stored') :=
      (List.append_sublist_append_right stored').mpr first.ordered
    simp only [List.append_assoc] at hsecond hfirst ⊢
    exact hsecond.trans hfirst
  counted := by
    have hfirst := first.counted
    have hsecond := second.counted
    simp only [List.length_append]
    omega

/-- In a stream where the bytes come in order, all arrive exactly when none is thrown away. -/
theorem Flows.complete_iff {before stored delivered after : List UInt8} {lost : Nat}
    (h : Flows before stored delivered after lost) :
    delivered ++ after = before ++ stored ↔ lost = 0 := by
  have hcount := h.counted
  constructor
  · intro heq
    have hlength := congrArg List.length heq
    simp only [List.length_append] at hlength
    omega
  · intro hzero
    apply h.ordered.eq_of_length
    simp only [List.length_append]
    omega

section Step
variable {d : Driver} (k : Kernel)

/-- The bytes dropped by a write that stores `len` bytes were all unread. -/
theorem overflow_le {rb : RingBuffer} (len : Nat) : overflow rb len ≤ rb.count := by
  rw [overflow]
  omega

/-- Keeping the newest bytes keeps those of the write and drops the overflow. -/
theorem lastN_contents (inv : RepInv d.rb) {data : List UInt8} (hdata : d.rb.data = some data)
    (ubuf : List UInt8) :
    lastN d.rb.size (d.rb.contents ++ ubuf) =
      d.rb.contents.drop (overflow d.rb ubuf.length) ++ lastN (min ubuf.length d.rb.size) ubuf := by
  have hcount := inv.count_le
  have hlength := length_contents hdata
  by_cases hfit : ubuf.length ≤ d.rb.size
  · have hall : lastN (min ubuf.length d.rb.size) ubuf = ubuf := by
      rw [lastN, Nat.min_eq_left hfit, Nat.sub_self, List.drop_zero]
    rw [lastN_append_of_le _ hfit, hall, hlength, overflow, Nat.min_eq_left hfit]
  · have hnone : d.rb.contents.drop (overflow d.rb ubuf.length) = [] := by
      apply List.drop_eq_nil_of_le
      rw [hlength, overflow]
      omega
    rw [lastN_append_of_ge _ (by omega), hnone, List.nil_append, Nat.min_eq_right (by omega)]

/-- A write that drops its overflow and reports `n` of its bytes. -/
theorem flows_of_write {data : List UInt8} (hdata : d.rb.data = some data)
    (ubuf : List UInt8) (n : Nat) {after : List UInt8}
    (hafter : after = d.rb.contents.drop (overflow d.rb ubuf.length) ++ lastN n ubuf) :
    Flows d.rb.contents (lastN n ubuf) [] after (overflow d.rb ubuf.length) where
  ordered := by
    rw [hafter, List.nil_append]
    exact (List.append_sublist_append_right _).mpr (List.drop_sublist _ _)
  counted := by
    have hle : overflow d.rb ubuf.length ≤ d.rb.count := overflow_le ubuf.length
    have hlength := length_contents hdata
    rw [hafter, List.length_append, List.length_drop, List.length_nil]
    omega

theorem dev_write_flows (inv : RepInv d.rb) (file : Nat) (ubuf : List UInt8) :
    Flows d.rb.contents ((Call.write file ubuf).stored (dev_write k d ubuf).2) []
      (dev_write k d ubuf).1.rb.contents ((Call.write file ubuf).lost k d) := by
  have hnone : lastN 0 ubuf = [] := by simp [lastN]
  cases hlock : k.interrupted with
  | true => simpa [dev_write, hlock, Call.stored, Call.lost, ERESTARTSYS, hnone] using Flows.idle _
  | false =>
      cases hdata : d.rb.data with
      | none =>
          rw [dev_write_unallocated hlock hdata]
          simpa [Call.stored, Call.lost, hlock, hdata, hnone] using Flows.idle _
      | some data =>
          have hbound := inv.size_le
          obtain ⟨_, _, _, hcases⟩ := ringbuf_write_cases (k := k) inv (by rw [hdata]; rfl)
            (show ubuf.length = ubuf.length from rfl)
          have hlost : (Call.write file ubuf).lost k d = overflow d.rb ubuf.length := by
            simp [Call.lost, hlock, hdata]
          rw [hlost]
          rcases hcases with ⟨hret, hnew⟩ | ⟨hret, hnew, _⟩
          · have hreply : (dev_write k d ubuf).2.ret = (min ubuf.length d.rb.size : Nat) := by
              simp only [dev_write, hlock, Bool.false_eq_true, if_false, hret]
              exact toSigned_of_range (by omega) (by omega)
            rw [Call.stored, hreply, Int.toNat_natCast]
            apply flows_of_write hdata ubuf
            rw [← lastN_contents inv hdata, ← hnew]
            simp [dev_write, hlock]
          · have hreply : (dev_write k d ubuf).2.ret = 0 := by
              simp only [dev_write, hlock, Bool.false_eq_true, if_false, hret]
              rfl
            rw [Call.stored, hreply, Int.toNat_zero]
            apply flows_of_write hdata ubuf
            rw [hnone, List.append_nil, overflow, ← hnew]
            simp [dev_write, hlock]

theorem dev_read_flows (inv : RepInv d.rb) (file len : Nat) :
    Flows d.rb.contents [] ((Call.read file len).delivered (dev_read k d file len).2)
      (dev_read k d file len).1.rb.contents 0 := by
  have hbound := inv.size_le
  have hcount := inv.count_le
  have hidle : (dev_read k d file len).2.ret ≤ 0 → (dev_read k d file len).1.rb = d.rb →
      Flows d.rb.contents [] ((Call.read file len).delivered (dev_read k d file len).2)
        (dev_read k d file len).1.rb.contents 0 := by
    intro hret hsame
    rw [Call.delivered, Int.toNat_of_nonpos hret, List.take_zero, hsame]
    exact Flows.idle _
  cases hlock : k.interrupted with
  | true => exact hidle (by simp [dev_read, hlock, ERESTARTSYS]) (by simp [dev_read, hlock])
  | false =>
      by_cases hzero : (ringbuf_peek k d.rb len).1 = 0
      · have hret : ¬(toSigned 64 ((0 : Nat) : Int) > 0) := by decide
        apply hidle
        · simp only [dev_read, hlock, Bool.false_eq_true, if_false, hzero, if_neg hret]
          decide
        · simp only [dev_read, hlock, Bool.false_eq_true, if_false, hzero, if_neg hret]
      · obtain ⟨hle, hsome⟩ := ringbuf_peek_le (k := k) inv len (Nat.pos_of_ne_zero hzero)
        obtain ⟨data, hdata⟩ := Option.isSome_iff_exists.mp hsome
        have hpeek : ringbuf_peek k d.rb len =
            (min len d.rb.count, d.rb.contents.take (min len d.rb.count)) := by
          rcases ringbuf_peek_cases (k := k) len inv hsome with h | ⟨h, _⟩
          · exact h
          · exact absurd h hzero
        rw [hpeek] at hzero
        simp only at hzero
        have hret : toSigned 64 ((min len d.rb.count : Nat) : Int) = (min len d.rb.count : Nat) :=
          toSigned_of_range (by omega) (by omega)
        obtain ⟨_, _, _, hcontents⟩ :=
          ringbuf_discard_spec inv hsome (Nat.min_le_right len d.rb.count)
        have hread : dev_read k d file len =
            ({ d with
                rb := ringbuf_discard d.rb (min len d.rb.count)
                f_pos := Function.update d.f_pos file
                  (toSigned 64 (d.f_pos file + (min len d.rb.count : Nat))) },
              ⟨(min len d.rb.count : Nat), d.rb.contents.take (min len d.rb.count)⟩) := by
          simp only [dev_read, hlock, Bool.false_eq_true, if_false, hpeek, hret]
          rw [if_pos (by omega), toUnsigned_natCast, Nat.mod_eq_of_lt (by omega)]
        rw [hread, Call.delivered]
        simp only [Int.toNat_natCast, List.take_take, Nat.min_self, hcontents]
        refine ⟨?_, ?_⟩
        · rw [List.take_append_drop, List.append_nil]
        · have hlength := length_contents hdata
          simp only [List.length_take, List.length_drop, List.length_nil]
          omega

theorem buf_size_set_flows (d : Driver) (val : List Char) :
    Flows d.rb.contents [] [] (buf_size_set k d val).1.rb.contents
      ((Call.bufSizeSet val).lost k d) := by
  have hempty : Flows d.rb.contents [] [] [] d.rb.contents.length := ⟨by simp, by simp⟩
  cases hn : kstrtoint val with
  | error e => simpa [buf_size_set, Call.lost, hn] using Flows.idle _
  | ok n =>
      by_cases hrange : n < 16 ∨ n > 65536
      · have hlost : (Call.bufSizeSet val).lost k d = 0 := by
          simp only [Call.lost, hn]
          rw [if_pos (by tauto)]
        rw [hlost, buf_size_set, hn]
        simp only [if_pos hrange]
        exact Flows.idle _
      · have hlow : ¬n < 16 := fun h => hrange (Or.inl h)
        have hhigh : ¬n > 65536 := fun h => hrange (Or.inr h)
        cases hlock : k.interrupted with
        | true => simpa [buf_size_set, Call.lost, hn, hrange, hlock] using Flows.idle _
        | false =>
            have hlost : (Call.bufSizeSet val).lost k d = d.rb.contents.length := by
              simp [Call.lost, hn, hlow, hhigh, hlock]
            have hgone : (buf_size_set k d val).1.rb.contents = [] := by
              cases hmem : k.kmalloc with
              | none => simp [buf_size_set, hn, hlow, hhigh, hlock, hmem, RingBuffer.contents]
              | some bytes =>
                  simp [buf_size_set, hn, hlow, hhigh, hlock, hmem, RingBuffer.contents]
            rw [hlost, hgone]
            exact hempty

/-- Every call keeps the order of the stream and loses exactly the bytes counted for it. -/
theorem step_flows (inv : RepInv d.rb) (c : Call) :
    Flows d.rb.contents (c.stored (step k d c).2) (c.delivered (step k d c).2)
      (step k d c).1.rb.contents (c.lost k d) := by
  cases c with
  | openFile => simpa [step, Call.stored, Call.delivered, Call.lost] using Flows.idle _
  | read file len => exact dev_read_flows k inv file len
  | write file ubuf => exact dev_write_flows k inv file ubuf
  | llseek file off whence =>
      simpa [step, Call.stored, Call.delivered, Call.lost] using Flows.idle _
  | bufSizeSet val => exact buf_size_set_flows k d val

end Step

/-- Every history keeps the order of the stream. -/
theorem run_flows (calls : List (Kernel × Call)) (d : Driver) (inv : RepInv d.rb) :
    Flows d.rb.contents (storedBytes (log d calls)) (deliveredBytes (log d calls))
      (run d calls).1.rb.contents (lostBytes d calls) := by
  induction calls generalizing d with
  | nil => exact Flows.idle _
  | cons call calls ih =>
      have hstep := step_flows call.1 inv call.2
      have hrest := ih (step call.1 d call.2).1 (step_inv inv call.2)
      rw [log_cons, storedBytes, deliveredBytes, List.flatMap_cons, List.flatMap_cons]
      exact hstep.append hrest

/-- In every history of the loaded driver, the bytes that reads delivered followed by the unread
ones are a subsequence of the bytes that writes stored, and they are all of them if and only if
no call threw unread bytes away. -/
theorem reads_deliver_what_writes_stored (bytes : Nat → UInt8) (calls : List (Kernel × Call)) :
    let d := ringbuf_init bytes
    let delivered := deliveredBytes (log d calls) ++ (run d calls).1.rb.contents
    delivered.Sublist (storedBytes (log d calls)) ∧
      (delivered = storedBytes (log d calls) ↔ lostBytes d calls = 0) := by
  have hflows := run_flows calls (ringbuf_init bytes)
    (RepInv.empty bytes (by decide) (by decide))
  have hempty : (ringbuf_init bytes).rb.contents = [] := by
    simp [RingBuffer.contents, ringbuf_init]
  rw [hempty] at hflows
  exact ⟨hflows.ordered, hflows.complete_iff⟩

/-- A write over the end of the buffer, a read that faults and one that does not. -/
example :
    deliveredBytes (log (ringbuf_init fun _ => 0)
      [(.granting, .write 0 [1, 2, 3]), (.faulting, .read 1 2), (.granting, .read 1 2),
        (.granting, .write 0 (List.replicate 16 7)), (.granting, .read 1 1)]) = [1, 2, 7] := by
  decide

end OtusCProg.RingbufDriver
