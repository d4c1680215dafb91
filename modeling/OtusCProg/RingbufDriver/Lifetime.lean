import OtusCProg.RingbufDriver.Refinement
import OtusCProg.Library.Custody

/-!
# The life of the module

A setting given at load time reaches `buf_size_set` before `ringbuf_init` runs.
`ringbuf_init` takes its resources one after the other, and a failure undoes in
reverse order those it holds. `ringbuf_exit` undoes them all. The block that
`rb.data` points to is live whenever a call uses it, and everything is released
once, but for the block of a load-time setting: `ringbuf_init` overwrites the
pointer to it.
-/

namespace OtusCProg.RingbufDriver
open Library Library.MachineInt

/-- What the module holds in the kernel; the blocks of `kmalloc` are numbered. -/
inductive Resource where
  | block (b : Nat)
  | chrdev_region
  | cdev
  | my_class
  | device
deriving DecidableEq, Repr

/-- A device number stays reserved while a `cdev` or a device uses it, and a
class exists while one of its devices does. -/
def Resource.depends : Resource → List Resource
  | .cdev => [.chrdev_region]
  | .device => [.my_class, .chrdev_region]
  | _ => []

/-- The module: its driver, the block that `rb.data` points to, the number of the
next block and what was done to resources so far. -/
structure Module where
  driver : Driver
  block : Option Nat
  next : Nat
  history : List (Custody Resource)

/-- The static data of the module, before any of its code ran. -/
def Module.static : Module where
  driver := ⟨⟨none, 16, 0, 0, 0⟩, 16, fun _ => 0⟩
  block := none
  next := 0
  history := []

namespace Module

def acquire (m : Module) (r : Resource) : Module :=
  { m with history := m.history ++ [.acquire r] }

def release (m : Module) (r : Resource) : Module :=
  { m with history := m.history ++ [.release r] }

/-- `rb.data = kmalloc(..)`, where it succeeds. -/
def kmalloc (m : Module) : Module :=
  { m.acquire (.block m.next) with block := some m.next, next := m.next + 1 }

/-- `kfree(rb.data)`; freeing a `NULL` pointer does nothing. -/
def kfree (m : Module) : Module :=
  match m.block with
  | none => m
  | some b => m.release (.block b)

/-- A call that may touch the bytes of the block. -/
def touch (m : Module) : Module :=
  match m.block with
  | none => m
  | some b => { m with history := m.history ++ [.use (.block b)] }

def buf_size_set (k : Kernel) (m : Module) (val : List Char) : Module × Reply :=
  let (d, reply) := RingbufDriver.buf_size_set k m.driver val
  let m := { m with driver := d }
  match kstrtoint val with
  | .error _ => (m, reply)
  | .ok new_size =>
      if new_size < 16 ∨ new_size > 65536 ∨ k.interrupted then (m, reply)
      else
        let m := { m.kfree with block := none }
        if k.kmalloc.isNone then (m, reply) else (m.kmalloc, reply)

/-- One call into the loaded module. -/
def step (k : Kernel) (m : Module) : Call → Module × Reply
  | .openFile => (m, (dev_open m.driver).2)
  | .read file len =>
      let (d, reply) := dev_read k m.driver file len
      (if k.interrupted then m else { m.touch with driver := d }, reply)
  | .write _ ubuf =>
      let (d, reply) := dev_write k m.driver ubuf
      (if k.interrupted then m else { m.touch with driver := d }, reply)
  | .llseek file off whence =>
      let (d, reply) := dev_llseek k m.driver file off whence
      ({ m with driver := d }, reply)
  | .bufSizeSet val => m.buf_size_set k val

/-- A sequence of calls into the loaded module, with every reply. -/
def run (m : Module) : List (Kernel × Call) → Module × List Reply
  | [] => (m, [])
  | (k, c) :: cs =>
      let (next, reply) := m.step k c
      let (last, replies) := next.run cs
      (last, reply :: replies)

/-- An error number as the kernel returns it, directly or in a pointer. -/
def Errno : Type := { e : Int // -4095 ≤ e ∧ e < 0 }

/-- What the kernel answers while the module is loaded. -/
structure Loading where
  kmalloc : Option (Nat → UInt8)
  alloc_chrdev_region : Option Errno
  cdev_add : Option Errno
  class_create : Option Errno
  device_create : Option Errno

/-- The labels of `ringbuf_init`, each of which runs into the next. -/
def err_buf (m : Module) : Module := m.kfree
def err_region (m : Module) : Module := (m.release .chrdev_region).err_buf
def err_cdev (m : Module) : Module := (m.release .cdev).err_region
def err_class (m : Module) : Module := (m.release .my_class).err_cdev

/-- `ringbuf_init`: the module and the returned error, if any. -/
def ringbuf_init (k : Loading) (m : Module) : Module × Int :=
  let rb := m.driver.rb
  match k.kmalloc with
  | none => ({ m with driver.rb := { rb with data := none }, block := none }, -ENOMEM)
  | some bytes =>
      let m := m.kmalloc
      let m := { m with driver.rb := ⟨some (RingbufDriver.block bytes rb.size), rb.size, 0, 0, 0⟩ }
      match k.alloc_chrdev_region with
      | some e => (m.err_buf, e.val)
      | none =>
          let m := m.acquire .chrdev_region
          match k.cdev_add with
          | some e => (m.err_region, e.val)
          | none =>
              let m := m.acquire .cdev
              match k.class_create with
              | some e => (m.err_cdev, e.val)
              | none =>
                  let m := m.acquire .my_class
                  match k.device_create with
                  | some e => (m.err_class, e.val)
                  | none => (m.acquire .device, 0)

def ringbuf_exit (m : Module) : Module :=
  ((((m.release .device).release .my_class).release .cdev).release .chrdev_region).kfree

/-- The settings on the command line of the loader, which stops at the first that fails. -/
def settings (m : Module) : List (Kernel × List Char) → Module × Int
  | [] => (m, 0)
  | (k, val) :: rest =>
      let (next, reply) := m.buf_size_set k val
      if reply.ret < 0 then (next, reply.ret) else next.settings rest

/-- A whole life of the module: settings, loading, calls and unloading. -/
def life (vals : List (Kernel × List Char)) (k : Loading) (calls : List (Kernel × Call)) : Module :=
  let (m, ret) := static.settings vals
  if ret < 0 then m
  else
    let (m, ret) := m.ringbuf_init k
    if ret < 0 then m else (m.run calls).1.ringbuf_exit

/-- The blocks with the numbers of a list. -/
def blocks (bs : List Nat) : Finset Resource := (bs.map .block).toFinset

/-- What the module holds: registrations, the block that it can reach and those
it cannot reach any more. -/
structure Holds (m : Module) (registered : Finset Resource) (lost : List Nat) : Prop where
  held : Custody.replay Resource.depends m.history =
    some (registered ∪ blocks (m.block.toList ++ lost))
  distinct : (m.block.toList ++ lost).Nodup
  fresh : ∀ b ∈ m.block.toList ++ lost, b < m.next
  noBlock : ∀ b, .block b ∉ registered

/-- `rb.data` is a pointer to a block, or `NULL` where the driver sees no block. -/
def Points (m : Module) : Prop := m.block.isSome = m.driver.rb.data.isSome

section Resources
variable {m : Module} {registered : Finset Resource} {lost : List Nat} {r : Resource}

@[simp] theorem mem_blocks {bs : List Nat} : r ∈ blocks bs ↔ ∃ b ∈ bs, .block b = r := by
  simp [blocks]

theorem blocks_cons (b : Nat) (bs : List Nat) : blocks (b :: bs) = insert (.block b) (blocks bs) := by
  simp [blocks]

@[simp] theorem kfree_driver (m : Module) : m.kfree.driver = m.driver := by
  unfold Module.kfree
  split <;> rfl

@[simp] theorem kfree_next (m : Module) : m.kfree.next = m.next := by
  unfold Module.kfree
  split <;> rfl

@[simp] theorem kmalloc_driver (m : Module) : m.kmalloc.driver = m.driver := rfl

@[simp] theorem kmalloc_block (m : Module) : m.kmalloc.block = some m.next := rfl

@[simp] theorem touch_block (m : Module) : m.touch.block = m.block := by
  unfold Module.touch
  split <;> rfl

@[simp] theorem touch_next (m : Module) : m.touch.next = m.next := by
  unfold Module.touch
  split <;> rfl

/-- What the module holds does not depend on its driver. -/
theorem Holds.setDriver (h : Holds m registered lost) (d : Driver) :
    Holds { m with driver := d } registered lost :=
  ⟨h.held, h.distinct, h.fresh, h.noBlock⟩

theorem Holds.acquire (h : Holds m registered lost) (hnew : r ∉ registered)
    (hblock : ∀ b, r ≠ .block b) (hdeps : ∀ s ∈ r.depends, s ∈ registered) :
    Holds (m.acquire r) (insert r registered) lost where
  held := by
    rw [Finset.insert_union]
    apply Custody.replay_acquire h.held
    · simp only [Finset.mem_union, mem_blocks, not_or]
      exact ⟨hnew, fun ⟨b, _, hb⟩ => hblock b hb.symm⟩
    · exact fun s hs => Finset.mem_union_left _ (hdeps s hs)
  distinct := h.distinct
  fresh := h.fresh
  noBlock := by
    intro b hb
    rcases Finset.mem_insert.mp hb with hsame | hb
    · exact hblock b hsame.symm
    · exact h.noBlock b hb

theorem Holds.release (h : Holds m (insert r registered) lost) (hnew : r ∉ registered)
    (hfree : ∀ s ∈ insert r registered, r ∉ s.depends) : Holds (m.release r) registered lost where
  held := by
    have hblock : ∀ b, r ≠ .block b := by
      rintro b rfl
      exact h.noBlock b (Finset.mem_insert_self _ _)
    apply Custody.replay_release
    · rw [← Finset.insert_union]
      exact h.held
    · simp only [Finset.mem_union, mem_blocks, not_or]
      exact ⟨hnew, fun ⟨b, _, hb⟩ => hblock b hb.symm⟩
    · intro s hs
      rw [← Finset.insert_union, Finset.mem_union] at hs
      rcases hs with hs | hs
      · exact hfree s hs
      · obtain ⟨b, _, rfl⟩ := mem_blocks.mp hs
        simp [Resource.depends]
  distinct := h.distinct
  fresh := h.fresh
  noBlock := fun b hb => h.noBlock b (Finset.mem_insert_of_mem hb)

/-- The pointer to the old block, if there is one, is lost. -/
theorem Holds.kmalloc (h : Holds m registered lost) :
    Holds m.kmalloc registered (m.block.toList ++ lost) where
  held := by
    have hfresh : m.next ∉ m.block.toList ++ lost := fun hm => Nat.lt_irrefl _ (h.fresh _ hm)
    simp only [Module.kmalloc, Module.acquire, Option.toList_some, List.singleton_append,
      blocks_cons, Finset.union_insert]
    apply Custody.replay_acquire h.held
    · simp only [Finset.mem_union, mem_blocks, not_or]
      refine ⟨h.noBlock _, ?_⟩
      rintro ⟨b, hb, hsame⟩
      obtain rfl : b = m.next := Resource.block.inj hsame
      exact hfresh hb
    · simp [Resource.depends]
  distinct := List.nodup_cons.mpr ⟨fun hm => Nat.lt_irrefl _ (h.fresh _ hm), h.distinct⟩
  fresh := by
    intro b hb
    rcases List.mem_cons.mp hb with rfl | hb
    · exact Nat.lt_succ_self _
    · exact Nat.lt_succ_of_lt (h.fresh b hb)
  noBlock := h.noBlock

/-- Once the block is freed and its pointer cleared, only the lost blocks remain. -/
theorem Holds.kfree (h : Holds m registered lost) :
    Holds { m.kfree with block := none } registered lost where
  held := by
    have hheld := h.held
    have hdistinct := h.distinct
    cases hblock : m.block with
    | none => simpa [Module.kfree, hblock] using hheld
    | some b =>
        rw [hblock, Option.toList_some, List.singleton_append] at hdistinct hheld
        rw [blocks_cons, Finset.union_insert] at hheld
        simp only [Module.kfree, hblock, Module.release, Option.toList_none, List.nil_append]
        apply Custody.replay_release hheld
        · simp only [Finset.mem_union, mem_blocks, not_or]
          refine ⟨h.noBlock b, ?_⟩
          rintro ⟨b', hb', hsame⟩
          obtain rfl : b' = b := Resource.block.inj hsame
          exact (List.nodup_cons.mp hdistinct).1 hb'
        · intro s _
          cases s <;> simp [Resource.depends]
  distinct := h.distinct.sublist (List.sublist_append_right _ _)
  fresh := by
    intro b hb
    rw [kfree_next]
    exact h.fresh b (List.mem_append_right _ hb)
  noBlock := h.noBlock

/-- Touching the block is a use of a live one. -/
theorem Holds.touch (h : Holds m registered lost) : Holds m.touch registered lost := by
  cases hblock : m.block with
  | none => simpa [Module.touch, hblock] using h
  | some b =>
      refine ⟨?_, by simpa using h.distinct, by simpa using h.fresh, h.noBlock⟩
      rw [touch_block]
      simp only [Module.touch, hblock]
      rw [← hblock]
      apply Custody.replay_use h.held
      simp [hblock]

end Resources

section Calls
variable {m : Module} {registered : Finset Resource} {lost : List Nat} (k : Kernel)

/-- Setting the size frees the block that it replaces. -/
theorem Holds.buf_size_set (h : Holds m registered lost) (val : List Char) :
    Holds (m.buf_size_set k val).1 registered lost := by
  unfold Module.buf_size_set
  cases kstrtoint val with
  | error e => exact h.setDriver _
  | ok n =>
      simp only
      split
      · exact h.setDriver _
      · have hfreed := (h.setDriver (RingbufDriver.buf_size_set k m.driver val).1).kfree
        split
        · exact hfreed
        · exact hfreed.kmalloc

/-- Setting the size does to the driver what it does without the module. -/
theorem buf_size_set_driver (m : Module) (val : List Char) :
    (m.buf_size_set k val).1.driver = (RingbufDriver.buf_size_set k m.driver val).1 ∧
      (m.buf_size_set k val).2 = (RingbufDriver.buf_size_set k m.driver val).2 := by
  unfold Module.buf_size_set
  cases kstrtoint val with
  | error e => exact ⟨rfl, rfl⟩
  | ok n =>
      simp only
      split
      · exact ⟨rfl, rfl⟩
      · split <;> simp

theorem Points.buf_size_set (h : Points m) (val : List Char) :
    Points (m.buf_size_set k val).1 := by
  unfold Points at h ⊢
  unfold Module.buf_size_set RingbufDriver.buf_size_set
  cases kstrtoint val with
  | error e => exact h
  | ok n =>
      by_cases hrange : n < 16 ∨ n > 65536
      · simpa only [if_pos hrange, if_pos (or_assoc.mp (Or.inl hrange))] using h
      · cases hlock : k.interrupted with
        | true => simpa [hrange] using h
        | false =>
            cases hmem : k.kmalloc with
            | none => simp [hrange]
            | some bytes => simp [hrange]

theorem ringbuf_discard_data (rb : RingBuffer) (len : Nat) :
    (ringbuf_discard rb len).data = rb.data := by
  unfold ringbuf_discard
  split <;> rfl

/-- No read or write turns a block into a `NULL` pointer or the other way round. -/
theorem dev_read_isSome (d : Driver) (file len : Nat) :
    (dev_read k d file len).1.rb.data.isSome = d.rb.data.isSome := by
  unfold dev_read
  split
  · rfl
  · simp only
    split
    · rw [ringbuf_discard_data]
    · rfl

theorem dev_write_isSome (d : Driver) (ubuf : List UInt8) :
    (dev_write k d ubuf).1.rb.data.isSome = d.rb.data.isSome := by
  cases hlock : k.interrupted with
  | true => simp [dev_write, hlock]
  | false =>
      cases hdata : d.rb.data with
      | none => simp [dev_write, hlock, ringbuf_write, hdata]
      | some data =>
          simp only [dev_write, hlock, Bool.false_eq_true, if_false, ringbuf_write, hdata]
          split
          · simp [hdata]
          · rw [copyIn_eq]
            simp only
            repeat' split
            all_goals rfl

/-- Every call into the module does to its driver what it does without the module. -/
theorem step_driver (m : Module) (c : Call) :
    (m.step k c).1.driver = (RingbufDriver.step k m.driver c).1 ∧
      (m.step k c).2 = (RingbufDriver.step k m.driver c).2 := by
  cases c with
  | openFile => exact ⟨(dev_open_state m.driver).symm, rfl⟩
  | read file len =>
      cases hlock : k.interrupted with
      | true => simp [Module.step, RingbufDriver.step, hlock, dev_read]
      | false => simp [Module.step, RingbufDriver.step, hlock]
  | write file ubuf =>
      cases hlock : k.interrupted with
      | true => simp [Module.step, RingbufDriver.step, hlock, dev_write]
      | false => simp [Module.step, RingbufDriver.step, hlock]
  | llseek file off whence => exact ⟨rfl, rfl⟩
  | bufSizeSet val => exact buf_size_set_driver k m val

theorem Points.step (h : Points m) (c : Call) : Points (m.step k c).1 := by
  cases c with
  | openFile => exact h
  | read file len =>
      simp only [Module.step]
      split
      · exact h
      · simpa [Points, dev_read_isSome] using h
  | write file ubuf =>
      simp only [Module.step]
      split
      · exact h
      · simpa [Points, dev_write_isSome] using h
  | llseek file off whence => simpa [Module.step, Points] using h
  | bufSizeSet val => exact h.buf_size_set k val

/-- A call neither takes nor gives up anything for good. -/
theorem Holds.step (h : Holds m registered lost) (c : Call) :
    Holds (m.step k c).1 registered lost := by
  cases c with
  | openFile => exact h
  | read file len =>
      simp only [Module.step]
      split
      · exact h
      · exact h.touch.setDriver _
  | write file ubuf =>
      simp only [Module.step]
      split
      · exact h
      · exact h.touch.setDriver _
  | llseek file off whence => exact h.setDriver _
  | bufSizeSet val => exact h.buf_size_set k val

end Calls

section Life
variable {registered : Finset Resource} {lost : List Nat}

/-- What holds while the module is loaded. -/
theorem run_calls (calls : List (Kernel × Call)) (m : Module) (h : Holds m registered lost)
    (hpoints : Points m) :
    Holds (m.run calls).1 registered lost ∧ Points (m.run calls).1 ∧
      (m.run calls).1.driver = (RingbufDriver.run m.driver calls).1 ∧
      (m.run calls).2 = (RingbufDriver.run m.driver calls).2 := by
  induction calls generalizing m with
  | nil => exact ⟨h, hpoints, rfl, rfl⟩
  | cons call calls ih =>
      obtain ⟨k, c⟩ := call
      obtain ⟨hdriver, hreply⟩ := step_driver k m c
      obtain ⟨hheld, hlast, hstate, hreplies⟩ := ih (m.step k c).1 (h.step k c) (hpoints.step k c)
      rw [hdriver] at hstate hreplies
      exact ⟨hheld, hlast, hstate, congrArg₂ List.cons hreply hreplies⟩

/-- The settings take one block at most, and the driver points to it. -/
theorem settings_holds (vals : List (Kernel × List Char)) (m : Module)
    (h : Holds m registered lost) (hpoints : Points m) :
    Holds (m.settings vals).1 registered lost ∧ Points (m.settings vals).1 := by
  induction vals generalizing m with
  | nil => exact ⟨h, hpoints⟩
  | cons setting vals ih =>
      simp only [Module.settings]
      split
      · exact ⟨h.buf_size_set _ _, hpoints.buf_size_set _ _⟩
      · exact ih _ (h.buf_size_set _ _) (hpoints.buf_size_set _ _)

/-- What a module holds at its end, when no pointer of it counts any more. -/
def Ends (m : Module) (leaked : List Nat) : Prop :=
  Custody.replay Resource.depends m.history = some (blocks leaked)

theorem Holds.err_buf {m : Module} (h : Holds m ∅ lost) : Ends m.err_buf lost := by
  have hheld := h.kfree.held
  rwa [Finset.empty_union] at hheld

theorem Holds.err_region {m : Module} (h : Holds m {.chrdev_region} lost) :
    Ends m.err_region lost := by
  have hreleased : Holds (m.release .chrdev_region) ∅ lost := h.release (by decide) (by decide)
  exact hreleased.err_buf

theorem Holds.err_cdev {m : Module} (h : Holds m {.cdev, .chrdev_region} lost) :
    Ends m.err_cdev lost := by
  have hreleased : Holds (m.release .cdev) {.chrdev_region} lost :=
    h.release (by decide) (by decide)
  exact hreleased.err_region

theorem Holds.err_class {m : Module} (h : Holds m {.my_class, .cdev, .chrdev_region} lost) :
    Ends m.err_class lost := by
  have hreleased : Holds (m.release .my_class) {.cdev, .chrdev_region} lost :=
    h.release (by decide) (by decide)
  exact hreleased.err_cdev

theorem Holds.exit {m : Module} (h : Holds m {.device, .my_class, .cdev, .chrdev_region} lost) :
    Ends m.ringbuf_exit lost := by
  have hreleased : Holds (m.release .device) {.my_class, .cdev, .chrdev_region} lost :=
    h.release (by decide) (by decide)
  exact hreleased.err_class

/-- Loading either fails, and then only the old block stays, or it takes all
registrations and a block that the driver points to. -/
theorem ringbuf_init_cases (k : Loading) {m : Module} (h : Holds m ∅ []) :
    (m.ringbuf_init k).2 < 0 ∧ Ends (m.ringbuf_init k).1 m.block.toList ∨
      (m.ringbuf_init k).2 = 0 ∧ Points (m.ringbuf_init k).1 ∧
        Holds (m.ringbuf_init k).1 {.device, .my_class, .cdev, .chrdev_region} m.block.toList := by
  unfold Module.ringbuf_init
  cases k.kmalloc with
  | none =>
      left
      have hheld := h.held
      rw [Finset.empty_union, List.append_nil] at hheld
      exact ⟨show -ENOMEM < 0 by decide, hheld⟩
  | some bytes =>
      have hblock := h.kmalloc
      rw [List.append_nil] at hblock
      have hready := hblock.setDriver { m.driver with
        rb := ⟨some (RingbufDriver.block bytes m.driver.rb.size), m.driver.rb.size, 0, 0, 0⟩ }
      have hregion := hready.acquire (r := .chrdev_region) (by simp) (by simp) (by decide)
      have hcdev := hregion.acquire (r := .cdev) (by simp) (by simp) (by decide)
      have hclass := hcdev.acquire (r := .my_class) (by simp) (by simp) (by decide)
      have hdevice := hclass.acquire (r := .device) (by simp) (by simp) (by decide)
      cases k.alloc_chrdev_region with
      | some e => exact Or.inl ⟨e.2.2, hready.err_buf⟩
      | none =>
          cases k.cdev_add with
          | some e => exact Or.inl ⟨e.2.2, hregion.err_region⟩
          | none =>
              cases k.class_create with
              | some e => exact Or.inl ⟨e.2.2, hcdev.err_cdev⟩
              | none =>
                  cases k.device_create with
                  | some e => exact Or.inl ⟨e.2.2, hclass.err_class⟩
                  | none => exact Or.inr ⟨rfl, rfl, hdevice⟩

end Life

/-- A size given at load time leaves a block behind, even where nothing fails. -/
example :
    let k : Loading := ⟨some fun _ => 0, none, none, none, none⟩
    Custody.replay Resource.depends (life [(.granting, ['3', '2'])] k []).history =
      some {.block 0} := by
  decide

end Module

end OtusCProg.RingbufDriver
