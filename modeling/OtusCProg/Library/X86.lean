import OtusCProg.Library.Leads
import Mathlib.Data.Int.Bitwise
import Mathlib.Data.Int.Order.Basic

/-!
# Procedures of an assembly program

The part of the x86-64 instruction set that procedures over linked data are made
of, and its calling convention. A word is an integer, and memory is looked at
word by word. The stack grows down from zero, without an end; all other memory
lies above. An address of code is the number of an instruction in the text, and
what has no instruction is a function of the outside. The words that the program
has outside the stack are kept in the state, as something that no instruction
looks at.
-/

namespace OtusCProg.Library.X86

inductive Reg
  | rax | rbx | rbp | rsp | rdi | rsi | rdx | r12 | r13 | r14
deriving DecidableEq, Repr

/-- `[base + reg * scale]`. -/
structure Address where
  base : ℤ
  reg : Reg
  scale : ℤ

inductive Operand
  | imm (value : ℤ)
  | reg (r : Reg)
  | mem (address : Address)

inductive Instr
  | push (src : Reg)
  | pop (dst : Reg)
  | mov (dst : Reg) (src : Operand)
  | store (address : Address) (src : Reg)
  | sub (dst : Reg) (value : ℤ)
  | and (dst : Reg) (value : ℤ)
  | xor (dst src : Reg)
  | dec (dst : Reg)
  | test (a b : Reg)
  | jz (label : ℤ)
  | jnz (label : ℤ)
  | jmp (label : ℤ)
  | call (target : Operand)
  | ret

/-- The registers, the zero flag, the memory, the address of the next instruction, the words outside
the stack that the program has, and the world. -/
structure State (W : Type*) where
  reg : Reg → ℤ
  zf : Bool
  mem : ℤ → ℤ
  pc : ℤ
  owned : List ℤ
  world : W

variable {W : Type*}

namespace State

def set (s : State W) (r : Reg) (value : ℤ) : State W :=
  { s with reg := Function.update s.reg r value }

/-- A result that sets the zero flag. -/
def setResult (s : State W) (r : Reg) (value : ℤ) : State W :=
  { s with reg := Function.update s.reg r value, zf := decide (value = 0) }

def push (s : State W) (value : ℤ) : State W :=
  { s with
    reg := Function.update s.reg .rsp (s.reg .rsp - 8)
    mem := Function.update s.mem (s.reg .rsp - 8) value }

def goto (s : State W) (pc : ℤ) : State W := { s with pc := pc }

def next (s : State W) : State W := s.goto (s.pc + 1)

def address (s : State W) (a : Address) : ℤ := a.base + s.reg a.reg * a.scale

def value (s : State W) : Operand → ℤ
  | .imm value => value
  | .reg r => s.reg r
  | .mem a => s.mem (s.address a)

end State

def exec (s : State W) : Instr → State W
  | .push src => (s.push (s.reg src)).next
  | .pop dst => ((s.set .rsp (s.reg .rsp + 8)).set dst (s.mem (s.reg .rsp))).next
  | .mov dst src => (s.set dst (s.value src)).next
  | .store a src => { s with mem := Function.update s.mem (s.address a) (s.reg src) }.next
  | .sub dst value => (s.setResult dst (s.reg dst - value)).next
  | .and dst value => (s.setResult dst (Int.land (s.reg dst) value)).next
  | .xor dst src => (s.setResult dst (Int.xor (s.reg dst) (s.reg src))).next
  | .dec dst => (s.setResult dst (s.reg dst - 1)).next
  | .test a b => { s with zf := decide (Int.land (s.reg a) (s.reg b) = 0) }.next
  | .jz label => if s.zf then s.goto label else s.next
  | .jnz label => if s.zf then s.next else s.goto label
  | .jmp label => s.goto label
  | .call target => (s.push (s.pc + 1)).goto (s.value target)
  | .ret => (s.set .rsp (s.reg .rsp + 8)).goto (s.mem (s.reg .rsp))

/-- The text of the program, and what the functions of the outside do. -/
structure Machine (W : Type*) where
  text : List Instr
  outside : State W → State W

/-- The instruction at an address. -/
def fetch (text : List Instr) : ℤ → Option Instr
  | .ofNat pc => text[pc]?
  | .negSucc _ => none

def Machine.step (machine : Machine W) (s : State W) : State W :=
  match fetch machine.text s.pc with
  | some instr => exec s instr
  | none => machine.outside s

variable {machine : Machine W} {s t u : State W} {text : List Instr} {pc label : ℤ} {i : Instr}
  {block rest : List Instr} {Q : State W → Prop}

/-! ## Blocks of instructions -/

/-- The block stands in the text at the address. -/
def At (text : List Instr) (pc : ℤ) (block : List Instr) : Prop :=
  ∃ a : ℕ, pc = a ∧ block <+: text.drop a

theorem At.fetch (h : At text pc (i :: block)) : fetch text pc = some i := by
  obtain ⟨a, rfl, rest, hcode⟩ := h
  change text[a]? = some i
  rw [← List.head?_drop, ← hcode]
  rfl

theorem At.tail (h : At text pc (i :: block)) : At text (pc + 1) block := by
  obtain ⟨a, rfl, rest, hcode⟩ := h
  refine ⟨a + 1, (Nat.cast_succ a).symm, rest, ?_⟩
  rw [← List.tail_drop, ← hcode]
  rfl

theorem step_at (h : At machine.text s.pc (i :: block)) : machine.step s = exec s i := by
  unfold Machine.step
  rw [h.fetch]

/-- The instruction goes on to the one behind it. -/
def Instr.straight : Instr → Bool
  | .jz _ | .jnz _ | .jmp _ | .call _ | .ret => false
  | _ => true

theorem exec_pc (h : i.straight = true) : (exec s i).pc = s.pc + 1 := by
  cases i <;> first | rfl | cases h

theorem run_block (h : At machine.text s.pc block) (hstraight : block.all Instr.straight = true) :
    machine.step^[block.length] s = block.foldl exec s := by
  induction block generalizing s with
  | nil => rfl
  | cons i block ih =>
      rw [List.all_cons, Bool.and_eq_true] at hstraight
      rw [List.length_cons, Function.iterate_succ_apply, step_at h, List.foldl_cons]
      apply ih _ hstraight.2
      rw [exec_pc hstraight.1]
      exact h.tail

theorem leads_instr (h : At machine.text s.pc (i :: rest))
    (hrest : Leads machine.step (exec s i) Q) : Leads machine.step s Q := by
  apply Leads.run 1
  rw [Function.iterate_one, step_at h]
  exact hrest

theorem block_pc (hstraight : block.all Instr.straight = true) :
    (block.foldl exec s).pc = s.pc + block.length := by
  induction block generalizing s with
  | nil => exact (Int.add_zero _).symm
  | cons i block ih =>
      rw [List.all_cons, Bool.and_eq_true] at hstraight
      rw [List.foldl_cons, ih hstraight.2, exec_pc hstraight.1, List.length_cons]
      omega

/-- A block of instructions that go on to the next is run as a whole. -/
theorem leads_block (block : List Instr) (h : At machine.text s.pc block)
    (hstraight : block.all Instr.straight = true)
    (hrest : ∀ t, t = block.foldl exec s → t.pc = s.pc + block.length → Leads machine.step t Q) :
    Leads machine.step s Q := by
  apply Leads.run block.length
  rw [run_block h hstraight]
  exact hrest _ rfl (block_pc hstraight)

theorem land_self (x : ℤ) : Int.land x x = x := by
  cases x with
  | ofNat n => exact congrArg Int.ofNat (Nat.and_self n)
  | negSucc n => exact congrArg Int.negSucc (Nat.or_self n)

theorem xor_self (x : ℤ) : Int.xor x x = 0 := by
  cases x with
  | ofNat n => exact congrArg Int.ofNat (Nat.xor_self n)
  | negSucc n => exact congrArg Int.ofNat (Nat.xor_self n)

/-- A register is compared with zero, and a jump taken if it is. -/
theorem leads_jz {r : Reg} (h : At machine.text s.pc (.test r r :: .jz label :: rest))
    (hzero : s.reg r = 0 → Leads machine.step ({ s with zf := true }.goto label) Q)
    (hnonzero : s.reg r ≠ 0 → Leads machine.step ({ s with zf := false }.next.next) Q) :
    Leads machine.step s Q := by
  refine leads_instr h (leads_instr h.tail ?_)
  unfold exec
  by_cases hr : s.reg r = 0
  · simp only [land_self, hr, decide_true]
    exact hzero hr
  · simp only [land_self, hr, decide_false]
    exact hnonzero hr

/-! ## The calling convention -/

/-- The stack pointer is below the top, and the other words of the program are above it. -/
structure State.WellFormed (s : State W) : Prop where
  stack : s.reg .rsp < 0
  owned : ∀ a ∈ s.owned, 0 ≤ a

/-- The stack from an address on is as it was, and so are the words that the program had. -/
structure Kept (lo : ℤ) (s t : State W) : Prop where
  stack : ∀ a, lo ≤ a → a < 0 → t.mem a = s.mem a
  words : ∀ a ∈ s.owned, t.mem a = s.mem a
  owned : s.owned ⊆ t.owned
  nonneg : ∀ a ∈ t.owned, 0 ≤ a

/-- The registers that a procedure hands back as it found them. -/
def calleeSaved : List Reg := [.rbx, .rbp, .r12, .r13, .r14]

theorem forall_calleeSaved {P : Reg → Prop} :
    (∀ r ∈ calleeSaved, P r) ↔ P .rbx ∧ P .rbp ∧ P .r12 ∧ P .r13 ∧ P .r14 := by
  simp [calleeSaved]

/-- The procedure entered in `s` has returned. -/
structure Returned (s t : State W) : Prop where
  pc : t.pc = s.mem (s.reg .rsp)
  rsp : t.reg .rsp = s.reg .rsp + 8
  saved : ∀ r ∈ calleeSaved, t.reg r = s.reg r
  kept : Kept (s.reg .rsp + 8) s t

/-- The procedure called in `s` has returned. -/
structure Continued (s t : State W) : Prop where
  pc : t.pc = s.pc + 1
  rsp : t.reg .rsp = s.reg .rsp
  saved : ∀ r ∈ calleeSaved, t.reg r = s.reg r
  kept : Kept (s.reg .rsp) s t

/-- Entered with the precondition, the procedure returns with the postcondition. -/
def Procedure (machine : Machine W) (entry : ℤ) (pre : State W → Prop)
    (post : State W → State W → Prop) : Prop :=
  ∀ s, s.WellFormed → s.pc = entry → pre s →
    Leads machine.step s fun t => Returned s t ∧ post s t

namespace Kept

variable {lo lo' : ℤ}

theorem of_mem (hs : s.WellFormed) (hlo : lo ≤ 0) (hmem : ∀ a, lo ≤ a → t.mem a = s.mem a)
    (howned : t.owned = s.owned) : Kept lo s t where
  stack a ha _ := hmem a ha
  words a ha := hmem a (hlo.trans (hs.owned a ha))
  owned := by
    rw [howned]
    exact List.Subset.refl _
  nonneg := by
    rw [howned]
    exact hs.owned

/-- Three words put on the stack below the address. -/
theorem of_pushes (hs : s.WellFormed) (hlo : lo ≤ 0) {a b c x y z : ℤ} (ha : a < lo) (hb : b < lo)
    (hc : c < lo) (hmem : t.mem = Function.update (Function.update (Function.update s.mem a x) b y) c z)
    (howned : t.owned = s.owned) : Kept lo s t := by
  refine of_mem hs hlo ?_ howned
  intro d hd
  rw [hmem, Function.update_of_ne (hc.trans_le hd).ne', Function.update_of_ne (hb.trans_le hd).ne',
    Function.update_of_ne (ha.trans_le hd).ne']

theorem of_same (h : Kept lo s t) (hmem : u.mem = t.mem) (howned : u.owned = t.owned) :
    Kept lo s u where
  stack := by
    rw [hmem]
    exact h.stack
  words := by
    rw [hmem]
    exact h.words
  owned := by
    rw [howned]
    exact h.owned
  nonneg := by
    rw [howned]
    exact h.nonneg

theorem trans (h : Kept lo s t) (h' : Kept lo' t u) (hle : lo' ≤ lo) : Kept lo s u where
  stack a ha hneg := (h'.stack a (hle.trans ha) hneg).trans (h.stack a ha hneg)
  words a ha := (h'.words a (h.owned ha)).trans (h.words a ha)
  owned := List.Subset.trans h.owned h'.owned
  nonneg := h'.nonneg

theorem mono (h : Kept lo s t) (hle : lo ≤ lo') : Kept lo' s t where
  stack a ha := h.stack a (hle.trans ha)
  words := h.words
  owned := h.owned
  nonneg := h.nonneg

end Kept

/-- What a call puts on the stack is below the words of the caller. -/
theorem call_kept (hs : s.WellFormed) (target : Operand) :
    Kept (s.reg .rsp) s (exec s (.call target)) := by
  refine Kept.of_mem hs hs.stack.le ?_ rfl
  intro a ha
  apply Function.update_of_ne
  omega

/-- A call of a procedure comes back to the instruction behind it. -/
theorem Procedure.call {entry : ℤ} {target : Operand} {pre : State W → Prop}
    {post : State W → State W → Prop} (hproc : Procedure machine entry pre post)
    (hat : At machine.text s.pc (.call target :: rest)) (hentry : s.value target = entry)
    (hs : s.WellFormed) (hpre : pre (exec s (.call target))) :
    Leads machine.step s fun t => Continued s t ∧ post (exec s (.call target)) t := by
  have hlow : s.reg .rsp - 8 < 0 := by
    have hstack := hs.stack
    omega
  apply leads_instr hat
  apply (hproc (exec s (.call target)) ⟨hlow, hs.owned⟩ hentry hpre).mono
  rintro t ⟨hreturned, hpost⟩
  have hrsp : (exec s (.call target)).reg .rsp + 8 = s.reg .rsp := Int.sub_add_cancel _ _
  refine ⟨⟨?_, ?_, ?_, ?_⟩, hpost⟩
  · rw [hreturned.pc]
    exact Function.update_self ..
  · exact hreturned.rsp.trans hrsp
  · intro r hr
    refine (hreturned.saved r hr).trans (Function.update_of_ne ?_ _ _)
    rintro rfl
    exact absurd hr (by decide)
  · have hkept := hreturned.kept
    rw [hrsp] at hkept
    exact (call_kept hs target).trans hkept le_rfl

/-- In the body of the procedure entered in `s`: words of its frame, and registers that are still as
the caller left them. -/
structure Inside (frame : List (ℤ × ℤ)) (untouched : List Reg) (s t : State W) : Prop where
  frame : ∀ slot ∈ frame, t.mem slot.1 = slot.2
  untouched : ∀ r ∈ untouched, t.reg r = s.reg r
  kept : Kept (s.reg .rsp) s t

namespace Inside

variable {frame : List (ℤ × ℤ)} {untouched : List Reg}

/-- Instructions that store nothing and write none of the registers. -/
theorem of_same (h : Inside frame untouched s t) (hmem : u.mem = t.mem) (howned : u.owned = t.owned)
    (hreg : ∀ r ∈ untouched, u.reg r = t.reg r) : Inside frame untouched s u where
  frame slot hslot := by
    rw [hmem]
    exact h.frame slot hslot
  untouched r hr := (hreg r hr).trans (h.untouched r hr)
  kept := h.kept.of_same hmem howned

/-- Further down the stack, the state is one that calls can be made from. -/
theorem wellFormed (h : Inside frame untouched s t) (hs : s.WellFormed)
    (hrsp : t.reg .rsp ≤ s.reg .rsp) : t.WellFormed where
  stack := hrsp.trans_lt hs.stack
  owned := h.kept.nonneg

/-- A call leaves the frame of the caller alone. -/
theorem continued (h : Inside frame untouched s t) (hcall : Continued t u)
    (hrsp : t.reg .rsp ≤ s.reg .rsp)
    (hframe : ∀ slot ∈ frame, t.reg .rsp ≤ slot.1 ∧ slot.1 < 0) (hsaved : untouched ⊆ calleeSaved) :
    Inside frame untouched s u where
  frame slot hslot := by
    rw [hcall.kept.stack slot.1 (hframe slot hslot).1 (hframe slot hslot).2]
    exact h.frame slot hslot
  untouched r hr := (hcall.saved r (hsaved hr)).trans (h.untouched r hr)
  kept := h.kept.trans hcall.kept hrsp

/-- The return of the procedure, with the registers loaded from the frame. -/
theorem returned (h : Inside frame untouched s t) (hs : s.WellFormed) (hmem : u.mem = t.mem)
    (howned : u.owned = t.owned) (hpc : u.pc = t.mem (s.reg .rsp))
    (hrsp : u.reg .rsp = s.reg .rsp + 8) (hsaved : ∀ r ∈ calleeSaved, u.reg r = s.reg r) :
    Returned s u where
  pc := by
    rw [hpc]
    exact h.kept.stack _ le_rfl hs.stack
  rsp := hrsp
  saved := hsaved
  kept := (h.kept.of_same hmem howned).mono (Int.le_add_of_nonneg_right (by decide))

end Inside

end OtusCProg.Library.X86
