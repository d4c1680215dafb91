import OtusCProg.Library.X86

/-!
# The assembly list program

`main.asm`, instruction by instruction. A label is the number of the instruction
behind it. The data section starts at an address of its own, and the functions
of the C library have addresses outside the text.
-/

namespace OtusCProg.ListAssembly
open Library Library.X86

/-! ## Addresses -/

def malloc : ℤ := -1
def puts : ℤ := -2
def printf : ℤ := -3
def fflush : ℤ := -4
def abort : ℤ := -5

def empty_str : ℤ := 4096
def int_format : ℤ := 4097
def data : ℤ := 4102

def print_int : ℤ := 0
def p : ℤ := 12
def add_element : ℤ := 15
def m : ℤ := 33
def outm : ℤ := 49
def f : ℤ := 52
def z : ℤ := 70
def ff : ℤ := 71
def outf : ℤ := 77
def main : ℤ := 78
def adding_loop : ℤ := 81

/-! ## The text -/

def print_int_text : List Instr :=
  [.push .rbp, .mov .rbp (.reg .rsp), .sub .rsp 16,
    .mov .rsi (.reg .rdi), .mov .rdi (.imm int_format), .xor .rax .rax, .call (.imm printf),
    .xor .rdi .rdi, .call (.imm fflush),
    .mov .rsp (.reg .rbp), .pop .rbp, .ret]

def p_text : List Instr := [.mov .rax (.reg .rdi), .and .rax 1, .ret]

def add_element_text : List Instr :=
  [.push .rbp, .push .rbx, .push .r14, .mov .rbp (.reg .rsp), .sub .rsp 16,
    .mov .r14 (.reg .rdi), .mov .rbx (.reg .rsi),
    .mov .rdi (.imm 16), .call (.imm malloc), .test .rax .rax, .jz abort,
    .store ⟨0, .rax, 1⟩ .r14, .store ⟨8, .rax, 1⟩ .rbx,
    .mov .rsp (.reg .rbp), .pop .r14, .pop .rbx, .pop .rbp, .ret]

def m_text : List Instr :=
  [.push .rbp, .mov .rbp (.reg .rsp), .sub .rsp 16,
    .test .rdi .rdi, .jz outm,
    .push .rbp, .push .rbx,
    .mov .rbx (.reg .rdi), .mov .rbp (.reg .rsi),
    .mov .rdi (.mem ⟨0, .rdi, 1⟩), .call (.reg .rsi),
    .mov .rdi (.mem ⟨8, .rbx, 1⟩), .mov .rsi (.reg .rbp), .call (.imm m),
    .pop .rbx, .pop .rbp,
    -- outm
    .mov .rsp (.reg .rbp), .pop .rbp, .ret]

def f_text : List Instr :=
  [.mov .rax (.reg .rsi),
    .test .rdi .rdi, .jz outf,
    .push .rbx, .push .r12, .push .r13,
    .mov .rbx (.reg .rdi), .mov .r12 (.reg .rsi), .mov .r13 (.reg .rdx),
    .mov .rdi (.mem ⟨0, .rdi, 1⟩), .call (.reg .rdx), .test .rax .rax, .jz z,
    .mov .rdi (.mem ⟨0, .rbx, 1⟩), .mov .rsi (.reg .r12), .call (.imm add_element),
    .mov .rsi (.reg .rax), .jmp ff,
    -- z
    .mov .rsi (.reg .r12),
    -- ff
    .mov .rdi (.mem ⟨8, .rbx, 1⟩), .mov .rdx (.reg .r13), .call (.imm f),
    .pop .r13, .pop .r12, .pop .rbx,
    -- outf
    .ret]

def main_text (data_length : ℤ) : List Instr :=
  [.push .rbx,
    .xor .rax .rax, .mov .rbx (.imm data_length),
    -- adding_loop
    .mov .rdi (.mem ⟨data - 8, .rbx, 8⟩), .mov .rsi (.reg .rax), .call (.imm add_element),
    .dec .rbx, .jnz adding_loop,
    .mov .rbx (.reg .rax),
    .mov .rdi (.reg .rax), .mov .rsi (.imm print_int), .call (.imm m),
    .mov .rdi (.imm empty_str), .call (.imm puts),
    .mov .rdx (.imm p), .xor .rsi .rsi, .mov .rdi (.reg .rbx), .call (.imm f),
    .mov .rdi (.reg .rax), .mov .rsi (.imm print_int), .call (.imm m),
    .mov .rdi (.imm empty_str), .call (.imm puts),
    .pop .rbx,
    .xor .rax .rax, .ret]

def text (data_length : ℤ) : List Instr :=
  print_int_text ++ p_text ++ add_element_text ++ m_text ++ f_text ++ main_text data_length

/-- The program with `data_length` elements in its array. -/
def program {W : Type} (data_length : ℕ) (outside : State W → State W) : Machine W :=
  ⟨text data_length, outside⟩

/-! ## Data -/

variable {W : Type} {s t : State W} {q lo : ℤ} {nodes : List (ℤ × ℤ)}

/-- A list in memory: the addresses of the nodes, which the program has, and their values. -/
def Linked (s : State W) : ℤ → List (ℤ × ℤ) → Prop
  | q, [] => q = 0
  | q, node :: rest =>
      q = node.1 ∧ node.1 ≠ 0 ∧ node.1 ∈ s.owned ∧ node.1 + 8 ∈ s.owned ∧
        s.mem node.1 = node.2 ∧ Linked s (s.mem (node.1 + 8)) rest

/-- The elements of the array. -/
def Array (s : State W) (values : List ℤ) : Prop :=
  ∀ (i : ℕ) (hi : i < values.length), data + i * 8 ∈ s.owned ∧ s.mem (data + i * 8) = values[i]

/-- A request that is met: the block is new, and is the program's from then on. -/
def Allocates (machine : Machine W) : Prop :=
  Procedure machine malloc (fun s => s.reg .rdi = 16) fun s t =>
    0 < t.reg .rax ∧ t.reg .rax ∉ s.owned ∧ t.reg .rax + 8 ∉ s.owned ∧
      t.reg .rax ∈ t.owned ∧ t.reg .rax + 8 ∈ t.owned

/-- A function of a number, which may leave something behind in the world. -/
def Selects (machine : Machine W) (func : ℤ) (sel : ℤ → ℤ) : Prop :=
  Procedure machine func (fun _ => True) fun s t => t.reg .rax = sel (s.reg .rdi)

/-- A function that does something with a number. -/
def Consumes (machine : Machine W) (func : ℤ) (effect : ℤ → W → W) : Prop :=
  Procedure machine func (fun _ => True) fun s t => t.world = effect (s.reg .rdi) s.world

theorem Linked.kept (h : Linked s q nodes) (hkept : Kept lo s t) : Linked t q nodes := by
  induction nodes generalizing q with
  | nil => exact h
  | cons node rest ih =>
      obtain ⟨hq, hne, hvalue, hnext, hmem, hrest⟩ := h
      refine ⟨hq, hne, hkept.owned hvalue, hkept.owned hnext, ?_, ?_⟩
      · rw [hkept.words _ hvalue]
        exact hmem
      · rw [hkept.words _ hnext]
        exact ih hrest

/-- Instructions that store nothing. -/
theorem Linked.of_same (h : Linked s q nodes) (hmem : t.mem = s.mem) (howned : t.owned = s.owned) :
    Linked t q nodes := by
  induction nodes generalizing q with
  | nil => exact h
  | cons node rest ih =>
      obtain ⟨hq, hne, hvalue, hnext, hnode, hrest⟩ := h
      rw [← howned] at hvalue hnext
      rw [← hmem] at hnode hrest
      exact ⟨hq, hne, hvalue, hnext, hnode, ih hrest⟩

theorem Array.kept {values : List ℤ} (h : Array s values) (hkept : Kept lo s t) : Array t values := by
  intro i hi
  obtain ⟨howned, hmem⟩ := h i hi
  refine ⟨hkept.owned howned, ?_⟩
  rw [hkept.words _ howned]
  exact hmem

end OtusCProg.ListAssembly
