import OtusCProg.ListAssembly.Model
import Mathlib.Algebra.Order.Ring.Int

/-!
# What the assembly routines do

Each routine is taken block by block, from one call to the next. In between it
is known what the frame holds, which registers are still as the caller left
them, and what the routine keeps in the others.
-/

namespace OtusCProg.ListAssembly
open Library Library.X86
variable {W : Type} {data_length : ℕ} {outside : State W → State W} {s t u : State W}

/-- Each routine has three words in its frame. -/
theorem forall_slots {P : ℤ × ℤ → Prop} {x y z : ℤ × ℤ} :
    (∀ slot ∈ [x, y, z], P slot) ↔ P x ∧ P y ∧ P z := by
  simp

theorem frame_words {untouched : List Reg} {a b c x y z : ℤ}
    (h : Inside [(a, x), (b, y), (c, z)] untouched s t) : t.mem a = x ∧ t.mem b = y ∧ t.mem c = z :=
  forall_slots.mp h.frame

/-! ## `add_element` -/

/-- Between the first block of `add_element` and the last. -/
structure Adding (s t : State W) : Prop where
  inside : Inside [(s.reg .rsp - 8, s.reg .rbp), (s.reg .rsp - 16, s.reg .rbx),
    (s.reg .rsp - 24, s.reg .r14)] [.r12, .r13] s t
  rsp : t.reg .rsp = s.reg .rsp - 40
  rbp : t.reg .rbp = s.reg .rsp - 24
  value : t.reg .r14 = s.reg .rdi
  list : t.reg .rbx = s.reg .rsi

theorem adding_enter (hs : s.WellFormed) : Adding s ((add_element_text.take 8).foldl exec s) := by
  have hmem : ((add_element_text.take 8).foldl exec s).mem =
      Function.update (Function.update (Function.update s.mem (s.reg .rsp - 8) (s.reg .rbp))
        (s.reg .rsp - 8 - 8) (s.reg .rbx)) (s.reg .rsp - 8 - 8 - 8) (s.reg .r14) := rfl
  refine ⟨⟨?_, ?_, ?_⟩, ?_, ?_, rfl, rfl⟩
  · rw [hmem]
    simp [Function.update_apply, sub_sub]
  · simp only [List.forall_mem_cons]
    exact ⟨rfl, rfl, nofun⟩
  · exact Kept.of_pushes hs hs.stack.le (by omega) (by omega) (by omega) hmem rfl
  · change s.reg .rsp - 8 - 8 - 8 - 16 = _
    omega
  · change s.reg .rsp - 8 - 8 - 8 = _
    omega

theorem Adding.continued (h : Adding s t) (hs : s.WellFormed) (hcall : Continued t u) :
    Adding s u where
  inside := by
    have hrsp := h.rsp
    have hstack := hs.stack
    refine h.inside.continued hcall (by omega) (forall_slots.mpr ?_) (by decide)
    dsimp only
    omega
  rsp := hcall.rsp.trans h.rsp
  rbp := (hcall.saved .rbp (by decide)).trans h.rbp
  value := (hcall.saved .r14 (by decide)).trans h.value
  list := (hcall.saved .rbx (by decide)).trans h.list

theorem Adding.wellFormed (h : Adding s t) (hs : s.WellFormed) : t.WellFormed := by
  apply h.inside.wellFormed hs
  rw [h.rsp]
  exact Int.sub_le_self _ (by decide)

/-- The node is filled in. -/
def stores : List Instr := [.store ⟨0, .rax, 1⟩ .r14, .store ⟨8, .rax, 1⟩ .rbx]

theorem adding_stores (h : Adding s t) (hs : s.WellFormed) (hpos : 0 < t.reg .rax)
    (hnew : t.reg .rax ∉ s.owned) (hnew' : t.reg .rax + 8 ∉ s.owned) :
    Adding s (stores.foldl exec t) ∧ (stores.foldl exec t).mem (t.reg .rax) = s.reg .rdi ∧
      (stores.foldl exec t).mem (t.reg .rax + 8) = s.reg .rsi := by
  have hmem : (stores.foldl exec t).mem = Function.update (Function.update t.mem
      (0 + t.reg .rax * 1) (t.reg .r14)) (8 + t.reg .rax * 1) (t.reg .rbx) := rfl
  have hother : ∀ a, a ≠ t.reg .rax → a ≠ t.reg .rax + 8 → (stores.foldl exec t).mem a = t.mem a := by
    intro a ha ha'
    rw [hmem, Function.update_of_ne (by omega), Function.update_of_ne (by omega)]
  have hkept : Kept (s.reg .rsp) s (stores.foldl exec t) := by
    refine ⟨?_, ?_, h.inside.kept.owned, h.inside.kept.nonneg⟩
    · intro a ha hneg
      rw [hother a (by omega) (by omega)]
      exact h.inside.kept.stack a ha hneg
    · intro a ha
      rw [hother a (fun heq => hnew (heq ▸ ha)) (fun heq => hnew' (heq ▸ ha))]
      exact h.inside.kept.words a ha
  refine ⟨⟨⟨?_, ?_, hkept⟩, h.rsp, h.rbp, h.value, h.list⟩, ?_, ?_⟩
  · intro slot hslot
    have hneg : slot.1 < 0 := by
      have hstack := hs.stack
      simp only [List.mem_cons, List.not_mem_nil, or_false] at hslot
      rcases hslot with rfl | rfl | rfl <;> dsimp only <;> omega
    rw [hother slot.1 (by omega) (by omega)]
    exact h.inside.frame slot hslot
  · simp only [List.forall_mem_cons]
    exact ⟨h.inside.untouched .r12 (by decide), h.inside.untouched .r13 (by decide), nofun⟩
  · rw [hmem, Function.update_of_ne (by omega), Int.zero_add, Int.mul_one, Function.update_self]
    exact h.value
  · rw [hmem, Int.mul_one, Int.add_comm 8, Function.update_self]
    exact h.list

theorem adding_leave (h : Adding s t) (hs : s.WellFormed) :
    Returned s ((add_element_text.drop 13).foldl exec t) := by
  obtain ⟨hrbp, hrbx, hr14⟩ := frame_words h.inside
  refine h.inside.returned hs rfl rfl ?_ ?_ ?_
  · change t.mem (t.reg .rbp + 8 + 8 + 8) = _
    rw [h.rbp]
    congr 1
    omega
  · change t.reg .rbp + 8 + 8 + 8 + 8 = _
    rw [h.rbp]
    omega
  · have h₁ : s.reg .rsp - 24 + 8 = s.reg .rsp - 16 := by omega
    have h₂ : s.reg .rsp - 16 + 8 = s.reg .rsp - 8 := by omega
    refine forall_calleeSaved.mpr ⟨?_, ?_, h.inside.untouched .r12 (by decide),
      h.inside.untouched .r13 (by decide), ?_⟩
    · change t.mem (t.reg .rbp + 8) = _
      rw [h.rbp, h₁, hrbx]
    · change t.mem (t.reg .rbp + 8 + 8) = _
      rw [h.rbp, h₁, h₂, hrbp]
    · change t.mem (t.reg .rbp) = _
      rw [h.rbp, hr14]

/-- A new node in front of a list. -/
theorem add_element_procedure (hmalloc : Allocates (program data_length outside)) :
    Procedure (program data_length outside) add_element (fun _ => True) fun s t =>
      ∀ nodes, Linked s (s.reg .rsi) nodes →
        Linked t (t.reg .rax) ((t.reg .rax, s.reg .rdi) :: nodes) := by
  intro s hs hpc _
  apply leads_block (add_element_text.take 8) ⟨15, hpc, _, rfl⟩ rfl
  intro t ht hpc₁
  rw [hpc] at hpc₁
  have hadding : Adding s t := ht ▸ adding_enter hs
  have hsize : t.reg .rdi = 16 := by
    rw [ht]
    rfl
  apply (hmalloc.call ⟨23, hpc₁, _, rfl⟩ rfl (hadding.wellFormed hs) hsize).bind
  rintro u ⟨hcall, hpos, hnew, hnew', hword, hword'⟩
  have hu := hadding.continued hs hcall
  have hpc₂ := hcall.pc
  rw [hpc₁] at hpc₂
  refine leads_jz ⟨24, hpc₂, _, rfl⟩ (fun h => absurd h hpos.ne') fun _ => ?_
  have hpc₃ : ({ u with zf := false }.next.next : State W).pc = 26 := by
    change u.pc + 1 + 1 = 26
    rw [hpc₂]
    rfl
  have hv : Adding s ({ u with zf := false }.next.next) :=
    ⟨hu.inside.of_same rfl rfl fun _ _ => rfl, hu.rsp, hu.rbp, hu.value, hu.list⟩
  obtain ⟨hstored, hvalue, hnext⟩ := adding_stores hv hs hpos
    (fun h => hnew (hadding.inside.kept.owned h)) (fun h => hnew' (hadding.inside.kept.owned h))
  apply leads_block (stores ++ (add_element_text.drop 13).take 4) ⟨26, hpc₃, _, rfl⟩ rfl
  rintro v rfl hpc₄
  rw [hpc₃] at hpc₄
  have hreturned := adding_leave hstored hs
  apply leads_instr ⟨32, hpc₄, _, rfl⟩
  apply Leads.now
  refine ⟨hreturned, fun nodes hnodes => ?_⟩
  have hrest := hnodes.kept hreturned.kept
  rw [← hnext] at hrest
  exact ⟨rfl, hpos.ne', hword, hword', hvalue, hrest⟩

/-! ## `m` -/

/-- Between the calls of `m`. -/
structure Mapping (s t : State W) : Prop where
  inside : Inside [(s.reg .rsp - 8, s.reg .rbp), (s.reg .rsp - 32, s.reg .rsp - 8),
    (s.reg .rsp - 40, s.reg .rbx)] [.r12, .r13, .r14] s t
  rsp : t.reg .rsp = s.reg .rsp - 40
  node : t.reg .rbx = s.reg .rdi
  func : t.reg .rbp = s.reg .rsi

/-- The first instructions of `m`, up to the comparison. -/
def mapping_head : List Instr := m_text.take 3

/-- The instructions behind the comparison, up to the call of the function. -/
def mapping_body : List Instr := (m_text.drop 5).take 5

theorem mapping_enter (hs : s.WellFormed)
    (ht : t = mapping_body.foldl exec ({ mapping_head.foldl exec s with zf := false }.next.next)) :
    Mapping s t ∧ t.reg .rdi = t.mem (s.reg .rdi) ∧ t.reg .rsi = s.reg .rsi ∧ t.world = s.world := by
  have hmem : t.mem = Function.update (Function.update (Function.update s.mem (s.reg .rsp - 8)
      (s.reg .rbp)) (s.reg .rsp - 8 - 16 - 8) (s.reg .rsp - 8)) (s.reg .rsp - 8 - 16 - 8 - 8)
      (s.reg .rbx) := by
    rw [ht]
    rfl
  have harg : t.reg .rdi = t.mem (0 + s.reg .rdi * 1) := by
    rw [ht]
    rfl
  rw [Int.mul_one, Int.zero_add] at harg
  refine ⟨⟨⟨?_, ?_, ?_⟩, ?_, ?_, ?_⟩, harg, ?_, ?_⟩
  · rw [hmem]
    simp [Function.update_apply, sub_sub]
  · rw [ht]
    simp only [List.forall_mem_cons]
    exact ⟨rfl, rfl, rfl, nofun⟩
  · exact Kept.of_pushes hs hs.stack.le (by omega) (by omega) (by omega) hmem (ht ▸ rfl)
  · rw [ht]
    change s.reg .rsp - 8 - 16 - 8 - 8 = _
    omega
  all_goals
    rw [ht]
    rfl

theorem Mapping.continued (h : Mapping s t) (hs : s.WellFormed) (hcall : Continued t u) :
    Mapping s u where
  inside := by
    have hrsp := h.rsp
    have hstack := hs.stack
    refine h.inside.continued hcall (by omega) (forall_slots.mpr ?_) (by decide)
    dsimp only
    omega
  rsp := hcall.rsp.trans h.rsp
  node := (hcall.saved .rbx (by decide)).trans h.node
  func := (hcall.saved .rbp (by decide)).trans h.func

theorem Mapping.wellFormed (h : Mapping s t) (hs : s.WellFormed) : t.WellFormed := by
  apply h.inside.wellFormed hs
  rw [h.rsp]
  exact Int.sub_le_self _ (by decide)

theorem mapping_leave (h : Mapping s t) (hs : s.WellFormed) :
    Returned s ((m_text.drop 14).foldl exec t) := by
  obtain ⟨hrbp, hframe, hrbx⟩ := frame_words h.inside
  have hpointer : t.mem (t.reg .rsp + 8) = s.reg .rsp - 8 := by
    rw [h.rsp, ← hframe]
    congr 1
    omega
  refine h.inside.returned hs rfl rfl ?_ ?_ ?_
  · change t.mem (t.mem (t.reg .rsp + 8) + 8) = _
    rw [hpointer, Int.sub_add_cancel]
  · change t.mem (t.reg .rsp + 8) + 8 + 8 = _
    rw [hpointer, Int.sub_add_cancel]
  · refine forall_calleeSaved.mpr ⟨?_, ?_, h.inside.untouched .r12 (by decide),
      h.inside.untouched .r13 (by decide), h.inside.untouched .r14 (by decide)⟩
    · change t.mem (t.reg .rsp) = _
      rw [h.rsp, hrbx]
    · change t.mem (t.mem (t.reg .rsp + 8)) = _
      rw [hpointer, hrbp]

/-- At the end of the list `m` returns at once. -/
theorem mapping_none (hs : s.WellFormed)
    (ht : t = (m_text.drop 16).foldl exec
      ({ mapping_head.foldl exec s with zf := true }.goto outm)) : Returned s t := by
  have hmem : t.mem = Function.update s.mem (s.reg .rsp - 8) (s.reg .rbp) := by
    rw [ht]
    rfl
  have hinside : Inside [] [.rbx, .r12, .r13, .r14] s t := by
    refine ⟨nofun, ?_, ?_⟩
    · rw [ht]
      simp only [List.forall_mem_cons]
      exact ⟨rfl, rfl, rfl, rfl, nofun⟩
    · refine Kept.of_mem hs hs.stack.le ?_ (ht ▸ rfl)
      intro a ha
      rw [hmem, Function.update_of_ne (by omega)]
  refine hinside.returned hs rfl rfl ?_ ?_ ?_
  · rw [ht]
    change Function.update s.mem (s.reg .rsp - 8) (s.reg .rbp) (s.reg .rsp - 8 + 8) = _
    rw [Int.sub_add_cancel]
    rfl
  · rw [ht]
    change s.reg .rsp - 8 + 8 + 8 = _
    rw [Int.sub_add_cancel]
  · have hrbp : t.reg .rbp = s.reg .rbp := by
      rw [ht]
      exact Function.update_self ..
    exact forall_calleeSaved.mpr ⟨hinside.untouched .rbx (by decide), hrbp,
      hinside.untouched .r12 (by decide), hinside.untouched .r13 (by decide),
      hinside.untouched .r14 (by decide)⟩

/-- The arguments of the call of `m` for the rest of the list. -/
def mapping_rest : List Instr := [.mov .rdi (.mem ⟨8, .rbx, 1⟩), .mov .rsi (.reg .rbp)]

theorem mapping_next (h : Mapping s t) (hu : u = mapping_rest.foldl exec t) :
    Mapping s u ∧ u.reg .rdi = t.mem (s.reg .rdi + 8) ∧ u.reg .rsi = s.reg .rsi ∧
      u.world = t.world := by
  have harg : u.reg .rdi = t.mem (8 + t.reg .rbx * 1) := by
    rw [hu]
    rfl
  rw [h.node, Int.mul_one, Int.add_comm] at harg
  rw [hu] at harg ⊢
  exact ⟨⟨h.inside.of_same rfl rfl (by simp only [List.forall_mem_cons]; exact ⟨rfl, rfl, rfl, nofun⟩),
    h.rsp, h.node, h.func⟩, harg, h.func, rfl⟩

/-- The first half of `m`: the function has been called on the first value. -/
theorem mapping_first {func : ℤ} {effect : ℤ → W → W} {node : ℤ × ℤ} {rest : List (ℤ × ℤ)}
    {Q : State W → Prop} (hfunc : Consumes (program data_length outside) func effect)
    (hs : s.WellFormed) (hpc : s.pc = m) (hrsi : s.reg .rsi = func)
    (hnodes : Linked s (s.reg .rdi) (node :: rest))
    (hrest : ∀ t, t.pc = 44 → Mapping s t → t.world = effect node.2 s.world →
      Leads (program data_length outside).step t Q) :
    Leads (program data_length outside).step s Q := by
  obtain ⟨hnode, hne, howned, hnext, hvalue, -⟩ := hnodes
  apply leads_block mapping_head ⟨33, hpc, _, rfl⟩ rfl
  rintro t rfl hpc₁
  rw [hpc] at hpc₁
  refine leads_jz ⟨36, hpc₁, _, rfl⟩ (fun h => absurd (hnode.symm.trans h) hne) fun _ => ?_
  apply leads_block mapping_body ⟨38, congrArg (· + 1 + 1) hpc₁, _, rfl⟩ rfl
  intro t ht hpc₂
  have hat₂ : t.pc = 43 := hpc₂.trans (congrArg (· + 1 + 1 + 5) hpc₁)
  obtain ⟨hmapping, harg, hfunc', hworld⟩ := mapping_enter hs ht
  rw [hnode, hmapping.inside.kept.words _ howned, hvalue] at harg
  apply (hfunc.call ⟨43, hat₂, _, rfl⟩ (hfunc'.trans hrsi) (hmapping.wellFormed hs) trivial).bind
  rintro u ⟨hcall, heffect⟩
  apply hrest u (hcall.pc.trans (congrArg (· + 1) hat₂)) (hmapping.continued hs hcall)
  rw [← harg, ← hworld]
  exact heffect

/-- The second half: `m` is called on the rest of the list. -/
theorem mapping_last {func : ℤ} {effect : ℤ → W → W} {rest : List (ℤ × ℤ)}
    (ih : Procedure (program data_length outside) m
      (fun s => s.reg .rsi = func ∧ Linked s (s.reg .rdi) rest)
      fun s t => t.world = (rest.map Prod.snd).foldl (fun w value => effect value w) s.world)
    (hs : s.WellFormed) (h : Mapping s t) (hpc : t.pc = 44) (hrsi : s.reg .rsi = func)
    (hnext : s.reg .rdi + 8 ∈ s.owned) (hrest : Linked s (s.mem (s.reg .rdi + 8)) rest) :
    Leads (program data_length outside).step t fun u => Returned s u ∧
      u.world = (rest.map Prod.snd).foldl (fun w value => effect value w) t.world := by
  apply leads_block mapping_rest ⟨44, hpc, _, rfl⟩ rfl
  intro u hu hpc₁
  have hat₁ : u.pc = 46 := hpc₁.trans (congrArg (· + 2) hpc)
  obtain ⟨hmapping, harg, hfunc, hworld⟩ := mapping_next h hu
  have hwf := hmapping.wellFormed hs
  have hlist : Linked (exec u (.call (.imm m))) (u.reg .rdi) rest := by
    rw [harg, h.inside.kept.words _ hnext]
    exact (hrest.kept hmapping.inside.kept).kept (call_kept hwf _)
  apply (ih.call ⟨46, hat₁, _, rfl⟩ rfl hwf ⟨hfunc.trans hrsi, hlist⟩).bind
  rintro v ⟨hcall, hrun⟩
  have hat₂ : v.pc = 47 := hcall.pc.trans (congrArg (· + 1) hat₁)
  apply leads_block ((m_text.drop 14).take 4) ⟨47, hat₂, _, rfl⟩ rfl
  rintro w rfl hpc₃
  apply leads_instr ⟨51, hpc₃.trans (congrArg (· + 4) hat₂), _, rfl⟩
  apply Leads.now
  refine ⟨mapping_leave (hmapping.continued hs hcall) hs, ?_⟩
  change v.world = _
  rw [hrun, ← hworld]
  rfl

/-- `m` calls the function on the values in their order. -/
theorem m_procedure {func : ℤ} {effect : ℤ → W → W}
    (hfunc : Consumes (program data_length outside) func effect) (nodes : List (ℤ × ℤ)) :
    Procedure (program data_length outside) m
      (fun s => s.reg .rsi = func ∧ Linked s (s.reg .rdi) nodes)
      fun s t => t.world = (nodes.map Prod.snd).foldl (fun w value => effect value w) s.world := by
  induction nodes with
  | nil =>
      rintro s hs hpc ⟨hrsi, hnodes⟩
      apply leads_block mapping_head ⟨33, hpc, _, rfl⟩ rfl
      rintro t rfl hpc₁
      rw [hpc] at hpc₁
      refine leads_jz ⟨36, hpc₁, _, rfl⟩ (fun _ => ?_) (fun h => absurd hnodes h)
      apply leads_block ((m_text.drop 16).take 2) ⟨49, rfl, _, rfl⟩ rfl
      rintro u rfl hpc₂
      apply leads_instr ⟨51, hpc₂, _, rfl⟩
      exact Leads.now ⟨mapping_none hs rfl, rfl⟩
  | cons node rest ih =>
      rintro s hs hpc ⟨hrsi, hnodes⟩
      refine mapping_first hfunc hs hpc hrsi hnodes fun t hat ht hworld => ?_
      obtain ⟨hnode, _, _, hnext, _, hrest⟩ := hnodes
      rw [← hnode] at hnext hrest
      have hrun := mapping_last ih hs ht hat hrsi hnext hrest
      rw [hworld] at hrun
      exact hrun

/-! ## `f` -/

/-- Between the calls of `f`. -/
structure Filtering (s t : State W) : Prop where
  inside : Inside [(s.reg .rsp - 8, s.reg .rbx), (s.reg .rsp - 16, s.reg .r12),
    (s.reg .rsp - 24, s.reg .r13)] [.rbp, .r14] s t
  rsp : t.reg .rsp = s.reg .rsp - 24
  node : t.reg .rbx = s.reg .rdi
  list : t.reg .r12 = s.reg .rsi
  func : t.reg .r13 = s.reg .rdx

/-- The first instruction of `f`. -/
def filtering_head : List Instr := f_text.take 1

/-- The instructions behind the comparison, up to the call of the predicate. -/
def filtering_body : List Instr := (f_text.drop 3).take 7

theorem filtering_enter (hs : s.WellFormed)
    (ht : t = filtering_body.foldl exec ({ filtering_head.foldl exec s with zf := false }.next.next)) :
    Filtering s t ∧ t.reg .rdi = t.mem (s.reg .rdi) ∧ t.reg .rdx = s.reg .rdx := by
  have hmem : t.mem = Function.update (Function.update (Function.update s.mem (s.reg .rsp - 8)
      (s.reg .rbx)) (s.reg .rsp - 8 - 8) (s.reg .r12)) (s.reg .rsp - 8 - 8 - 8) (s.reg .r13) := by
    rw [ht]
    rfl
  have harg : t.reg .rdi = t.mem (0 + s.reg .rdi * 1) := by
    rw [ht]
    rfl
  rw [Int.mul_one, Int.zero_add] at harg
  refine ⟨⟨⟨?_, ?_, ?_⟩, ?_, ?_, ?_, ?_⟩, harg, ?_⟩
  · rw [hmem]
    simp [Function.update_apply, sub_sub]
  · rw [ht]
    simp only [List.forall_mem_cons]
    exact ⟨rfl, rfl, nofun⟩
  · exact Kept.of_pushes hs hs.stack.le (by omega) (by omega) (by omega) hmem (ht ▸ rfl)
  · rw [ht]
    change s.reg .rsp - 8 - 8 - 8 = _
    omega
  all_goals
    rw [ht]
    rfl

namespace Filtering

theorem continued (h : Filtering s t) (hs : s.WellFormed) (hcall : Continued t u) :
    Filtering s u where
  inside := by
    have hrsp := h.rsp
    have hstack := hs.stack
    refine h.inside.continued hcall (by omega) (forall_slots.mpr ?_) (by decide)
    dsimp only
    omega
  rsp := hcall.rsp.trans h.rsp
  node := (hcall.saved .rbx (by decide)).trans h.node
  list := (hcall.saved .r12 (by decide)).trans h.list
  func := (hcall.saved .r13 (by decide)).trans h.func

/-- Instructions that store nothing and write none of the registers that `f` counts on. -/
theorem of_same (h : Filtering s t) (hmem : u.mem = t.mem) (howned : u.owned = t.owned)
    (hrsp : u.reg .rsp = t.reg .rsp) (hreg : ∀ r ∈ calleeSaved, u.reg r = t.reg r) :
    Filtering s u where
  inside := h.inside.of_same hmem howned fun r hr =>
    hreg r ((by decide : [Reg.rbp, Reg.r14] ⊆ calleeSaved) hr)
  rsp := hrsp.trans h.rsp
  node := (hreg .rbx (by decide)).trans h.node
  list := (hreg .r12 (by decide)).trans h.list
  func := (hreg .r13 (by decide)).trans h.func

theorem wellFormed (h : Filtering s t) (hs : s.WellFormed) : t.WellFormed := by
  apply h.inside.wellFormed hs
  rw [h.rsp]
  exact Int.sub_le_self _ (by decide)

end Filtering

theorem filtering_leave (h : Filtering s t) (hs : s.WellFormed) :
    Returned s ((f_text.drop 22).foldl exec t) := by
  obtain ⟨hrbx, hr12, hr13⟩ := frame_words h.inside
  have h₁ : s.reg .rsp - 24 + 8 = s.reg .rsp - 16 := by omega
  have h₂ : s.reg .rsp - 16 + 8 = s.reg .rsp - 8 := by omega
  refine h.inside.returned hs rfl rfl ?_ ?_ ?_
  · change t.mem (t.reg .rsp + 8 + 8 + 8) = _
    rw [h.rsp, h₁, h₂, Int.sub_add_cancel]
  · change t.reg .rsp + 8 + 8 + 8 + 8 = _
    rw [h.rsp, h₁, h₂, Int.sub_add_cancel]
  · refine forall_calleeSaved.mpr ⟨?_, h.inside.untouched .rbp (by decide), ?_, ?_,
      h.inside.untouched .r14 (by decide)⟩
    · change t.mem (t.reg .rsp + 8 + 8) = _
      rw [h.rsp, h₁, h₂, hrbx]
    · change t.mem (t.reg .rsp + 8) = _
      rw [h.rsp, h₁, hr12]
    · change t.mem (t.reg .rsp) = _
      rw [h.rsp, hr13]

/-- At the end of the list `f` returns the accumulator. -/
theorem filtering_none (hs : s.WellFormed)
    (ht : t = exec ({ filtering_head.foldl exec s with zf := true }.goto outf) .ret) :
    Returned s t ∧ t.reg .rax = s.reg .rsi := by
  have hinside : Inside [] [] s s := by
    refine ⟨nofun, nofun, ?_⟩
    exact Kept.of_mem hs hs.stack.le (fun _ _ => rfl) rfl
  rw [ht]
  exact ⟨hinside.returned hs rfl rfl rfl rfl (forall_calleeSaved.mpr ⟨rfl, rfl, rfl, rfl, rfl⟩), rfl⟩

/-- The result is the selected values in reverse order, in front of a list. -/
def Filtered (sel : ℤ → ℤ) (values : List ℤ) (more : List (ℤ × ℤ)) (t : State W) : Prop :=
  ∃ new, Linked t (t.reg .rax) (new ++ more) ∧
    new.map Prod.snd = (values.filter fun value => sel value ≠ 0).reverse

theorem Filtered.skip {sel : ℤ → ℤ} {value : ℤ} {values : List ℤ} {more : List (ℤ × ℤ)}
    (h : Filtered sel values more t) (hvalue : sel value = 0) :
    Filtered sel (value :: values) more t := by
  obtain ⟨new, hnew, hvalues⟩ := h
  refine ⟨new, hnew, ?_⟩
  rw [hvalues, List.filter_cons_of_neg (by simpa using hvalue)]

theorem Filtered.push {sel : ℤ → ℤ} {a value : ℤ} {values : List ℤ} {more : List (ℤ × ℤ)}
    (h : Filtered sel values ((a, value) :: more) t) (hvalue : sel value ≠ 0) :
    Filtered sel (value :: values) more t := by
  obtain ⟨new, hnew, hvalues⟩ := h
  refine ⟨new ++ [(a, value)], ?_, ?_⟩
  · rw [List.append_assoc]
    exact hnew
  · rw [List.map_append, hvalues, List.filter_cons_of_pos (by simpa using hvalue), List.reverse_cons]
    rfl

/-- What `f` is called with. -/
def Filterable (func : ℤ) (nodes more : List (ℤ × ℤ)) (s : State W) : Prop :=
  s.reg .rdx = func ∧ Linked s (s.reg .rdi) nodes ∧ Linked s (s.reg .rsi) more

/-- The arguments of the call of `f` for the rest of the list. -/
def filtering_next : List Instr := [.mov .rdi (.mem ⟨8, .rbx, 1⟩), .mov .rdx (.reg .r13)]

/-- From the label `ff` on, with the accumulator in its place. -/
theorem filtering_rest {func : ℤ} {sel : ℤ → ℤ} {rest more : List (ℤ × ℤ)}
    (ih : Procedure (program data_length outside) f (Filterable func rest more) fun _ t =>
      Filtered sel (rest.map Prod.snd) more t)
    (hs : s.WellFormed) (h : Filtering s t) (hpc : t.pc = ff) (hfunc : s.reg .rdx = func)
    (hnext : s.reg .rdi + 8 ∈ s.owned) (hrest : Linked s (s.mem (s.reg .rdi + 8)) rest)
    (hmore : Linked t (t.reg .rsi) more) :
    Leads (program data_length outside).step t fun u =>
      Returned s u ∧ Filtered sel (rest.map Prod.snd) more u := by
  apply leads_block filtering_next ⟨71, hpc, _, rfl⟩ rfl
  intro u hu hpc₁
  have hat₁ : u.pc = 73 := hpc₁.trans (congrArg (· + 2) hpc)
  have harg : u.reg .rdi = t.mem (8 + t.reg .rbx * 1) := by
    rw [hu]
    rfl
  rw [h.node, Int.mul_one, Int.add_comm, h.inside.kept.words _ hnext] at harg
  have hfiltering : Filtering s u := by
    rw [hu]
    exact h.of_same rfl rfl rfl (forall_calleeSaved.mpr ⟨rfl, rfl, rfl, rfl, rfl⟩)
  have hcalled := call_kept (hfiltering.wellFormed hs) (.imm f)
  have hargs : Filterable func rest more (exec u (.call (.imm f))) := by
    refine ⟨?_, ?_, ?_⟩
    · change u.reg .rdx = func
      rw [hu]
      exact h.func.trans hfunc
    · change Linked _ (u.reg .rdi) rest
      rw [harg]
      exact (hrest.kept hfiltering.inside.kept).kept hcalled
    · have hsame : Linked u (u.reg .rsi) more := by
        rw [hu]
        exact hmore.of_same rfl rfl
      exact hsame.kept hcalled
  apply (ih.call ⟨73, hat₁, _, rfl⟩ rfl (hfiltering.wellFormed hs) hargs).bind
  rintro v ⟨hcall, hfiltered⟩
  have hat₂ : v.pc = 74 := hcall.pc.trans (congrArg (· + 1) hat₁)
  apply leads_block ((f_text.drop 22).take 3) ⟨74, hat₂, _, rfl⟩ rfl
  rintro w rfl hpc₃
  apply leads_instr ⟨77, hpc₃.trans (congrArg (· + 3) hat₂), _, rfl⟩
  apply Leads.now
  refine ⟨filtering_leave (hfiltering.continued hs hcall) hs, ?_⟩
  obtain ⟨new, hnew, hvalues⟩ := hfiltered
  exact ⟨new, hnew.of_same rfl rfl, hvalues⟩

/-- Up to the comparison of what the predicate returned: it has been called on the first value. -/
theorem filtering_first {func : ℤ} {sel : ℤ → ℤ} {node : ℤ × ℤ} {rest more : List (ℤ × ℤ)}
    {Q : State W → Prop} (hsel : Selects (program data_length outside) func sel)
    (hs : s.WellFormed) (hpc : s.pc = f) (h : Filterable func (node :: rest) more s)
    (hrest : ∀ t, t.pc = 63 → Filtering s t → t.reg .rax = sel node.2 → Linked t (t.reg .r12) more →
      Leads (program data_length outside).step t Q) :
    Leads (program data_length outside).step s Q := by
  obtain ⟨hrdx, ⟨hnode, hne, howned, hnext, hvalue, htail⟩, hmore⟩ := h
  apply leads_block filtering_head ⟨52, hpc, _, rfl⟩ rfl
  rintro t rfl hpc₁
  rw [hpc] at hpc₁
  refine leads_jz ⟨53, hpc₁, _, rfl⟩ (fun h => absurd (hnode.symm.trans h) hne) fun _ => ?_
  apply leads_block filtering_body ⟨55, congrArg (· + 1 + 1) hpc₁, _, rfl⟩ rfl
  intro t ht hpc₂
  have hat₂ : t.pc = 62 := hpc₂.trans (congrArg (· + 1 + 1 + 7) hpc₁)
  obtain ⟨hfiltering, harg, hfunc⟩ := filtering_enter hs ht
  apply (hsel.call ⟨62, hat₂, _, rfl⟩ (hfunc.trans hrdx) (hfiltering.wellFormed hs) trivial).bind
  rintro u ⟨hcall, hresult⟩
  have hfiltering' := hfiltering.continued hs hcall
  apply hrest u (hcall.pc.trans (congrArg (· + 1) hat₂)) hfiltering'
  · rw [hnode, hfiltering.inside.kept.words _ howned, hvalue] at harg
    rw [← harg]
    exact hresult
  · rw [hfiltering'.list]
    exact hmore.kept hfiltering'.inside.kept

/-- The call of `add_element`, and the jump to `ff`. -/
theorem filtering_add {value : ℤ} {more : List (ℤ × ℤ)} {Q : State W → Prop}
    (hmalloc : Allocates (program data_length outside)) (hs : s.WellFormed) (hpc : t.pc = 65)
    (h : Filtering s t) (howned : s.reg .rdi ∈ s.owned) (hvalue : s.mem (s.reg .rdi) = value)
    (hmore : Linked t (t.reg .r12) more)
    (hrest : ∀ u a, u.pc = ff → Filtering s u → Linked u (u.reg .rsi) ((a, value) :: more) →
      Leads (program data_length outside).step u Q) :
    Leads (program data_length outside).step t Q := by
  apply leads_block [.mov .rdi (.mem ⟨0, .rbx, 1⟩), .mov .rsi (.reg .r12)] ⟨65, hpc, _, rfl⟩ rfl
  intro u hu hpc₁
  have hat₁ : u.pc = 67 := hpc₁.trans (congrArg (· + 2) hpc)
  have harg : u.reg .rdi = t.mem (0 + t.reg .rbx * 1) := by
    rw [hu]
    rfl
  rw [h.node, Int.mul_one, Int.zero_add, h.inside.kept.words _ howned, hvalue] at harg
  have hfiltering : Filtering s u := by
    rw [hu]
    exact h.of_same rfl rfl rfl (forall_calleeSaved.mpr ⟨rfl, rfl, rfl, rfl, rfl⟩)
  have hlist : Linked u (u.reg .rsi) more := by
    rw [hu]
    exact hmore.of_same rfl rfl
  have hwf := hfiltering.wellFormed hs
  apply ((add_element_procedure hmalloc).call ⟨67, hat₁, _, rfl⟩ rfl hwf trivial).bind
  rintro v ⟨hcall, hadded⟩
  have hat₂ : v.pc = 68 := hcall.pc.trans (congrArg (· + 1) hat₁)
  have hnew := hadded more (hlist.kept (call_kept hwf _))
  apply leads_block [.mov .rsi (.reg .rax)] ⟨68, hat₂, _, rfl⟩ rfl
  rintro w hw hpc₃
  apply leads_instr ⟨69, hpc₃.trans (congrArg (· + 1) hat₂), _, rfl⟩
  apply hrest _ (v.reg .rax) rfl
  · rw [hw]
    exact (hfiltering.continued hs hcall).of_same rfl rfl rfl
      (forall_calleeSaved.mpr ⟨rfl, rfl, rfl, rfl, rfl⟩)
  · rw [← harg, hw]
    exact hnew.of_same rfl rfl

/-- A value that is not selected leaves the accumulator as it is. -/
theorem filtering_skip {more : List (ℤ × ℤ)} {Q : State W → Prop} (hpc : t.pc = z)
    (h : Filtering s t) (hmore : Linked t (t.reg .r12) more)
    (hrest : ∀ u, u.pc = ff → Filtering s u → Linked u (u.reg .rsi) more →
      Leads (program data_length outside).step u Q) :
    Leads (program data_length outside).step t Q := by
  apply leads_block [.mov .rsi (.reg .r12)] ⟨70, hpc, _, rfl⟩ rfl
  intro u hu hpc₁
  apply hrest u (hpc₁.trans (congrArg (· + 1) hpc))
  · rw [hu]
    exact h.of_same rfl rfl rfl (forall_calleeSaved.mpr ⟨rfl, rfl, rfl, rfl, rfl⟩)
  · rw [hu]
    exact hmore.of_same rfl rfl

/-- `f` pushes the values that the predicate selects. -/
theorem f_procedure {func : ℤ} {sel : ℤ → ℤ} (hmalloc : Allocates (program data_length outside))
    (hsel : Selects (program data_length outside) func sel) (nodes more : List (ℤ × ℤ)) :
    Procedure (program data_length outside) f (Filterable func nodes more) fun _ t =>
      Filtered sel (nodes.map Prod.snd) more t := by
  induction nodes generalizing more with
  | nil =>
      rintro s hs hpc ⟨hrdx, hnodes, hmore⟩
      apply leads_block filtering_head ⟨52, hpc, _, rfl⟩ rfl
      rintro t rfl hpc₁
      rw [hpc] at hpc₁
      refine leads_jz ⟨53, hpc₁, _, rfl⟩ (fun _ => ?_) (fun h => absurd hnodes h)
      apply leads_instr ⟨77, rfl, _, rfl⟩
      obtain ⟨hreturned, hrax⟩ := filtering_none hs rfl
      apply Leads.now
      refine ⟨hreturned, [], ?_, rfl⟩
      rw [hrax]
      exact hmore.kept hreturned.kept
  | cons node rest ih =>
      intro s hs hpc hargs
      refine filtering_first hsel hs hpc hargs fun t hat₁ ht hrax hlist => ?_
      obtain ⟨hrdx, ⟨hnode, hne, howned, hnext, hvalue, htail⟩, hmore⟩ := hargs
      rw [← hnode] at hnext htail hvalue howned
      have hsame : ∀ zf pc, Filtering s ({ t with zf := zf, pc := pc }) := fun _ _ =>
        ht.of_same rfl rfl rfl fun _ _ => rfl
      refine leads_jz ⟨63, hat₁, _, rfl⟩ (fun hzero => ?_) fun hnonzero => ?_
      · rw [hrax] at hzero
        refine filtering_skip rfl (hsame _ _) (hlist.of_same rfl rfl) fun u hpc₁ hu hmore' => ?_
        apply (filtering_rest (ih more) hs hu hpc₁ hrdx hnext htail hmore').mono
        rintro v ⟨hreturned, hfiltered⟩
        exact ⟨hreturned, hfiltered.skip hzero⟩
      · rw [hrax] at hnonzero
        refine filtering_add hmalloc hs (congrArg (· + 1 + 1) hat₁) (hsame _ _) howned hvalue
          (hlist.of_same rfl rfl) fun u a hpc₁ hu hmore' => ?_
        apply (filtering_rest (ih _) hs hu hpc₁ hrdx hnext htail hmore').mono
        rintro v ⟨hreturned, hfiltered⟩
        exact ⟨hreturned, hfiltered.push hnonzero⟩

/-! ## `adding_loop` -/

/-- The instructions of `main` in front of the loop. -/
def adding_head (data_length : ℤ) : List Instr := (main_text data_length).take 3

/-- The arguments of the call of `add_element`. -/
def adding_args : List Instr := [.mov .rdi (.mem ⟨data - 8, .rbx, 8⟩), .mov .rsi (.reg .rax)]

/-- With `k` elements left, the others are in the list. -/
structure Building (values : List ℤ) (k : ℕ) (t : State W) : Prop where
  pc : t.pc = if k = 0 then adding_loop + 5 else adding_loop
  wellFormed : t.WellFormed
  left : t.reg .rbx = k
  le : k ≤ values.length
  array : Array t values
  list : ∃ nodes, Linked t (t.reg .rax) nodes ∧ nodes.map Prod.snd = values.drop k

/-- The call in a turn of the loop, with the counter still to be decremented. -/
theorem building_call (hmalloc : Allocates (program data_length outside)) {values : List ℤ} {k : ℕ}
    (h : Building values (k + 1) s) :
    Leads (program data_length outside).step s fun u => u.pc = 84 ∧ u.WellFormed ∧
      u.reg .rbx = k + 1 ∧ Array u values ∧
      ∃ nodes, Linked u (u.reg .rax) nodes ∧ nodes.map Prod.snd = values.drop k := by
  obtain ⟨nodes, hnodes, hvalues⟩ := h.list
  have hpc : s.pc = 81 := h.pc
  apply leads_block adding_args ⟨81, hpc, _, rfl⟩ rfl
  intro t ht hpc₁
  have hat₁ : t.pc = 83 := hpc₁.trans (congrArg (· + 2) hpc)
  have hwf : t.WellFormed := by
    rw [ht]
    exact ⟨h.wellFormed.stack, h.wellFormed.owned⟩
  have hlt : k < values.length := h.le
  have harg : t.reg .rdi = values[k] := by
    have hindex : data - 8 + s.reg .rbx * 8 = data + k * 8 := by
      rw [h.left]
      push_cast
      omega
    rw [← (h.array k hlt).2, ← hindex, ht]
    rfl
  have hlist : Linked t (t.reg .rsi) nodes := by
    rw [ht]
    exact hnodes.of_same rfl rfl
  have harray : Array t values := by
    rw [ht]
    exact h.array
  have hleft : t.reg .rbx = k + 1 := by
    rw [ht]
    exact h.left
  have hcode : At (program data_length outside).text t.pc ((main_text data_length).drop 5) :=
    ⟨83, hat₁, [], rfl⟩
  apply ((add_element_procedure hmalloc).call hcode rfl hwf trivial).mono
  rintro u ⟨hcall, hadded⟩
  refine ⟨hcall.pc.trans (congrArg (· + 1) hat₁), ⟨hcall.rsp.trans_lt hwf.stack, hcall.kept.nonneg⟩,
    (hcall.saved .rbx (by decide)).trans hleft, harray.kept hcall.kept, _,
    hadded nodes (hlist.kept (call_kept hwf _)), ?_⟩
  rw [List.map_cons, hvalues, List.drop_eq_getElem_cons hlt, ← harg]
  rfl

/-- The jump back, which is not taken when no element is left. -/
theorem building_jump {k : ℕ} (hpc : s.pc = 85) (hzf : s.zf = decide ((k : ℤ) = 0)) :
    exec s (.jnz adding_loop) = s.goto (if k = 0 then adding_loop + 5 else adding_loop) := by
  have hnext : s.next = s.goto (adding_loop + 5) := congrArg (State.goto s) (congrArg (· + 1) hpc)
  by_cases hk : k = 0 <;> simp [exec, hzf, hk, hnext]

/-- A turn of the loop. -/
theorem building_turn (hmalloc : Allocates (program data_length outside)) {values : List ℤ} {k : ℕ}
    (h : Building values (k + 1) s) :
    Leads (program data_length outside).step s (Building values k) := by
  apply (building_call hmalloc h).bind
  rintro t ⟨hat₁, hwf, hleft, harray, nodes, hnodes, hvalues⟩
  apply leads_block [.dec .rbx] ⟨84, hat₁, _, rfl⟩ rfl
  intro u hu hpc₁
  have hat₂ : u.pc = 85 := hpc₁.trans (congrArg (· + 1) hat₁)
  have hcode : At (program data_length outside).text u.pc ((main_text data_length).drop 7) :=
    ⟨85, hat₂, [], rfl⟩
  have hleft' : u.reg .rbx = k := by
    rw [hu]
    change t.reg .rbx - 1 = k
    rw [hleft]
    omega
  have hzf : u.zf = decide ((k : ℤ) = 0) := by
    rw [← hleft', hu]
    rfl
  apply leads_instr hcode
  apply Leads.now
  rw [building_jump hat₂ hzf]
  refine ⟨rfl, ?_, hleft', Nat.le_of_succ_le h.le, ?_, nodes, ?_, hvalues⟩
  · rw [hu]
    exact ⟨hwf.stack, hwf.owned⟩
  · rw [hu]
    exact harray
  · rw [hu]
    exact hnodes.of_same rfl rfl

/-- From its entry `main` gets behind the loop, with the elements of the array in a list. -/
theorem building_main (hmalloc : Allocates (program data_length outside)) {values : List ℤ}
    (hlength : values.length = data_length) (hvalues : values ≠ []) (hs : s.WellFormed)
    (hpc : s.pc = main) (harray : Array s values) :
    Leads (program data_length outside).step s (Building values 0) := by
  apply leads_block (adding_head data_length) ⟨78, hpc, _, rfl⟩ rfl
  intro t ht hpc₁
  have hat₁ : t.pc = 81 := hpc₁.trans (congrArg (· + 3) hpc)
  have hpush : t.mem = Function.update s.mem (s.reg .rsp - 8) (s.reg .rbx) := by
    rw [ht]
    rfl
  have hkept : Kept (s.reg .rsp) s t := by
    refine Kept.of_mem hs hs.stack.le ?_ (ht ▸ rfl)
    intro a ha
    rw [hpush, Function.update_of_ne (by omega)]
  have hpositive : data_length ≠ 0 := by
    rw [← hlength]
    exact mt List.length_eq_zero_iff.mp hvalues
  apply Leads.loop (fun k u => building_turn hmalloc) (k := data_length)
  refine ⟨?_, ⟨?_, hkept.nonneg⟩, ?_, hlength.ge, harray.kept hkept, [], ?_, ?_⟩
  · rw [if_neg hpositive]
    exact hat₁
  · rw [ht]
    exact Int.sub_neg_of_lt (hs.stack.trans (by decide))
  · rw [ht]
    rfl
  · rw [ht]
    exact xor_self _
  · rw [← hlength, List.drop_length]
    rfl

end OtusCProg.ListAssembly
