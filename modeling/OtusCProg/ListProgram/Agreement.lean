import OtusCProg.ListProgram.Functions
import OtusCProg.ListAssembly.Routines

/-!
# The two list programs

The C program, where every request for memory is met, and the assembly program
with an allocator that meets them: their lists have the same values.
-/

namespace OtusCProg.ListProgram
open Library Library.X86
variable {W : Type} {outside : X86.State W → X86.State W} {data : List ℤ}

/-- Every request is met. -/
def plenty : ℕ → Bool := fun _ => true

/-- The same values, in front of a list of the C program and in front of one of the assembly
program. -/
def SameInFront (s : State W) (head : Option ℕ) (cells : List (ℕ × ℤ)) (t : X86.State W) (q : ℤ)
    (nodes : List (ℤ × ℤ)) (values : List ℤ) : Prop :=
  ∃ new new', Chain s.heap head (new ++ cells) ∧ ListAssembly.Linked t q (new' ++ nodes) ∧
    new.map Prod.snd = values ∧ new'.map Prod.snd = values

/-- A list of the C program and one of the assembly program, with the same values. -/
def SameList (s : State W) (head : Option ℕ) (t : X86.State W) (q : ℤ) (values : List ℤ) : Prop :=
  SameInFront s head [] t q [] values

/-- What the two programs do alike. -/
structure Agreement (outside : X86.State W → X86.State W) (data : List ℤ) : Prop where
  adding_loop : data ≠ [] → ∀ (s : State W) (t : X86.State W), s.Fresh → t.WellFormed →
    t.pc = ListAssembly.main → ListAssembly.Array t data →
      Leads (ListAssembly.program data.length outside).step t fun u =>
        u.pc = ListAssembly.adding_loop + 5 ∧
          SameList (build plenty data data.length none s).2 (build plenty data data.length none s).1
            u (u.reg .rax) data
  f : ∀ (func : ℤ) (sel : ℤ → ℤ), ListAssembly.Selects (ListAssembly.program data.length outside) func sel →
    ∀ (s : State W) (head newList : Option ℕ) (cells : List (ℕ × ℤ)) (t : X86.State W)
      (nodes : List (ℤ × ℤ)) (values : List ℤ), s.Fresh → t.WellFormed → t.pc = ListAssembly.f →
      t.reg .rdx = func → SameList s head t (t.reg .rdi) values → Chain s.heap newList cells →
      ListAssembly.Linked t (t.reg .rsi) nodes →
        ∃ newList' s', (∀ fuel, values.length < fuel →
            f plenty fuel head sel newList s = .ok (newList', s')) ∧
          Leads (ListAssembly.program data.length outside).step t fun u => Returned t u ∧
            SameInFront s' newList' cells u (u.reg .rax) nodes
              (values.filter fun value => sel value ≠ 0).reverse
  m : ∀ (func : ℤ) (effect : ℤ → W → W),
    ListAssembly.Consumes (ListAssembly.program data.length outside) func effect →
    ∀ (s : State W) (head : Option ℕ) (t : X86.State W) (values : List ℤ), t.WellFormed →
      t.pc = ListAssembly.m → t.reg .rsi = func → SameList s head t (t.reg .rdi) values →
      s.world = t.world →
        ∃ s', (∀ fuel, values.length < fuel → m fuel head effect s = .ok s') ∧
          s'.world = values.foldl (fun w value => effect value w) s.world ∧
          Leads (ListAssembly.program data.length outside).step t fun u => Returned t u ∧
            u.world = s'.world

theorem granted_plenty (k : ℕ) (values : List ℤ) :
    (granted plenty k values).map Prod.snd = values :=
  granted_eq_iff.mpr fun _ _ => rfl

/-- Pushing puts the values in front, the last one first. -/
theorem Pushed.plenty_chain {values : List ℤ} {list list' : Option ℕ} {s s' : State W}
    {cells : List (ℕ × ℤ)} (h : Pushed plenty values list s list' s')
    (hcells : Chain s.heap list cells) :
    ∃ new, Chain s'.heap list' (new ++ cells) ∧ new.map Prod.snd = values.reverse := by
  refine ⟨_, h.chain cells hcells, ?_⟩
  rw [List.map_reverse, granted_plenty]

theorem agreement_adding_loop (hmalloc : ListAssembly.Allocates (ListAssembly.program data.length outside))
    (hdata : data ≠ []) {s : State W} {t : X86.State W} (hs : s.Fresh) (ht : t.WellFormed)
    (hpc : t.pc = ListAssembly.main) (harray : ListAssembly.Array t data) :
    Leads (ListAssembly.program data.length outside).step t fun u =>
      u.pc = ListAssembly.adding_loop + 5 ∧
        SameList (build plenty data data.length none s).2 (build plenty data data.length none s).1
          u (u.reg .rax) data := by
  have hbuild : Pushed plenty (data.take data.length).reverse none s _ _ :=
    build_pushed plenty data le_rfl hs
  rw [List.take_length] at hbuild
  have hnone : Chain s.heap none [] := rfl
  obtain ⟨new, hchain, hvalues⟩ := hbuild.plenty_chain hnone
  rw [List.reverse_reverse] at hvalues
  apply (ListAssembly.building_main hmalloc rfl hdata ht hpc harray).mono
  intro u hu
  obtain ⟨nodes, hnodes, hsame⟩ := hu.list
  refine ⟨hu.pc, new, nodes, hchain, ?_, hvalues, hsame⟩
  rw [List.append_nil]
  exact hnodes

theorem agreement_f (hmalloc : ListAssembly.Allocates (ListAssembly.program data.length outside))
    {func : ℤ} {sel : ℤ → ℤ} (hsel : ListAssembly.Selects (ListAssembly.program data.length outside) func sel)
    {s : State W} {head newList : Option ℕ} {cells : List (ℕ × ℤ)} {t : X86.State W}
    {nodes : List (ℤ × ℤ)} {values : List ℤ} (hs : s.Fresh) (ht : t.WellFormed)
    (hpc : t.pc = ListAssembly.f) (hfunc : t.reg .rdx = func)
    (hlist : SameList s head t (t.reg .rdi) values) (hcells : Chain s.heap newList cells)
    (hnodes : ListAssembly.Linked t (t.reg .rsi) nodes) :
    ∃ newList' s', (∀ fuel, values.length < fuel →
        f plenty fuel head sel newList s = .ok (newList', s')) ∧
      Leads (ListAssembly.program data.length outside).step t fun u => Returned t u ∧
        SameInFront s' newList' cells u (u.reg .rax) nodes
          (values.filter fun value => sel value ≠ 0).reverse := by
  obtain ⟨old, old', hold, hold', hvalues, hvalues'⟩ := hlist
  rw [List.append_nil] at hold hold'
  obtain ⟨newList', s', hresult, hpushed⟩ := f_pushed plenty hold hs sel newList
  obtain ⟨new, hchain, hnew⟩ := hpushed.plenty_chain hcells
  rw [hvalues] at hnew
  refine ⟨newList', s', ?_, ?_⟩
  · intro fuel hfuel
    apply hresult
    rwa [← hvalues, List.length_map] at hfuel
  · have hrun := ListAssembly.f_procedure hmalloc hsel old' nodes t ht hpc ⟨hfunc, hold', hnodes⟩
    apply hrun.mono
    rintro u ⟨hreturned, new', hlinked, hnew'⟩
    rw [hvalues'] at hnew'
    exact ⟨hreturned, new, new', hchain, hlinked, hnew, hnew'⟩

theorem agreement_m {func : ℤ} {effect : ℤ → W → W}
    (hfunc : ListAssembly.Consumes (ListAssembly.program data.length outside) func effect)
    {s : State W} {head : Option ℕ} {t : X86.State W} {values : List ℤ} (ht : t.WellFormed)
    (hpc : t.pc = ListAssembly.m) (hrsi : t.reg .rsi = func)
    (hlist : SameList s head t (t.reg .rdi) values) (hworld : s.world = t.world) :
    ∃ s', (∀ fuel, values.length < fuel → m fuel head effect s = .ok s') ∧
      s'.world = values.foldl (fun w value => effect value w) s.world ∧
      Leads (ListAssembly.program data.length outside).step t fun u => Returned t u ∧
        u.world = s'.world := by
  obtain ⟨old, old', hold, hold', hvalues, hvalues'⟩ := hlist
  rw [List.append_nil] at hold hold'
  refine ⟨{ s with world := (old.map Prod.snd).foldl (fun w value => effect value w) s.world },
    ?_, ?_, ?_⟩
  · intro fuel hfuel
    refine m_eq hold ?_ effect
    rwa [← hvalues, List.length_map] at hfuel
  · rw [hvalues]
  · apply (ListAssembly.m_procedure hfunc old' t ht hpc ⟨hrsi, hold'⟩).mono
    rintro u ⟨hreturned, hrun⟩
    refine ⟨hreturned, ?_⟩
    rw [hrun, hvalues', hvalues, hworld]

/-- With an allocator that meets the requests the assembly program agrees with the C program. -/
theorem programs_agree (hmalloc : ListAssembly.Allocates (ListAssembly.program data.length outside)) :
    Agreement outside data where
  adding_loop hdata _ _ hs ht hpc harray := agreement_adding_loop hmalloc hdata hs ht hpc harray
  f _ _ hsel _ _ _ _ _ _ _ hs ht hpc hfunc hlist hcells hnodes :=
    agreement_f hmalloc hsel hs ht hpc hfunc hlist hcells hnodes
  m _ _ hfunc _ _ _ _ ht hpc hrsi hlist hworld := agreement_m hfunc ht hpc hrsi hlist hworld

/-- The C library with a heap that grows: a block begins behind the words that are in use. The other
functions return at once. -/
def growing (s : X86.State W) : X86.State W :=
  let returned := (s.set .rsp (s.reg .rsp + 8)).goto (s.mem (s.reg .rsp))
  let block := s.owned.foldr max 8192 + 8
  if s.pc = ListAssembly.malloc then
    { returned.set .rax block with owned := block :: (block + 8) :: s.owned }
  else returned

theorem le_foldr_max (words : List ℤ) (b : ℤ) :
    b ≤ words.foldr max b ∧ ∀ a ∈ words, a ≤ words.foldr max b := by
  induction words with
  | nil => exact ⟨le_rfl, nofun⟩
  | cons word words ih =>
      rw [List.foldr_cons, List.forall_mem_cons]
      refine ⟨ih.1.trans (le_max_right _ _), le_max_left _ _, ?_⟩
      intro a ha
      exact (ih.2 a ha).trans (le_max_right _ _)

theorem growing_allocates (data_length : ℕ) :
    ListAssembly.Allocates (ListAssembly.program data_length (growing (W := W))) := by
  intro s hs hpc _
  have hstep : (ListAssembly.program data_length growing).step s = growing s := by
    unfold Machine.step
    rw [hpc]
    rfl
  obtain ⟨hbase, hwords⟩ := le_foldr_max s.owned 8192
  have hnew : ∀ a, s.owned.foldr max 8192 < a → a ∉ s.owned := fun a ha hmem =>
    absurd (hwords a hmem) ha.not_ge
  apply Leads.run 1
  rw [Function.iterate_one, hstep, growing, if_pos hpc]
  apply Leads.now
  refine ⟨⟨rfl, rfl, ?_, ⟨fun _ _ _ => rfl, fun _ _ => rfl, ?_, ?_⟩⟩, ?_, ?_, ?_, ?_, ?_⟩
  · simp only [calleeSaved, List.forall_mem_cons]
    exact ⟨rfl, rfl, rfl, rfl, rfl, fun r hr => absurd hr List.not_mem_nil⟩
  · intro a ha
    exact List.mem_cons_of_mem _ (List.mem_cons_of_mem _ ha)
  · simp only [List.forall_mem_cons]
    exact ⟨by omega, by omega, hs.owned⟩
  · change 0 < s.owned.foldr max 8192 + 8
    omega
  · exact hnew _ (Int.lt_add_of_pos_right _ (by decide))
  · apply hnew
    change _ < s.owned.foldr max 8192 + 8 + 8
    omega
  · exact List.mem_cons_self
  · exact List.mem_cons_of_mem _ List.mem_cons_self

/-- With such a heap, and the array of the program. -/
theorem programs_agree_growing : Agreement (growing (W := List Out)) [4, 8, 15, 16, 23, 42] :=
  programs_agree (growing_allocates _)

/-- The predicate of the assembly program is that of the C program. -/
theorem p_selects (data_length : ℕ) :
    ListAssembly.Selects (ListAssembly.program data_length outside) ListAssembly.p p := by
  intro s hs hpc _
  apply leads_block (ListAssembly.p_text.take 2) ⟨12, hpc, _, rfl⟩ rfl
  rintro t rfl hpc₁
  apply leads_instr ⟨14, hpc₁.trans (congrArg (· + 2) hpc), _, rfl⟩
  apply Leads.now
  have hinside : Inside [] [] s s :=
    ⟨nofun, nofun, Kept.of_mem hs hs.stack.le (fun _ _ => rfl) rfl⟩
  refine ⟨hinside.returned hs rfl rfl rfl rfl ?_, rfl⟩
  simp only [calleeSaved, List.forall_mem_cons]
  exact ⟨rfl, rfl, rfl, rfl, rfl, nofun⟩

end OtusCProg.ListProgram
