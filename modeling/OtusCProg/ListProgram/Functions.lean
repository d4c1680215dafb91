import OtusCProg.ListProgram.Model

/-!
# What the list functions do

A list that is built by `add_element` holds the values whose requests for memory
were met, the last one first. Nodes are new, so that other lists stay as they
are.
-/

namespace OtusCProg.ListProgram
open Library
variable {W : Type} {memory : ℕ → Bool} {s s' s'' : State W} {list list' list'' head : Option ℕ}
  {values more : List ℤ} {cells : List (ℕ × ℤ)} {value : ℤ} {fuel k : ℕ}

/-- A node has the number of a request that was made. -/
def State.Fresh (s : State W) : Prop := ∀ a, s.heap a ≠ none → a < s.requests

theorem start_fresh (world : W) : (start world).Fresh := fun _ h => absurd rfl h

/-- The values whose requests are met, with their addresses, the first request having number `k`. -/
def granted (memory : ℕ → Bool) : ℕ → List ℤ → List (ℕ × ℤ)
  | _, [] => []
  | k, value :: values =>
      if memory k then (k, value) :: granted memory (k + 1) values
      else granted memory (k + 1) values

theorem granted_append : granted memory k (values ++ more) =
    granted memory k values ++ granted memory (k + values.length) more := by
  induction values generalizing k with
  | nil => rfl
  | cons value values ih =>
      have hindex : k + 1 + values.length = k + (value :: values).length := by
        rw [List.length_cons]
        omega
      rw [List.cons_append, granted, granted, ih, hindex]
      split <;> rfl

/-- The addresses are the numbers of the requests that were made. -/
theorem granted_bounds {a : ℕ} (h : a ∈ (granted memory k values).map Prod.fst) :
    k ≤ a ∧ a < k + values.length := by
  induction values generalizing k with
  | nil => cases h
  | cons value values ih =>
      rw [granted] at h
      rw [List.length_cons]
      split at h
      · rcases List.mem_cons.mp h with rfl | hrest
        · exact ⟨le_rfl, by omega⟩
        · have hbounds := ih hrest
          omega
      · have hbounds := ih h
        omega

theorem granted_nodup : ((granted memory k values).map Prod.fst).Nodup := by
  induction values generalizing k with
  | nil => exact List.nodup_nil
  | cons value values ih =>
      rw [granted]
      split
      · refine List.nodup_cons.mpr ⟨?_, ih⟩
        intro hmem
        have hbounds := granted_bounds hmem
        omega
      · exact ih

theorem granted_length_le : (granted memory k values).length ≤ values.length := by
  induction values generalizing k with
  | nil => exact le_rfl
  | cons value values ih =>
      rw [granted]
      split
      · exact Nat.succ_le_succ ih
      · exact Nat.le_succ_of_le ih

/-- All values are there if and only if every request is met. -/
theorem granted_eq_iff : (granted memory k values).map Prod.snd = values ↔
    ∀ i < values.length, memory (k + i) = true := by
  induction values generalizing k with
  | nil => exact ⟨fun _ i hi => absurd hi (Nat.not_lt_zero i), fun _ => rfl⟩
  | cons value values ih =>
      have hshift : (∀ i < (value :: values).length, memory (k + i) = true) ↔
          memory k = true ∧ ∀ i < values.length, memory (k + 1 + i) = true := by
        rw [List.length_cons, Nat.forall_lt_succ_left]
        simp only [Nat.add_zero, Nat.add_assoc, Nat.add_comm 1]
      rw [granted, hshift]
      split
      case isTrue hmemory =>
        rw [List.map_cons, List.cons_inj_right, ih]
        exact ⟨fun h => ⟨hmemory, h⟩, fun h => h.2⟩
      case isFalse hmemory =>
        refine ⟨fun h => ?_, fun h => absurd h.1 hmemory⟩
        have hlength := congrArg List.length h
        rw [List.length_map, List.length_cons] at hlength
        have hle : (granted memory (k + 1) values).length ≤ values.length := granted_length_le
        omega

theorem add_element_of_memory (h : memory s.requests = true) (value : ℤ) (list : Option ℕ) :
    add_element memory value list s = (some s.requests, { s with
      heap := Function.update s.heap s.requests (some ⟨value, list⟩)
      requests := s.requests + 1
      allocated := s.allocated ++ [s.requests] }) := by
  simp [add_element, malloc, h]

theorem add_element_of_no_memory (h : memory s.requests = false) (value : ℤ) (list : Option ℕ) :
    add_element memory value list s =
      (list, { s with requests := s.requests + 1, stderr := s.stderr ++ [value] }) := by
  simp [add_element, malloc, h]

/-- What pushing the values in front of a list does: the nodes that are made, and that the rest of
the heap stays. -/
structure Pushed (memory : ℕ → Bool) (values : List ℤ) (list : Option ℕ) (s : State W)
    (list' : Option ℕ) (s' : State W) : Prop where
  chain : ∀ cells, Chain s.heap list cells →
    Chain s'.heap list' ((granted memory s.requests values).reverse ++ cells)
  frame : ∀ a < s.requests, s'.heap a = s.heap a
  fresh : s'.Fresh
  requests : s'.requests = s.requests + values.length
  allocated : s'.allocated = s.allocated ++ (granted memory s.requests values).map Prod.fst
  freed : s'.freed = s.freed
  world : s'.world = s.world

namespace Pushed

theorem nil (h : s.Fresh) : Pushed memory [] list s list s where
  chain _ hchain := hchain
  frame _ _ := rfl
  fresh := h
  requests := rfl
  allocated := (List.append_nil _).symm
  freed := rfl
  world := rfl

theorem add_element (memory : ℕ → Bool) (h : s.Fresh) (value : ℤ) (list : Option ℕ) :
    Pushed memory [value] list s (add_element memory value list s).1
      (add_element memory value list s).2 := by
  cases hmemory : memory s.requests with
  | false =>
      have hgranted : granted memory s.requests [value] = [] := by
        simp [granted, hmemory]
      rw [add_element_of_no_memory hmemory]
      refine ⟨?_, fun _ _ => rfl, ?_, rfl, ?_, rfl, rfl⟩
      · intro cells hchain
        rw [hgranted]
        exact hchain
      · intro a ha
        exact Nat.lt_succ_of_lt (h a ha)
      · rw [hgranted]
        exact (List.append_nil _).symm
  | true =>
      have hgranted : granted memory s.requests [value] = [(s.requests, value)] := by
        simp [granted, hmemory]
      rw [add_element_of_memory hmemory]
      refine ⟨?_, ?_, ?_, rfl, ?_, rfl, rfl⟩
      · intro cells hchain
        rw [hgranted]
        refine ⟨rfl, list, Function.update_self .., ?_⟩
        apply hchain.update_of_notMem
        intro hmem
        exact absurd (h _ (hchain.allocated hmem)) (lt_irrefl _)
      · intro a ha
        exact Function.update_of_ne ha.ne _ _
      · intro a ha
        rcases eq_or_ne a s.requests with rfl | hne
        · exact Nat.lt_succ_self _
        · have hold : s.heap a ≠ none := by
            intro hnone
            exact ha ((Function.update_of_ne hne _ _).trans hnone)
          exact Nat.lt_succ_of_lt (h a hold)
      · rw [hgranted]
        rfl

theorem trans (h : Pushed memory values list s list' s') (h' : Pushed memory more list' s' list'' s'') :
    Pushed memory (values ++ more) list s list'' s'' where
  chain cells hchain := by
    have hboth := h'.chain _ (h.chain cells hchain)
    rw [h.requests] at hboth
    rw [granted_append, List.reverse_append, List.append_assoc]
    exact hboth
  frame a ha := by
    have hlater : a < s'.requests := by
      rw [h.requests]
      omega
    exact (h'.frame a hlater).trans (h.frame a ha)
  fresh := h'.fresh
  requests := by
    rw [h'.requests, h.requests, List.length_append, Nat.add_assoc]
  allocated := by
    rw [h'.allocated, h.allocated, h.requests, granted_append, List.map_append, List.append_assoc]
  freed := h'.freed.trans h.freed
  world := h'.world.trans h.world

/-- A list that was there stays. -/
theorem other (h : Pushed memory values list s list' s') (hfresh : s.Fresh)
    (hchain : Chain s.heap head cells) : Chain s'.heap head cells := by
  apply hchain.frame
  intro a ha
  exact h.frame a (hfresh a (hchain.allocated ha))

end Pushed

/-- The loop of `main` pushes the array from its end on. -/
theorem build_pushed (memory : ℕ → Bool) (data : List ℤ) {n : ℕ} (hn : n ≤ data.length) (hfresh : s.Fresh) :
    Pushed memory (data.take n).reverse head s (build memory data n head s).1
      (build memory data n head s).2 := by
  induction n generalizing head s with
  | zero => exact Pushed.nil hfresh
  | succ n ih =>
      have hlast : (data.take (n + 1)).reverse = [data.getD n 0] ++ (data.take n).reverse := by
        rw [List.take_succ_eq_append_getElem hn, List.reverse_concat, List.getD_eq_getElem _ _ hn]
        rfl
      have hone := Pushed.add_element memory hfresh (data.getD n 0) head
      rw [hlast]
      exact hone.trans (ih (Nat.le_of_succ_le hn) hone.fresh)

theorem load_eq {a : ℕ} {node : Cell ℤ} (h : s.heap a = some node) : load (some a) s = .ok node := by
  simp only [load, h]

theorem m_some {a : ℕ} {node : Cell ℤ} {func : ℤ → W → W} (h : load (some a) s = .ok node) :
    m (fuel + 1) (some a) func s =
      load (some a) { s with world := func node.value s.world } >>= fun next =>
        m fuel next.next func { s with world := func node.value s.world } := by
  rw [m, if_neg (Option.some_ne_none _), h]
  rfl

/-- `m` calls the function on the values in their order. -/
theorem m_eq (h : Chain s.heap head cells) (hfuel : cells.length < fuel) (func : ℤ → W → W) :
    m fuel head func s =
      .ok { s with world := (cells.map Prod.snd).foldl (fun w value => func value w) s.world } := by
  induction cells generalizing head s fuel with
  | nil =>
      obtain ⟨fuel, rfl⟩ := Nat.exists_eq_succ_of_ne_zero (Nat.ne_zero_of_lt hfuel)
      obtain rfl : head = none := h
      rfl
  | cons cell rest ih =>
      obtain ⟨fuel, rfl⟩ := Nat.exists_eq_succ_of_ne_zero (Nat.ne_zero_of_lt hfuel)
      obtain ⟨rfl, next, hcell, hrest⟩ := h
      have hfuel' : rest.length < fuel := Nat.lt_of_succ_lt_succ hfuel
      have hload : load (some cell.1) s = .ok ⟨cell.2, next⟩ := load_eq hcell
      have hload' : load (some cell.1) { s with world := func cell.2 s.world } = .ok ⟨cell.2, next⟩ :=
        load_eq hcell
      rw [m_some hload, hload']
      exact ih hrest hfuel'

theorem f_some {a : ℕ} {node : Cell ℤ} {func : ℤ → ℤ} {newList : Option ℕ}
    (h : load (some a) s = .ok node) : f memory (fuel + 1) (some a) func newList s =
      let r := if func node.value ≠ 0 then add_element memory node.value newList s else (newList, s)
      load (some a) r.2 >>= fun node => f memory fuel node.next func r.1 r.2 := by
  rw [f, if_neg (Option.some_ne_none _), h]
  rfl

/-- `f` pushes the values that the predicate selects. -/
theorem f_pushed (memory : ℕ → Bool) (h : Chain s.heap head cells) (hfresh : s.Fresh) (func : ℤ → ℤ)
    (newList : Option ℕ) : ∃ newList' s',
      (∀ fuel, cells.length < fuel → f memory fuel head func newList s = .ok (newList', s')) ∧
      Pushed memory ((cells.map Prod.snd).filter fun value => func value ≠ 0) newList s newList' s' := by
  induction cells generalizing head s newList with
  | nil =>
      obtain rfl : head = none := h
      refine ⟨newList, s, ?_, Pushed.nil hfresh⟩
      intro fuel hfuel
      obtain ⟨fuel, rfl⟩ := Nat.exists_eq_succ_of_ne_zero (Nat.ne_zero_of_lt hfuel)
      rfl
  | cons cell rest ih =>
      obtain ⟨rfl, next, hcell, hrest⟩ := h
      have hload : load (some cell.1) s = .ok ⟨cell.2, next⟩ := load_eq hcell
      by_cases hselected : func cell.2 ≠ 0
      · have hone := Pushed.add_element memory hfresh cell.2 newList
        have hload' : load (some cell.1) (add_element memory cell.2 newList s).2 = .ok ⟨cell.2, next⟩ := by
          have hold : cell.1 < s.requests := hfresh cell.1 (hcell ▸ Option.some_ne_none _)
          exact load_eq ((hone.frame cell.1 hold).trans hcell)
        obtain ⟨newList', s', hresult, hpushed⟩ :=
          ih (hone.other hfresh hrest) hone.fresh (add_element memory cell.2 newList s).1
        refine ⟨newList', s', ?_, ?_⟩
        · intro fuel hfuel
          obtain ⟨fuel, rfl⟩ := Nat.exists_eq_succ_of_ne_zero (Nat.ne_zero_of_lt hfuel)
          rw [f_some hload]
          dsimp only
          rw [if_pos hselected, hload']
          exact hresult fuel (Nat.lt_of_succ_lt_succ hfuel)
        · rw [List.map_cons, List.filter_cons_of_pos (by simpa using hselected)]
          exact hone.trans hpushed
      · obtain ⟨newList', s', hresult, hpushed⟩ := ih hrest hfresh newList
        refine ⟨newList', s', ?_, ?_⟩
        · intro fuel hfuel
          obtain ⟨fuel, rfl⟩ := Nat.exists_eq_succ_of_ne_zero (Nat.ne_zero_of_lt hfuel)
          rw [f_some hload]
          dsimp only
          rw [if_neg hselected, hload]
          exact hresult fuel (Nat.lt_of_succ_lt_succ hfuel)
        · rw [List.map_cons, List.filter_cons_of_neg (by simpa using hselected)]
          exact hpushed

/-- The state behind the release of the nodes at some addresses. -/
def State.release (s : State W) (addresses : List ℕ) : State W :=
  { s with
    heap := fun a => if a ∈ addresses then none else s.heap a
    freed := s.freed ++ addresses }

theorem free_eq {a : ℕ} {node : Cell ℤ} (h : s.heap a = some node) :
    free (some a) s = .ok (s.release [a]) := by
  have hsome : s.heap a ≠ none := by
    rw [h]
    exact Option.some_ne_none _
  rw [free, if_neg hsome]
  congr 2
  funext b
  by_cases hb : b = a <;> simp [hb]

theorem release_release (addresses more : List ℕ) :
    (s.release addresses).release more = s.release (addresses ++ more) := by
  unfold State.release
  congr 1
  · funext a
    by_cases ha : a ∈ addresses <;> by_cases hmore : a ∈ more <;> simp [ha, hmore]
  · exact List.append_assoc ..

/-- Released nodes are in no list that is still there. -/
theorem release_chain {addresses : List ℕ} (h : Chain s.heap head cells)
    (hdisjoint : ∀ a ∈ cells.map Prod.fst, a ∉ addresses) :
    Chain (s.release addresses).heap head cells := by
  apply h.frame
  intro a ha
  exact if_neg (hdisjoint a ha)

/-- Without a node there is nothing to look at for `deleteList`. -/
theorem deleteList_none : deleteList fuel none s ≠ .ok s' := by
  cases fuel with
  | zero => exact nofun
  | succ fuel => exact nofun

/-- `deleteList` releases every node of a list that has one. -/
theorem deleteList_eq (h : Chain s.heap head cells) (hcells : cells ≠ [])
    (hnodup : (cells.map Prod.fst).Nodup) (hfuel : cells.length < fuel) :
    deleteList fuel head s = .ok (s.release (cells.map Prod.fst)) := by
  induction cells generalizing head s fuel with
  | nil => exact absurd rfl hcells
  | cons cell rest ih =>
      obtain ⟨fuel, rfl⟩ := Nat.exists_eq_succ_of_ne_zero (Nat.ne_zero_of_lt hfuel)
      obtain ⟨rfl, next, hcell, hrest⟩ := h
      have hfuel' : rest.length < fuel := Nat.lt_of_succ_lt_succ hfuel
      rw [List.map_cons, List.nodup_cons] at hnodup
      rw [deleteList, load_eq hcell]
      cases next with
      | none =>
          obtain rfl := chain_none hrest
          exact free_eq hcell
      | some b =>
          have hmore : rest ≠ [] := by
            rintro rfl
            cases hrest
          have hchain : Chain (s.release [cell.1]).heap (some b) rest := by
            apply release_chain hrest
            intro a ha hmem
            rw [List.mem_singleton] at hmem
            subst hmem
            exact hnodup.1 ha
          have htail : deleteList fuel (some b) (s.release [cell.1]) =
              .ok ((s.release [cell.1]).release (rest.map Prod.fst)) :=
            ih hchain hmore hnodup.2 hfuel'
          rw [release_release] at htail
          change (free (some cell.1) s >>= fun s => deleteList fuel (some b) s) = _
          rw [free_eq hcell]
          exact htail

end OtusCProg.ListProgram
