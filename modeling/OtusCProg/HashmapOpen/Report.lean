import OtusCProg.HashmapOpen.Slots
import Mathlib.Data.List.Perm.Subperm

/-!
# The word report

`printDescending` takes the greatest value that is left, as many times as the map has
entries. An entry that is taken stays in its slot; a later scan knows it by the address
of its key.
-/

namespace OtusCProg.HashmapOpen

/-- A pointer to a key, and the string that stands there. -/
structure KeyPointer where
  address : Nat
  string : K

section Model
variable (map : Hashmap Nat) (address : Nat → Nat)

/-- `data[j]->key`, with the address of the key in each slot. -/
def keyPointer (j : Nat) (e : Entry Nat) : KeyPointer := ⟨address j, e.key⟩

/-- One turn of the loop over the slots, on `keysDesc` and `maxValue`. -/
def pick (i : Nat) (s : (Nat → KeyPointer) × Nat) (j : Nat) : (Nat → KeyPointer) × Nat :=
  let (keysDesc, maxValue) := s
  match map.data j with
  | none => s
  | some e =>
      if maxValue ≤ e.value then
        if (List.range i).any fun k => address j == (keysDesc k).address then s
        else (Function.update keysDesc i (keyPointer address j e), e.value)
      else s

/-- One turn of the outer loop, on `keysDesc` and the values and words printed so far. -/
def printNext (s : (Nat → KeyPointer) × List (Nat × K)) (i : Nat) :
    (Nat → KeyPointer) × List (Nat × K) :=
  let (keysDesc, maxValue) := (List.range map.arr_size).foldl (pick map address i) (s.1, 0)
  (keysDesc, s.2 ++ [(maxValue, (keysDesc i).string)])

/-- The lines of `printDescending`, for a block of `malloc` with anything in it. -/
def printDescending (keysDesc : Nat → KeyPointer) : List (Nat × K) :=
  ((List.range map.size).foldl (printNext map address) (keysDesc, [])).2

end Model

section Report
variable {map : Hashmap Nat} {address : Nat → Nat} {keysDesc : Nat → KeyPointer}

/-- The keys of different entries are different pointers. -/
def DistinctPointers (map : Hashmap Nat) (address : Nat → Nat) : Prop :=
  ∀ j ∈ occupied map, ∀ k ∈ occupied map, address j = address k → j = k

/-- The value in a slot. -/
def valueAt (map : Hashmap Nat) (j : Nat) : Nat := ((map.data j).map (·.value)).getD 0

/-- The lines for the entries in these slots. -/
def linesOf (map : Hashmap Nat) (slots : List Nat) : List (Nat × K) :=
  slots.filterMap fun j => (map.data j).map fun e => (e.value, e.key)

/-- What the outer loop holds when it has printed the entries in these slots. -/
structure Printed (map : Hashmap Nat) (address : Nat → Nat) (slots : List Nat)
    (s : (Nat → KeyPointer) × List (Nat × K)) : Prop where
  nodup : slots.Nodup
  subset : ∀ j ∈ slots, j ∈ occupied map
  pointer : ∀ k j, slots[k]? = some j → (s.1 k).address = address j
  lines : s.2 = linesOf map slots
  sorted : slots.Pairwise fun j k => valueAt map k ≤ valueAt map j
  rest : ∀ j ∈ slots, ∀ k ∈ occupied map, k ∉ slots → valueAt map k ≤ valueAt map j

/-- Occupied, and not printed yet. -/
def Left (map : Hashmap Nat) (slots : List Nat) (j : Nat) : Prop := j ∈ occupied map ∧ j ∉ slots

/-- The scan behind `n` slots: it has found no slot that is left, or one with the greatest value. -/
def Scanned (map : Hashmap Nat) (address : Nat → Nat) (slots : List Nat) (keysDesc : Nat → KeyPointer)
    (n : Nat) (s : (Nat → KeyPointer) × Nat) : Prop :=
  (s = (keysDesc, 0) ∧ ∀ j < n, ¬Left map slots j) ∨
    ∃ j e, j < n ∧ Left map slots j ∧ map.data j = some e ∧
      s = (Function.update keysDesc slots.length (keyPointer address j e), e.value) ∧
      ∀ k < n, Left map slots k → valueAt map k ≤ e.value

theorem valueAt_of_some {j : Nat} {e : Entry Nat} (h : map.data j = some e) : valueAt map j = e.value := by
  rw [valueAt, h]
  rfl

/-- The inner comparison finds exactly the slots that are printed. -/
theorem Printed.any_iff {slots : List Nat} {lines : List (Nat × K)} {keysDesc' : Nat → KeyPointer}
    (h : Printed map address slots (keysDesc, lines)) (hdistinct : DistinctPointers map address) {j : Nat}
    (hj : j ∈ occupied map) (hsame : ∀ k < slots.length, keysDesc' k = keysDesc k) :
    ((List.range slots.length).any fun k => address j == (keysDesc' k).address) = true ↔ j ∈ slots := by
  rw [List.any_eq_true]
  constructor
  · rintro ⟨k, hk, heq⟩
    rw [List.mem_range] at hk
    have hslot : slots[k]? = some slots[k] := List.getElem?_eq_getElem hk
    have haddress : address j = address slots[k] := by
      rw [beq_iff_eq, hsame k hk] at heq
      rw [heq, h.pointer k _ hslot]
    have hmem : slots[k] ∈ slots := List.getElem_mem hk
    rw [hdistinct j hj _ (h.subset _ hmem) haddress]
    exact hmem
  · intro hmem
    obtain ⟨k, hk, rfl⟩ := List.mem_iff_getElem.mp hmem
    refine ⟨k, List.mem_range.mpr hk, ?_⟩
    rw [beq_iff_eq, hsame k hk, h.pointer k _ (List.getElem?_eq_getElem hk)]

section Scan
variable {slots : List Nat} {lines : List (Nat × K)} {n : Nat} {s : (Nat → KeyPointer) × Nat}

/-- The scan writes one cell of `keysDesc` only. -/
theorem Scanned.same (h : Scanned map address slots keysDesc n s) {k : Nat} (hk : k < slots.length) :
    s.1 k = keysDesc k := by
  rcases h with ⟨rfl, -⟩ | ⟨j, e, -, -, -, rfl, -⟩
  · rfl
  · exact Function.update_of_ne hk.ne ..

/-- A slot that is not left, or has a smaller value, changes nothing. -/
theorem Scanned.skip (h : Scanned map address slots keysDesc n s)
    (hskip : Left map slots n → valueAt map n < s.2) : Scanned map address slots keysDesc (n + 1) s := by
  rcases h with ⟨rfl, hnone⟩ | ⟨j, e, hj, hleft, hdata, rfl, hmax⟩
  · refine .inl ⟨rfl, fun k hk => ?_⟩
    rcases Nat.lt_succ_iff_lt_or_eq.mp hk with hlt | rfl
    · exact hnone k hlt
    · exact fun hleft => Nat.not_lt_zero _ (hskip hleft)
  · refine .inr ⟨j, e, Nat.lt_succ_of_lt hj, hleft, hdata, rfl, fun k hk hk' => ?_⟩
    rcases Nat.lt_succ_iff_lt_or_eq.mp hk with hlt | rfl
    · exact hmax k hlt hk'
    · exact (hskip hk').le

/-- A slot that is left and has no smaller value takes the place of the one found before. -/
theorem Scanned.take (h : Scanned map address slots keysDesc n s) {e : Entry Nat}
    (hdata : map.data n = some e) (hleft : Left map slots n) (hle : s.2 ≤ e.value) :
    Scanned map address slots keysDesc (n + 1)
      (Function.update s.1 slots.length (keyPointer address n e), e.value) := by
  have hself : valueAt map n ≤ e.value := (valueAt_of_some hdata).le
  rcases h with ⟨rfl, hnone⟩ | ⟨j, e', hj, -, -, rfl, hmax⟩
  · refine .inr ⟨n, e, n.lt_succ_self, hleft, hdata, rfl, fun k hk hk' => ?_⟩
    rcases Nat.lt_succ_iff_lt_or_eq.mp hk with hlt | rfl
    · exact absurd hk' (hnone k hlt)
    · exact hself
  · refine .inr ⟨n, e, n.lt_succ_self, hleft, hdata, ?_, fun k hk hk' => ?_⟩
    · rw [Function.update_idem]
    · rcases Nat.lt_succ_iff_lt_or_eq.mp hk with hlt | rfl
      · exact (hmax k hlt hk').trans hle
      · exact hself

/-- One more slot of the scan. -/
theorem Printed.pick (h : Printed map address slots (keysDesc, lines))
    (hdistinct : DistinctPointers map address) (hn : n < map.arr_size)
    (hs : Scanned map address slots keysDesc n s) :
    Scanned map address slots keysDesc (n + 1) (pick map address slots.length s n) := by
  cases hdata : map.data n with
  | none =>
      have hfree : n ∉ occupied map := by simp [mem_occupied, hdata]
      rw [HashmapOpen.pick, hdata]
      exact hs.skip fun hleft => absurd hleft.1 hfree
  | some e =>
      have hmem : n ∈ occupied map := by simp [mem_occupied, hdata, hn]
      have hany := h.any_iff hdistinct hmem fun k hk => hs.same hk
      rw [HashmapOpen.pick, hdata]
      dsimp only
      by_cases hle : s.2 ≤ e.value
      · rw [if_pos hle]
        by_cases hprinted : n ∈ slots
        · rw [if_pos (hany.mpr hprinted)]
          exact hs.skip fun hleft => absurd hprinted hleft.2
        · rw [if_neg (mt hany.mp hprinted)]
          exact hs.take hdata ⟨hmem, hprinted⟩ hle
      · rw [if_neg hle]
        apply hs.skip
        intro _
        rw [valueAt_of_some hdata]
        exact not_le.mp hle

/-- The whole scan. -/
theorem Printed.scan (h : Printed map address slots (keysDesc, lines))
    (hdistinct : DistinctPointers map address) (hn : n ≤ map.arr_size) :
    Scanned map address slots keysDesc n
      ((List.range n).foldl (HashmapOpen.pick map address slots.length) (keysDesc, 0)) := by
  induction n with
  | zero => exact .inl ⟨rfl, fun j hj => absurd hj (Nat.not_lt_zero j)⟩
  | succ n ih =>
      rw [List.range_succ, List.foldl_concat]
      exact h.pick hdistinct hn (ih (Nat.le_of_succ_le hn))

end Scan

section Lines
variable {slots : List Nat} {s : (Nat → KeyPointer) × List (Nat × K)}

theorem linesOf_concat {j : Nat} {e : Entry Nat} (hdata : map.data j = some e) :
    linesOf map (slots ++ [j]) = linesOf map slots ++ [(e.value, e.key)] := by
  simp [linesOf, List.filterMap_append, hdata]

/-- As long as fewer entries are printed than there are, one is left. -/
theorem Printed.exists_left (h : Printed map address slots s) (hlt : slots.length < (occupied map).card) :
    ∃ j, Left map slots j := by
  obtain ⟨j, hj, hnot⟩ : ∃ j ∈ occupied map, j ∉ slots.toFinset := by
    apply Finset.exists_mem_notMem_of_card_lt_card
    rwa [List.toFinset_card_of_nodup h.nodup]
  exact ⟨j, hj, fun hmem => hnot (List.mem_toFinset.mpr hmem)⟩

/-- One more line: the greatest value that is left. -/
theorem Printed.next (h : Printed map address slots s) (hdistinct : DistinctPointers map address)
    (hlt : slots.length < (occupied map).card) :
    ∃ j, Printed map address (slots ++ [j]) (printNext map address s slots.length) := by
  have hscan := h.scan hdistinct (le_refl map.arr_size)
  obtain ⟨l, hl⟩ := h.exists_left hlt
  rw [printNext]
  rcases hscan with ⟨-, hnone⟩ | ⟨j, e, -, hleft, hdata, hs, hmax⟩
  · exact absurd hl (hnone l (mem_occupied.mp hl.1).1)
  · rw [hs]
    dsimp only
    refine ⟨j, ?_⟩
    have hvalue := valueAt_of_some hdata
    constructor
    case nodup =>
      rw [List.nodup_append_comm]
      exact List.nodup_cons.mpr ⟨hleft.2, h.nodup⟩
    case subset =>
      intro k hk
      rcases List.mem_append.mp hk with hk | hk
      · exact h.subset k hk
      · rw [List.mem_singleton.mp hk]
        exact hleft.1
    case pointer =>
      intro k i hk
      show (Function.update s.1 slots.length (keyPointer address j e) k).address = address i
      rcases Nat.lt_or_ge k slots.length with hlt | hge
      · rw [List.getElem?_append_left hlt] at hk
        rw [Function.update_of_ne hlt.ne]
        exact h.pointer k i hk
      · have hlast : k = slots.length ∧ j = i := by
          rw [List.getElem?_append_right hge, List.getElem?_singleton,
            Option.ite_none_right_eq_some] at hk
          exact ⟨by omega, Option.some.inj hk.2⟩
        rw [hlast.1, ← hlast.2, Function.update_self]
        rfl
    case lines =>
      rw [linesOf_concat hdata, ← h.lines, Function.update_self]
      rfl
    case sorted =>
      rw [List.pairwise_append]
      refine ⟨h.sorted, List.pairwise_singleton .., fun k hk i hi => ?_⟩
      rw [List.mem_singleton.mp hi]
      exact h.rest k hk j hleft.1 hleft.2
    case rest =>
      intro i hi k hk hnot
      rw [List.mem_append, not_or] at hnot
      rcases List.mem_append.mp hi with hi | hi
      · exact h.rest i hi k hk hnot.1
      · rw [List.mem_singleton.mp hi, hvalue]
        exact hmax k (mem_occupied.mp hk).1 ⟨hk, hnot.1⟩

/-- The outer loop. -/
theorem printed_foldl (hdistinct : DistinctPointers map address) (keysDesc : Nat → KeyPointer) {n : Nat}
    (hn : n ≤ (occupied map).card) : ∃ slots, slots.length = n ∧
      Printed map address slots ((List.range n).foldl (printNext map address) (keysDesc, [])) := by
  induction n with
  | zero => exact ⟨[], rfl, .nil, nofun, nofun, rfl, .nil, nofun⟩
  | succ n ih =>
      obtain ⟨slots, rfl, hprinted⟩ := ih (Nat.le_of_succ_le hn)
      obtain ⟨j, hnext⟩ := hprinted.next hdistinct hn
      refine ⟨slots ++ [j], List.length_append, ?_⟩
      rw [List.range_succ, List.foldl_concat]
      exact hnext

theorem pairwise_linesOf (h : slots.Pairwise fun j k => valueAt map k ≤ valueAt map j) :
    (linesOf map slots).Pairwise fun a b => b.1 ≤ a.1 := by
  rw [linesOf, List.pairwise_filterMap]
  refine h.imp fun {j k} hle a ha b hb => ?_
  obtain ⟨e, he, rfl⟩ := Option.map_eq_some_iff.mp ha
  obtain ⟨e', he', rfl⟩ := Option.map_eq_some_iff.mp hb
  rwa [valueAt_of_some he, valueAt_of_some he'] at hle

end Lines

end Report

/-- The report has one line for each entry, with its value and its word, and the values never
rise from one line to the next. -/
theorem printDescending_sorted {map : Hashmap Nat} {address : Nat → Nat}
    (hsize : map.size = (occupied map).card) (hdistinct : DistinctPointers map address)
    (keysDesc : Nat → KeyPointer) :
    ∃ slots : List Nat, slots.Nodup ∧ slots.toFinset = occupied map ∧
      printDescending map address keysDesc = linesOf map slots ∧
      (printDescending map address keysDesc).length = map.size ∧
      (printDescending map address keysDesc).Pairwise fun a b => b.1 ≤ a.1 := by
  obtain ⟨slots, hlength, hprinted⟩ := printed_foldl hdistinct keysDesc hsize.le
  have hall : slots.toFinset = occupied map := by
    apply Finset.eq_of_subset_of_card_le
    · intro j hj
      exact hprinted.subset j (List.mem_toFinset.mp hj)
    · rw [List.toFinset_card_of_nodup hprinted.nodup, hlength, hsize]
  have hlines : printDescending map address keysDesc = linesOf map slots := hprinted.lines
  refine ⟨slots, hprinted.nodup, hall, hlines, ?_, ?_⟩
  · rw [hlines, linesOf, ← hlength, List.filterMap_length_eq_length]
    intro j hj
    rw [Option.isSome_map]
    exact (mem_occupied.mp (hprinted.subset j hj)).2
  · rw [hlines]
    exact pairwise_linesOf hprinted.sorted

/-- Two words with the same value and one with a greater one. -/
def threeWords : Hashmap Nat where
  data j :=
    if j = 1 then some ⟨⟨[120], by decide⟩, 2⟩
    else if j = 4 then some ⟨⟨[121], by decide⟩, 2⟩
    else if j = 5 then some ⟨⟨[122], by decide⟩, 3⟩
    else none
  size := 3
  arr_size := 7
  limit := 3
  loadFactor := 1 / 2
  multiplier := 2

theorem printDescending_sorted_threeWords : ∃ slots : List Nat, slots.Nodup ∧
    slots.toFinset = occupied threeWords ∧
      printDescending threeWords id (fun _ => ⟨0, ⟨[], by decide⟩⟩) = linesOf threeWords slots := by
  have hdistinct : DistinctPointers threeWords id := fun j _ k _ h => h
  have hsize : threeWords.size = (occupied threeWords).card := by decide
  obtain ⟨slots, hnodup, hall, hlines, -⟩ :=
    printDescending_sorted hsize hdistinct fun _ => ⟨0, ⟨[], by decide⟩⟩
  exact ⟨slots, hnodup, hall, hlines⟩

end OtusCProg.HashmapOpen
