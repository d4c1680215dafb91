import OtusCProg.HashmapOpen.Termination
import OtusCProg.HashmapOpen.WordCount

/-!
# The entries of a rehashed table

`rehashUp` puts the old entries and the new one through the same `raw_put` that may call it
again. The new limit is out of their reach, so every put fills one more slot at the end of its
chain. The new table is chained even where removals have broken the chains of the old one.
-/

namespace OtusCProg.HashmapOpen
open Library

variable {V : Type*} {map map' newMap moved : Hashmap V} {e : Entry V} {n depth : Nat}

/-- The entries of the first `n` slots. -/
def entriesBelow (map : Hashmap V) (n : Nat) : List (Entry V) := (List.range n).filterMap map.data

/-- The entries of the table, slot by slot. -/
def entries (map : Hashmap V) : List (Entry V) := entriesBelow map map.arr_size

theorem entriesBelow_succ_none (hdata : map.data n = none) :
    entriesBelow map (n + 1) = entriesBelow map n := by
  rw [entriesBelow, List.range_succ, List.filterMap_append, List.filterMap_cons_none hdata,
    List.filterMap_nil, List.append_nil, entriesBelow]

theorem entriesBelow_succ_some (hdata : map.data n = some e) :
    entriesBelow map (n + 1) = entriesBelow map n ++ [e] := by
  rw [entriesBelow, List.range_succ, List.filterMap_append, List.filterMap_cons_some hdata,
    List.filterMap_nil, entriesBelow]

/-- A slot behind the first `n` ones does not matter to them. -/
theorem entriesBelow_setSlot {i : Nat} (hi : n ≤ i) (slot : Option (Entry V)) (size : Nat) :
    entriesBelow (map.setSlot i slot size) n = entriesBelow map n := by
  apply List.filterMap_congr
  intro j hj
  have hne : j ≠ i := ((List.mem_range.mp hj).trans_le hi).ne
  exact setSlot_data_of_ne map i slot size hne

/-- Filling a `NULL` slot adds one entry. -/
theorem entriesBelow_fill {i : Nat} (hi : i < n) (hnull : map.data i = none) (e : Entry V)
    (size : Nat) : (entriesBelow (map.setSlot i (some e) size) n).Perm (e :: entriesBelow map n) := by
  induction n with
  | zero => omega
  | succ n ih =>
      by_cases hin : i = n
      · subst hin
        rw [entriesBelow_succ_some (setSlot_data_self map i (some e) size), entriesBelow_setSlot le_rfl,
          entriesBelow_succ_none hnull]
        exact List.perm_append_singleton e _
      · have hbelow := ih (by omega)
        have hsame : (map.setSlot i (some e) size).data n = map.data n :=
          setSlot_data_of_ne map i (some e) size (Ne.symm hin)
        cases hdata : map.data n with
        | none => rwa [entriesBelow_succ_none (hsame.trans hdata), entriesBelow_succ_none hdata]
        | some last =>
            rw [entriesBelow_succ_some (hsame.trans hdata), entriesBelow_succ_some hdata]
            exact hbelow.append_right [last]

/-- `place` adds the entry to those of the table. -/
theorem entries_place (h : place map e = .ok map') : (entries map').Perm (e :: entries map) := by
  obtain ⟨index, hlt, hnull, rfl, _⟩ := place_cases h
  exact entriesBelow_fill hlt hnull e _

/-- The loop of `rehashUp` moves the entries of the slots it has passed. -/
theorem entries_reinsert (h : reinsert (raw_put 0) map n newMap = .ok moved) :
    (entries moved).Perm (entriesBelow map n ++ entries newMap) := by
  induction n generalizing moved with
  | zero =>
      obtain rfl := Except.ok.inj h
      exact List.Perm.refl _
  | succ n ih =>
      obtain ⟨middle, hrest, ⟨hdata, rfl⟩ | ⟨e, hdata, hput⟩⟩ := reinsert_succ_cases h
      · rw [entriesBelow_succ_none hdata]
        exact ih hrest
      · rw [entriesBelow_succ_some hdata, List.append_assoc]
        calc
          (entries moved).Perm (e :: entries middle) := entries_place (raw_put_zero hput).2
          List.Perm _ (e :: (entriesBelow map n ++ entries newMap)) := (ih hrest).cons e
          List.Perm _ (entriesBelow map n ++ ([e] ++ entries newMap)) := List.perm_middle.symm

/-- What `rehashUp` should leave: it returns the same table however few nested rehashes are allowed,
with the old entries and the new one, each once, a size that counts the filled slots, and
every entry on a chain of filled slots from its home. -/
def RehashPreserves (map : Hashmap V) (e : Entry V) : Prop :=
  ∃ map', (∀ depth, rehashUp (raw_put depth) map e = .ok map') ∧
    (entries map').Perm (e :: entries map) ∧ map'.size = (occupied map').card ∧ Chained map'

/-- A rehash whose limit fits in `int` keeps the entries and rebuilds the chains. -/
theorem Loaded.rehashPreserves (h : Loaded map) (hgrow : CanGrow map) (e : Entry V) :
    RehashPreserves map e := by
  obtain ⟨newMap, moved, map', hnull, hloop, hput, hrehash, hloaded⟩ := h.grow hgrow 0 e
  have hempty : entries newMap = [] := by
    rw [entries, entriesBelow, List.filterMap_eq_nil_iff]
    intro i hi
    exact hnull i (List.mem_range.mp hi)
  have hmoved : (entries moved).Perm (entries map) := by
    have hentries := entries_reinsert hloop
    rwa [hempty, List.append_nil] at hentries
  have hchained : Chained moved := by
    apply reinsert_keeps (P := Chained) _ hloop (chained_empty hnull)
    intro m e' m' hput' hm
    exact hm.place (raw_put_zero hput').2
  refine ⟨map', rehashUp_of_zero hrehash, ?_, hloaded.size_eq, hchained.place (raw_put_zero hput).2⟩
  calc
    (entries map').Perm (e :: entries moved) := entries_place (raw_put_zero hput).2
    List.Perm _ (e :: entries map) := hmoved.cons e

/-- A rehash keeps the entries exactly when the limit of the larger table fits in `int`. -/
theorem Loaded.rehashPreserves_iff (h : Loaded map) (e : Entry V) :
    RehashPreserves map e ↔ CanGrow map := by
  constructor
  · rintro ⟨map', hrehash, -⟩
    by_contra hgrow
    have hstuck := hrehash 0
    rw [h.sized.rehashUp_conversion hgrow] at hstuck
    cases hstuck
  · intro hgrow
    exact h.rehashPreserves hgrow e

section Run
variable {op : Op V} {out : Output V} {ops : List (Op V)} {outs : List (Output V)}

/-- A `raw_put` that returns leaves a loaded table, with all its rehashes. -/
theorem Loaded.of_raw_put (h : Loaded map) (hput : raw_put depth map e = .ok map') :
    Loaded map' := by
  by_cases hbelow : map.size ≤ map.limit
  · obtain ⟨map₁, hput₁, hloaded, -⟩ := h.raw_put_below depth hbelow e
    obtain rfl := Except.ok.inj (hput₁.symm.trans hput)
    exact hloaded
  · cases depth with
    | zero =>
        rw [raw_put, if_neg hbelow] at hput
        cases hput
    | succ depth =>
        rw [raw_put, if_neg hbelow] at hput
        rcases h.rehashUp depth e with ⟨map₁, hrehash, hloaded⟩ | hrehash
        · obtain rfl := Except.ok.inj (hrehash.symm.trans hput)
          exact hloaded
        · rw [hrehash] at hput
          cases hput

theorem Loaded.of_step (h : Loaded map) (hstep : step depth map op = .ok (map', out)) :
    Loaded map' := by
  cases op with
  | put key value =>
      simp only [step, HashmapOpen.put] at hstep
      split at hstep
      · cases hstep
      · rename_i hput
        obtain ⟨rfl, -⟩ := Prod.mk.inj (Except.ok.inj hstep)
        exact h.of_raw_put hput
  | get key =>
      obtain ⟨rfl, -⟩ := Prod.mk.inj (Except.ok.inj hstep)
      exact h
  | xremove key =>
      obtain ⟨rfl, -⟩ := Prod.mk.inj (Except.ok.inj hstep)
      exact h.xremove key

/-- Every run that returns leaves a loaded table. -/
theorem Loaded.of_run (h : Loaded map) (hrun : HashmapOpen.run depth map ops = .ok (map', outs)) :
    Loaded map' := by
  induction ops generalizing map outs with
  | nil =>
      obtain ⟨rfl, -⟩ := Prod.mk.inj (Except.ok.inj hrun)
      exact h
  | cons op ops ih =>
      rw [HashmapOpen.run] at hrun
      split at hrun
      · cases hrun
      · rename_i map₁ out hstep
        split at hrun
        · cases hrun
        · rename_i map₂ rest hrest
          obtain ⟨rfl, -⟩ := Prod.mk.inj (Except.ok.inj hrun)
          exact ih (h.of_step hstep) hrest

/-- For a map that calls have made out of one of `createHashmap` with a load factor other than one,
and that is above its limit: `raw_put` calls `rehashUp`, which keeps the entries, in chains,
without a nested rehash, if and only if the limit of the larger table fits in `int`. -/
theorem rehash_preserves_iff (limit : Nat) (loadFactor multiplier : Rat) (start : Hashmap V)
    (hcreate : createHashmap limit loadFactor multiplier = .ok start) (hload : loadFactor ≠ 1)
    (hrun : run depth start ops = .ok (map, outs)) (hfull : map.limit < map.size) (e : Entry V) :
    (∀ depth, raw_put (depth + 1) map e = rehashUp (raw_put depth) map e) ∧
      (RehashPreserves map e ↔ CanGrow map) := by
  have hloaded : Loaded map := (loaded_createHashmap hcreate hload).of_run hrun
  refine ⟨fun depth => ?_, hloaded.rehashPreserves_iff e⟩
  rw [raw_put, if_neg (Nat.not_le.mpr hfull)]

/-- Words of which one is removed again, and enough more for the next put to rehash. -/
def fillingOps : List (Op Nat) :=
  [.put wordA 1, .put wordAl 2, .xremove wordA] ++
    (List.range 50).map fun n => .put (letterWord n) n

/-- The size, and the fields that decide about a rehash. -/
def observe (map : Hashmap V) : Nat × Nat × Nat × Rat × Rat :=
  (map.size, map.limit, map.arr_size, map.loadFactor, map.multiplier)

/-- `createHashmap` and the calls, observed. -/
def filled (multiplier : Rat) : Option (Nat × Nat × Nat × Rat × Rat) :=
  (createHashmap INITIAL_SIZE LOAD_FACTOR multiplier).toOption.bind fun start : Hashmap Nat =>
    ((run 1 start fillingOps).map fun result => observe result.1).toOption

theorem exists_filled {multiplier : Rat} {observed : Nat × Nat × Nat × Rat × Rat}
    (h : filled multiplier = some observed) :
    ∃ start map outs, createHashmap INITIAL_SIZE LOAD_FACTOR multiplier = .ok start ∧
      run 1 start fillingOps = .ok (map, outs) ∧ observe map = observed := by
  unfold filled at h
  cases hcreate : createHashmap (V := Nat) INITIAL_SIZE LOAD_FACTOR multiplier with
  | error stuck =>
      rw [hcreate] at h
      cases h
  | ok start =>
      cases hrun : run 1 start fillingOps with
      | error stuck =>
          simp only [hcreate, Except.toOption, Option.bind_some, hrun] at h
          cases h
      | ok result =>
          simp only [hcreate, Except.toOption, Option.bind_some, hrun] at h
          exact ⟨start, result.1, result.2, rfl, hrun, Option.some.inj h⟩

/-- A map with the default parameters, at its first rehash. -/
theorem rehash_preserves_iff_words :
    ∃ start map outs, createHashmap INITIAL_SIZE LOAD_FACTOR MULTIPLIER = .ok start ∧
      run 1 start fillingOps = .ok (map, outs) ∧ map.limit < map.size ∧
      RehashPreserves map ⟨wordA, 3⟩ := by
  have hfilled : filled MULTIPLIER = some (51, 50, 100, 1 / 2, 2) := by decide +kernel
  obtain ⟨start, map, outs, hcreate, hrun, hobserved⟩ := exists_filled hfilled
  simp only [observe, Prod.mk.injEq] at hobserved
  obtain ⟨hsize, hlimit, harr, hload, hmult⟩ := hobserved
  have hfull : map.limit < map.size := by omega
  have hgrow : CanGrow map := by
    rw [CanGrow, harr, hload, hmult]
    decide +kernel
  have hone : LOAD_FACTOR ≠ 1 := by norm_num [LOAD_FACTOR]
  obtain ⟨-, hiff⟩ :=
    rehash_preserves_iff INITIAL_SIZE LOAD_FACTOR MULTIPLIER start hcreate hone hrun hfull ⟨wordA, 3⟩
  exact ⟨start, map, outs, hcreate, hrun, hfull, hiff.mpr hgrow⟩

/-- With a multiplier of `2 ^ 26` the first rehash converts a limit that no `int` holds. -/
theorem rehash_undefined_fastGrowth :
    ¬∀ (limit : Nat) (loadFactor multiplier : Rat) (start map : Hashmap Nat) (depth : Nat)
        (ops : List (Op Nat)) (outs : List (Output Nat)) (e : Entry Nat),
      1 / 2 ≤ loadFactor → loadFactor < 1 → 2 ≤ multiplier →
      createHashmap limit loadFactor multiplier = .ok start →
      run depth start ops = .ok (map, outs) → map.limit < map.size → RehashPreserves map e := by
  intro hall
  have hfilled : filled (2 ^ 26) = some (51, 50, 100, 1 / 2, 2 ^ 26) := by decide +kernel
  obtain ⟨start, map, outs, hcreate, hrun, hobserved⟩ := exists_filled hfilled
  simp only [observe, Prod.mk.injEq] at hobserved
  obtain ⟨hsize, hlimit, harr, hload, hmult⟩ := hobserved
  have hone : LOAD_FACTOR ≠ 1 := by norm_num [LOAD_FACTOR]
  have hloaded : Loaded map := (loaded_createHashmap hcreate hone).of_run hrun
  have hpreserves : RehashPreserves map ⟨wordA, 3⟩ := by
    apply hall INITIAL_SIZE LOAD_FACTOR (2 ^ 26) start map 1 fillingOps outs _ _ _ _ hcreate hrun
    · omega
    · norm_num [LOAD_FACTOR]
    · norm_num [LOAD_FACTOR]
    · norm_num
  have hgrow := (hloaded.rehashPreserves_iff _).mp hpreserves
  rw [CanGrow, harr, hload, hmult] at hgrow
  revert hgrow
  decide +kernel

end Run

end OtusCProg.HashmapOpen
