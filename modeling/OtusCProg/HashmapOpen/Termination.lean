import OtusCProg.HashmapOpen.FiniteMap

/-!
# The probing loop of `raw_put`

A put below the limit needs a `NULL` slot. The size counts the occupied slots,
whatever keys are put, so a load factor below one keeps a slot free. A load
factor of one does not: the size may reach the number of slots without being
above the limit, and the next put probes a full table. A limit that does not fit
in `int` is not the limit of the table, so nothing is promised behind it.
-/

namespace OtusCProg.HashmapOpen
open Library Library.CyclicScan

variable {V : Type*} {map : Hashmap V}

/-- `place` runs forever in a full table. -/
theorem place_full (hpos : 0 < map.arr_size) (hfull : (occupied map).card = map.arr_size)
    (e : Entry V) : place map e = .error .noNullSlot := by
  have hall : occupied map = Finset.range map.arr_size := by
    apply Finset.eq_of_subset_of_card_le
    · exact Finset.filter_subset ..
    · rw [Finset.card_range, hfull]
  have hhome : home map e.key = home map e.key % map.arr_size :=
    (Nat.mod_eq_of_lt (home_lt hpos e.key)).symm
  cases hseek : seek (isNull map) map.arr_size map.arr_size (home map e.key) with
  | none => simp only [place, hseek]
  | some index =>
      rw [hhome] at hseek
      obtain ⟨hnull, hlt⟩ := seek_sound hpos hseek
      have hsome : index ∈ occupied map := by
        rw [hall]
        exact Finset.mem_range.mpr hlt
      have hdata := (mem_occupied.mp hsome).2
      simp [isNull, Option.isSome_iff_ne_none.mp hdata] at hnull

/-- The parameters are sound and the size counts the occupied slots. -/
structure Loaded (map : Hashmap V) : Prop where
  sized : Sized map
  size_eq : map.size = (occupied map).card

/-- Below the limit a slot is free. -/
theorem Loaded.room (h : Loaded map) (hbelow : map.size ≤ map.limit) :
    (occupied map).card < map.arr_size := by
  calc
    (occupied map).card = map.size := h.size_eq.symm
    _ ≤ map.limit := hbelow
    _ < map.arr_size := h.sized.limit_lt

/-- Below the limit `raw_put` fills one slot. -/
theorem Loaded.raw_put_below (h : Loaded map) (depth : Nat) (hbelow : map.size ≤ map.limit)
    (e : Entry V) :
    ∃ map', raw_put depth map e = .ok map' ∧ Loaded map' ∧ map'.size = map.size + 1 ∧
      map'.limit = map.limit := by
  obtain ⟨index, hnull, hlt, hplace⟩ := place_of_room (h.room hbelow) e
  have hput : raw_put depth map e = place map e := by
    cases depth <;> simp [raw_put, hbelow]
  refine ⟨_, hput.trans hplace, ⟨?_, ?_⟩, rfl, rfl⟩
  · apply h.sized.setSlot
    omega
  · rw [card_occupied_fill hlt hnull, setSlot_size, h.size_eq]

/-- The loop of `rehashUp` fills at most one slot for each old one. -/
theorem Loaded.reinsert {newMap : Hashmap V} (h : Loaded newMap) (depth : Nat)
    (map : Hashmap V) {n : Nat} (hroom : newMap.size + n ≤ newMap.limit) :
    ∃ map', reinsert (raw_put depth) map n newMap = .ok map' ∧ Loaded map' ∧
      map'.size ≤ newMap.size + n ∧ map'.limit = newMap.limit := by
  induction n with
  | zero => exact ⟨newMap, rfl, h, le_rfl, rfl⟩
  | succ n ih =>
      obtain ⟨map', hloop, hloaded, hsize, hlimit⟩ := ih (by omega)
      cases hdata : map.data n with
      | none => exact ⟨map', by simp [HashmapOpen.reinsert, hloop, hdata], hloaded, by omega, hlimit⟩
      | some e =>
          obtain ⟨map'', hput, hloaded', hsize', hlimit'⟩ :=
            hloaded.raw_put_below depth (by omega) e
          refine ⟨map'', ?_, hloaded', by omega, hlimit'.trans hlimit⟩
          simp [HashmapOpen.reinsert, hloop, hdata, hput]

/-- A rehash whose limit fits moves every old entry into an empty table and then puts the new one,
all below the new limit. -/
theorem Loaded.grow (h : Loaded map) (hgrow : CanGrow map) (depth : Nat) (e : Entry V) :
    ∃ newMap moved map' : Hashmap V, (∀ i < newMap.arr_size, newMap.data i = none) ∧
      HashmapOpen.reinsert (raw_put depth) map map.arr_size newMap = .ok moved ∧
      raw_put depth moved e = .ok map' ∧ rehashUp (raw_put depth) map e = .ok map' ∧
      Loaded map' := by
  obtain ⟨newMap, hempty, hsized, hsize, hlimit, hrehash⟩ := h.sized.rehashUp_eq hgrow
  have hnew : Loaded newMap := ⟨hsized, hempty.size_eq⟩
  obtain ⟨moved, hloop, hmoved, hsize', hlimit'⟩ :=
    hnew.reinsert depth map (n := map.arr_size) (by omega)
  obtain ⟨map', hput, hloaded, -⟩ := hmoved.raw_put_below depth (by omega) e
  refine ⟨newMap, moved, map', ?_, hloop, hput, ?_, hloaded⟩
  · intro i hi
    cases hdata : newMap.data i with
    | none => rfl
    | some e' => cases hempty.sound i hi e' hdata
  · rw [hrehash, hloop]
    exact hput

/-- A rehash whose limit does not fit in `int` has no result. -/
theorem Sized.rehashUp_conversion (h : Sized map) (hgrow : ¬CanGrow map)
    (raw : Hashmap V → Entry V → Except Stuck (Hashmap V)) (e : Entry V) :
    rehashUp raw map e = .error .conversion := by
  have hproduct := h.product_ge
  obtain ⟨n, hn⟩ : ∃ n : Nat, ⌊map.arr_size * map.multiplier⌋ = n :=
    ⟨_, (Int.toNat_of_nonneg (by omega)).symm⟩
  have harr : INITIAL_SIZE ≤ n := by
    have := h.arr_size_ge
    simp only [INITIAL_SIZE]
    omega
  have hload : map.loadFactor ≥ LOAD_FACTOR ∧ map.loadFactor ≤ 1 :=
    ⟨h.loadFactor_ge, h.loadFactor_lt.le⟩
  have hbig : ¬⌊map.loadFactor * (n : Nat)⌋ < 2 ^ 31 := by simpa [CanGrow, hn] using hgrow
  simp only [HashmapOpen.rehashUp, hn, Int.toNat_natCast, createHashmap, if_pos harr, if_pos hload,
    if_neg hbig, ite_self]

section DepthZero
variable {e : Entry V} {map' newMap moved : Hashmap V} {n : Nat}

/-- A `raw_put` that may not rehash places the entry. -/
theorem raw_put_zero (h : raw_put 0 map e = .ok map') :
    map.size ≤ map.limit ∧ place map e = .ok map' := by
  rw [raw_put] at h
  split at h
  · rename_i hbelow
    exact ⟨hbelow, h⟩
  · cases h

/-- What is put without a rehash is put at every depth. -/
theorem raw_put_of_zero (h : raw_put 0 map e = .ok map') (depth : Nat) :
    raw_put depth map e = .ok map' := by
  obtain ⟨hbelow, hplace⟩ := raw_put_zero h
  cases depth with
  | zero => exact h
  | succ depth => rw [raw_put, if_pos hbelow, hplace]

theorem reinsert_of_zero (h : reinsert (raw_put 0) map n newMap = .ok moved) (depth : Nat) :
    reinsert (raw_put depth) map n newMap = .ok moved := by
  induction n generalizing moved with
  | zero => exact h
  | succ n ih =>
      obtain ⟨middle, hrest, ⟨hdata, rfl⟩ | ⟨e, hdata, hput⟩⟩ := reinsert_succ_cases h
      · simp only [reinsert, ih hrest, hdata]
      · simp only [reinsert, ih hrest, hdata, raw_put_of_zero hput depth]

/-- A rehash without a nested one is the same at every depth. -/
theorem rehashUp_of_zero (h : rehashUp (raw_put 0) map e = .ok map') (depth : Nat) :
    rehashUp (raw_put depth) map e = .ok map' := by
  unfold rehashUp at h ⊢
  dsimp only at h ⊢
  split at h
  · rename_i hproduct
    rw [if_pos hproduct]
    split at h
    · cases h
    · split at h
      · cases h
      · rename_i hloop
        simp only [reinsert_of_zero hloop depth]
        exact raw_put_of_zero h depth
  · cases h

end DepthZero

/-- A rehash ends, or asks for a limit that does not fit in `int`. -/
theorem Loaded.rehashUp (h : Loaded map) (depth : Nat) (e : Entry V) :
    (∃ map', rehashUp (raw_put depth) map e = .ok map' ∧ Loaded map') ∨
      rehashUp (raw_put depth) map e = .error .conversion := by
  by_cases hgrow : CanGrow map
  · obtain ⟨_, _, map', -, -, -, hrehash, hloaded⟩ := h.grow hgrow depth e
    exact Or.inl ⟨map', hrehash, hloaded⟩
  · exact Or.inr (h.sized.rehashUp_conversion hgrow _ e)

/-- A put below the limit or with room to grow ends in the same table for all bounds on nested
rehashes. -/
theorem Loaded.put (h : Loaded map) (hgrow : map.size ≤ map.limit ∨ CanGrow map) (key : K)
    (value : V) :
    ∃ map', (∀ depth, 1 ≤ depth → put depth map key value = .ok map') ∧ Loaded map' := by
  by_cases hbelow : map.size ≤ map.limit
  · obtain ⟨map', hput, hloaded, -⟩ := h.raw_put_below 0 hbelow ⟨key, value⟩
    exact ⟨map', fun depth _ => raw_put_of_zero hput depth, hloaded⟩
  · obtain ⟨_, _, map', -, -, -, hrehash, hloaded⟩ :=
      h.grow (hgrow.resolve_left hbelow) 0 ⟨key, value⟩
    refine ⟨map', fun depth hdepth => ?_, hloaded⟩
    obtain ⟨d, rfl⟩ := Nat.exists_eq_add_of_le' hdepth
    rw [HashmapOpen.put, raw_put, if_neg hbelow]
    exact rehashUp_of_zero hrehash d

/-- Every other put asks for a limit that does not fit in `int`. -/
theorem Loaded.put_conversion (h : Loaded map) (hgrow : ¬(map.size ≤ map.limit ∨ CanGrow map))
    (key : K) (value : V) : HashmapOpen.put 1 map key value = .error .conversion := by
  obtain ⟨habove, hcan⟩ := not_or.mp hgrow
  rw [HashmapOpen.put, raw_put, if_neg habove]
  exact h.sized.rehashUp_conversion hcan _ _

/-- A removal clears the slot of an entry, or does nothing. -/
theorem xremove_cases (hpos : 0 < map.arr_size) (key : K) :
    (xremove map key).1 = map ∨ ∃ index e, index < map.arr_size ∧ map.data index = some e ∧
      (xremove map key).1 = map.setSlot index none (map.size - 1) := by
  have hlt := home_lt hpos key
  unfold HashmapOpen.xremove
  rw [search_eq_seek hlt]
  cases hseek : seek (holds map key) map.arr_size map.arr_size (home map key) with
  | none => exact Or.inl rfl
  | some index =>
      rw [← Nat.mod_eq_of_lt hlt] at hseek
      obtain ⟨hhit, hindex⟩ := seek_sound hpos hseek
      obtain ⟨e, hdata, -⟩ := holds_iff.mp hhit
      exact Or.inr ⟨index, e, hindex, hdata, rfl⟩

theorem Loaded.xremove (h : Loaded map) (key : K) : Loaded (xremove map key).1 := by
  rcases xremove_cases h.sized.arr_size_pos key with hsame | ⟨index, e, hindex, hdata, hclear⟩
  · rwa [hsame]
  · have hsize := h.sized.size_le
    rw [hclear]
    constructor
    · apply h.sized.setSlot
      omega
    · rw [card_occupied_clear hindex hdata, setSlot_size, h.size_eq]

section FullLoad

/-- A table with a load factor of one: its limit is the number of slots. -/
structure FullLoad (map : Hashmap V) : Prop where
  loadFactor_eq : map.loadFactor = 1
  arr_size_pos : 0 < map.arr_size
  limit_eq : map.limit = map.arr_size
  size_eq : map.size = (occupied map).card

/-- It is never above its limit. -/
theorem FullLoad.below (h : FullLoad map) : map.size ≤ map.limit := by
  have hcard := Finset.card_filter_le (Finset.range map.arr_size) fun i => (map.data i).isSome
  rw [Finset.card_range] at hcard
  rw [h.size_eq, h.limit_eq]
  exact hcard

theorem FullLoad.put_eq_place (h : FullLoad map) (depth : Nat) (key : K) (value : V) :
    put depth map key value = place map ⟨key, value⟩ := by
  cases depth <;> rw [put, raw_put, if_pos h.below]

/-- A put ends where a slot is left. -/
theorem FullLoad.put (h : FullLoad map) (hroom : map.size ≠ map.arr_size) (key : K) (value : V) :
    ∃ map', (∀ depth, put depth map key value = .ok map') ∧ FullLoad map' ∧
      map'.size = map.size + 1 ∧ map'.arr_size = map.arr_size := by
  have hbelow := h.below
  have hlimit := h.limit_eq
  have hsize := h.size_eq
  have hfree : (occupied map).card < map.arr_size := by omega
  obtain ⟨index, hnull, hlt, hplace⟩ := place_of_room hfree ⟨key, value⟩
  refine ⟨_, fun depth => (h.put_eq_place depth key value).trans hplace,
    ⟨h.loadFactor_eq, h.arr_size_pos, h.limit_eq, ?_⟩, rfl, rfl⟩
  rw [card_occupied_fill hlt hnull, setSlot_size, hsize]

/-- A put into the full table probes forever. -/
theorem FullLoad.put_stuck (h : FullLoad map) (hfull : map.size = map.arr_size) (depth : Nat)
    (key : K) (value : V) : HashmapOpen.put depth map key value = .error .noNullSlot := by
  rw [h.put_eq_place]
  exact place_full h.arr_size_pos (h.size_eq.symm.trans hfull) _

theorem FullLoad.xremove (h : FullLoad map) (key : K) : FullLoad (xremove map key).1 := by
  rcases xremove_cases h.arr_size_pos key with hsame | ⟨index, e, hindex, hdata, hclear⟩
  · rwa [hsame]
  · rw [hclear]
    refine ⟨h.loadFactor_eq, h.arr_size_pos, h.limit_eq, ?_⟩
    rw [card_occupied_clear hindex hdata, setSlot_size, h.size_eq]

/-- One put too many gets stuck. -/
theorem FullLoad.run_overfill (h : FullLoad map) (depth : Nat) (key : K) (value : V) {n : Nat}
    (hroom : map.size + n = map.arr_size) :
    run depth map (List.replicate (n + 1) (.put key value)) = .error .noNullSlot := by
  induction n generalizing map with
  | zero => simp only [List.replicate, run, step, h.put_stuck hroom]
  | succ n ih =>
      obtain ⟨map', hput, hfull, hsize, harr⟩ := h.put (by omega) key value
      have hrest := ih hfull (by omega)
      rw [List.replicate_succ]
      simp only [run, step, hput depth]
      rw [hrest]

end FullLoad

section Runs
variable {op : Op V}

/-- In front of a put the table is below its limit or the limit of the larger one fits in `int`,
and a table with a load factor of one is not full. -/
def PutOk (map : Hashmap V) : Op V → Prop
  | .put _ _ =>
      (map.size ≤ map.limit ∨ CanGrow map) ∧ (map.loadFactor = 1 → map.size ≠ map.arr_size)
  | _ => True

/-- A put below the limit has a slot. -/
def HasRoom (map : Hashmap V) : Op V → Prop
  | .put _ _ => map.size ≤ map.limit → (occupied map).card < map.arr_size
  | _ => True

/-- The maps that a run goes through. -/
def Countable (map : Hashmap V) : Prop := Loaded map ∨ FullLoad map

theorem Loaded.loadFactor_ne_one (h : Loaded map) : map.loadFactor ≠ 1 := h.sized.loadFactor_lt.ne

theorem Countable.xremove (h : Countable map) (key : K) : Countable (xremove map key).1 :=
  h.imp (·.xremove key) (·.xremove key)

/-- A put that may run has a result, the same for all bounds on nested rehashes. -/
theorem Countable.put (h : Countable map) {key : K} {value : V} (hok : PutOk map (.put key value)) :
    ∃ map', (∀ depth, 1 ≤ depth → put depth map key value = .ok map') ∧ Countable map' := by
  rcases h with hloaded | hfull
  · obtain ⟨map', hput, hloaded'⟩ := hloaded.put hok.1 key value
    exact ⟨map', hput, Or.inl hloaded'⟩
  · obtain ⟨map', hput, hfull', -⟩ := hfull.put (hok.2 hfull.loadFactor_eq) key value
    exact ⟨map', fun depth _ => hput depth, Or.inr hfull'⟩

/-- Every other put has none. -/
theorem Countable.put_stuck (h : Countable map) {key : K} {value : V}
    (hok : ¬PutOk map (.put key value)) : ∃ stuck, HashmapOpen.put 1 map key value = .error stuck := by
  rcases h with hloaded | hfull
  · have hgrow : ¬(map.size ≤ map.limit ∨ CanGrow map) := fun hgrow =>
      hok ⟨hgrow, fun hone => absurd hone hloaded.loadFactor_ne_one⟩
    exact ⟨_, hloaded.put_conversion hgrow key value⟩
  · have hsize : map.size = map.arr_size := by
      by_contra hroom
      exact hok ⟨Or.inl hfull.below, fun _ => hroom⟩
    exact ⟨_, hfull.put_stuck hsize 1 key value⟩

theorem Countable.hasRoom (h : Countable map) (hok : PutOk map op) : HasRoom map op := by
  cases op with
  | put key value =>
      intro hbelow
      rcases h with hloaded | hfull
      · exact hloaded.room hbelow
      · have hroom := hok.2 hfull.loadFactor_eq
        have hsize := hfull.size_eq
        have hlimit := hfull.limit_eq
        omega
  | get key => trivial
  | xremove key => trivial

/-- A call that may run has a result, and the map behind it can be counted again. -/
theorem Countable.step (h : Countable map) (hok : PutOk map op) :
    ∃ map' out, (∀ depth, 1 ≤ depth → step depth map op = .ok (map', out)) ∧ Countable map' := by
  cases op with
  | put key value =>
      obtain ⟨map', hput, hcount⟩ := h.put hok
      refine ⟨map', .done, fun depth hdepth => ?_, hcount⟩
      simp only [HashmapOpen.step, hput depth hdepth]
  | get key => exact ⟨map, _, fun _ _ => rfl, h⟩
  | xremove key => exact ⟨_, _, fun _ _ => rfl, h.xremove key⟩

/-- A call that may not run is a put, and has no result. -/
theorem Countable.run_stuck (h : Countable map) (hok : ¬PutOk map op) (ops : List (Op V)) :
    ∃ stuck, run 1 map (op :: ops) = .error stuck := by
  cases op with
  | put key value =>
      obtain ⟨stuck, hput⟩ := h.put_stuck hok
      exact ⟨stuck, by simp only [run, HashmapOpen.step, hput]⟩
  | get key => exact absurd trivial hok
  | xremove key => exact absurd trivial hok

/-- A run has a result exactly when all its calls may run, and then every put below the limit has
a slot. -/
theorem Countable.run_iff (h : Countable map) (ops : List (Op V)) :
    (∀ depth, 1 ≤ depth → AlongRun HasRoom depth map ops ∧ ∃ result, run depth map ops = .ok result) ↔
      AlongRun PutOk 1 map ops := by
  induction ops generalizing map with
  | nil => exact ⟨fun _ => trivial, fun _ _ _ => ⟨trivial, (map, []), rfl⟩⟩
  | cons op ops ih =>
      by_cases hok : PutOk map op
      · obtain ⟨map', out, hstep, hcount⟩ := h.step hok
        rw [alongRun_cons PutOk (hstep 1 le_rfl), ← ih hcount]
        constructor
        · intro hends
          refine ⟨hok, fun depth hdepth => ?_⟩
          obtain ⟨hroom, hresult⟩ := hends depth hdepth
          exact ⟨((alongRun_cons HasRoom (hstep depth hdepth)).mp hroom).2,
            (run_cons_ok (hstep depth hdepth)).mp hresult⟩
        · rintro ⟨-, hends⟩ depth hdepth
          obtain ⟨hroom, hresult⟩ := hends depth hdepth
          exact ⟨(alongRun_cons HasRoom (hstep depth hdepth)).mpr ⟨h.hasRoom hok, hroom⟩,
            (run_cons_ok (hstep depth hdepth)).mpr hresult⟩
      · constructor
        · intro hends
          obtain ⟨-, result, hrun⟩ := hends 1 le_rfl
          obtain ⟨stuck, hstuck⟩ := h.run_stuck hok ops
          rw [hstuck] at hrun
          cases hrun
        · intro hall
          exact absurd hall.1 hok

end Runs

/-- The load factor that `createHashmap` takes. -/
def clampedLoad (loadFactor : Rat) : Rat :=
  if loadFactor ≥ LOAD_FACTOR ∧ loadFactor ≤ 1 then loadFactor else LOAD_FACTOR

section Create
variable {limit : Nat} {loadFactor multiplier : Rat}

theorem clampedLoad_range (loadFactor : Rat) :
    1 / 2 ≤ clampedLoad loadFactor ∧ clampedLoad loadFactor ≤ 1 := by
  unfold clampedLoad
  split
  · rename_i h
    exact h
  · rw [LOAD_FACTOR]
    norm_num

theorem clampedLoad_eq_one : clampedLoad loadFactor = 1 ↔ loadFactor = 1 := by
  unfold clampedLoad
  split
  · rfl
  · rename_i h
    constructor
    · intro hone
      norm_num [LOAD_FACTOR] at hone
    · rintro rfl
      norm_num [LOAD_FACTOR] at h

/-- What `createHashmap` makes of any arguments. -/
theorem createHashmap_inv (h : createHashmap limit loadFactor multiplier = .ok map) :
    (∀ i, map.data i = none) ∧ map.size = 0 ∧ map.loadFactor = clampedLoad loadFactor ∧
      2 ≤ map.multiplier ∧ 100 ≤ map.arr_size ∧
      (map.limit : Int) = ⌊map.loadFactor * map.arr_size⌋ := by
  have harr : (100 : Nat) ≤ if limit ≥ INITIAL_SIZE then limit else INITIAL_SIZE := by
    split
    · assumption
    · exact le_rfl
  have hmult : (2 : Rat) ≤ if multiplier ≥ MULTIPLIER then multiplier else MULTIPLIER := by
    split
    · assumption
    · exact le_rfl
  have hnonneg : 0 ≤ clampedLoad loadFactor *
      ((if limit ≥ INITIAL_SIZE then limit else INITIAL_SIZE : Nat) : Rat) := by
    apply mul_nonneg
    · exact le_trans (by norm_num) (clampedLoad_range loadFactor).1
    · exact Nat.cast_nonneg _
  by_cases hfits : ⌊clampedLoad loadFactor *
      ((if limit ≥ INITIAL_SIZE then limit else INITIAL_SIZE : Nat) : Rat)⌋ < 2 ^ 31
  · obtain rfl := Except.ok.inj ((if_pos hfits).symm.trans h)
    exact ⟨fun _ => rfl, rfl, rfl, hmult, harr, Int.toNat_of_nonneg (Int.floor_nonneg.mpr hnonneg)⟩
  · have hstuck := (if_neg hfits).symm.trans h
    cases hstuck

/-- A new map is loaded when its load factor is not one. -/
theorem loaded_createHashmap (h : createHashmap limit loadFactor multiplier = .ok map)
    (hload : loadFactor ≠ 1) : Loaded map := by
  obtain ⟨hnull, hsize, hfactor, hmult, harr, hlimit⟩ := createHashmap_inv h
  obtain ⟨hlow, hhigh⟩ := clampedLoad_range loadFactor
  refine ⟨⟨hfactor ▸ hlow, hfactor ▸ lt_of_le_of_ne hhigh ?_, hmult, harr, hlimit, by omega⟩, ?_⟩
  · exact fun hone => hload (clampedLoad_eq_one.mp hone)
  · exact (represents_empty hnull hsize).size_eq

/-- A new map with a load factor of one has a limit of all its slots. -/
theorem fullLoad_createHashmap (h : createHashmap limit 1 multiplier = .ok map) : FullLoad map := by
  obtain ⟨hnull, hsize, hfactor, -, harr, hlimit⟩ := createHashmap_inv h
  have hone : map.loadFactor = 1 := hfactor.trans (clampedLoad_eq_one.mpr rfl)
  rw [hone, one_mul, Int.floor_natCast] at hlimit
  exact ⟨hone, by omega, by exact_mod_cast hlimit, (represents_empty hnull hsize).size_eq⟩

theorem countable_createHashmap (h : createHashmap limit loadFactor multiplier = .ok map) :
    Countable map := by
  by_cases hload : loadFactor = 1
  · subst hload
    exact Or.inr (fullLoad_createHashmap h)
  · exact Or.inl (loaded_createHashmap h hload)

/-- `createHashmap` makes a map when its limit fits in `int`. -/
theorem createHashmap_ok_iff :
    (∃ map : Hashmap V, createHashmap limit loadFactor multiplier = .ok map) ↔
      ⌊clampedLoad loadFactor * (max limit INITIAL_SIZE : Nat)⌋ < 2 ^ 31 := by
  have harr : (if limit ≥ INITIAL_SIZE then limit else INITIAL_SIZE) = max limit INITIAL_SIZE := by
    split <;> omega
  rw [← harr]
  constructor
  · rintro ⟨map, hcreate⟩
    by_contra hbig
    have hstuck := (if_neg hbig).symm.trans hcreate
    cases hstuck
  · intro hfits
    exact ⟨_, if_pos hfits⟩

end Create

/-- `createHashmap` has a result, and so have all calls on the map, with nested rehashes no deeper
than one: no conversion is out of range and no probing loop runs forever. Every put below the
limit has a slot. -/
def InsertionEnds (limit : Nat) (loadFactor multiplier : Rat) (ops : List (Op V)) : Prop :=
  ∃ map, createHashmap limit loadFactor multiplier = .ok map ∧ ∀ depth, 1 ≤ depth →
    AlongRun HasRoom depth map ops ∧ ∃ result, run depth map ops = .ok result

/-- Insertion into a map of any parameters ends if and only if the limits of the first table and of
those that the calls ask for fit in `int`, and no put meets a table with a load factor of
one and no slot left. -/
theorem insertion_ends_iff (limit : Nat) (loadFactor multiplier : Rat) (ops : List (Op V)) :
    InsertionEnds limit loadFactor multiplier ops ↔
      ⌊clampedLoad loadFactor * (max limit INITIAL_SIZE : Nat)⌋ < 2 ^ 31 ∧
        ∀ map, createHashmap limit loadFactor multiplier = .ok map → AlongRun PutOk 1 map ops := by
  have hfits : (∃ map : Hashmap V, createHashmap limit loadFactor multiplier = .ok map) ↔
      ⌊clampedLoad loadFactor * (max limit INITIAL_SIZE : Nat)⌋ < 2 ^ 31 := createHashmap_ok_iff
  rw [← hfits]
  constructor
  · rintro ⟨map, hcreate, hends⟩
    refine ⟨⟨map, hcreate⟩, fun map' hcreate' => ?_⟩
    obtain rfl := Except.ok.inj (hcreate.symm.trans hcreate')
    exact ((countable_createHashmap hcreate).run_iff ops).mp hends
  · rintro ⟨⟨map, hcreate⟩, hok⟩
    exact ⟨map, hcreate, ((countable_createHashmap hcreate).run_iff ops).mpr (hok map hcreate)⟩

/-- In a map of 100 slots with a load factor of one the put number 101 probes forever. -/
theorem insertion_stuck_fullTable :
    ¬∀ (limit : Nat) (loadFactor multiplier : Rat) (ops : List (Op Nat)),
      InsertionEnds limit loadFactor multiplier ops := by
  intro hall
  obtain ⟨map, hcreate, hends⟩ := hall 100 1 2 (List.replicate 101 (.put wordA 0))
  obtain ⟨-, result, hrun⟩ := hends 1 le_rfl
  have harr : map.arr_size = 100 := by
    obtain ⟨map', hcreate', harr⟩ : ∃ map' : Hashmap Nat, createHashmap 100 1 2 = .ok map' ∧
        map'.arr_size = 100 :=
      ⟨_, if_pos (by norm_num [LOAD_FACTOR, INITIAL_SIZE]), rfl⟩
    obtain rfl := Except.ok.inj (hcreate'.symm.trans hcreate)
    exact harr
  have hsize := (createHashmap_inv hcreate).2.1
  have hstuck := (fullLoad_createHashmap hcreate).run_overfill 1 wordA 0 (n := 100) (by omega)
  rw [hrun] at hstuck
  cases hstuck


end OtusCProg.HashmapOpen
