import OtusCProg.HashmapOpen.Rehash
import OtusCProg.Library.CyclicWindow

/-!
# Probing chains

In a chained table every slot between the home of a key and its entry is filled.
`place` and therefore `raw_put` with all its rehashes keep this; `xremove` alone
does not. Removing a key and putting the same key again stores the entry back into
its old slot, since the hole is the only `NULL` slot of the chain.
-/

namespace OtusCProg.HashmapOpen
open Library Library.CyclicScan

variable {V : Type*} {map map' : Hashmap V} {f : K → Option V}

/-- The entry of a key is reached from its home over filled slots only. -/
def Chained (map : Hashmap V) : Prop :=
  ∀ i < map.arr_size, ∀ e, map.data i = some e →
    ∃ t < map.arr_size, (home map e.key + t) % map.arr_size = i ∧
      ∀ s < t, map.data ((home map e.key + s) % map.arr_size) ≠ none

/-- In a chained table `get` is exact for every key. -/
theorem Chained.homeOk (hch : Chained map) (hpos : 0 < map.arr_size) (key : K) :
    HomeOk map key := by
  rintro ⟨i, hi, hhit⟩
  obtain ⟨e, hdata, rfl⟩ := holds_iff.mp hhit
  obtain ⟨t, _, hslot, hbefore⟩ := hch i hi e hdata
  have hhome : (home map e.key + 0) % map.arr_size = home map e.key :=
    Nat.mod_eq_of_lt (home_lt hpos e.key)
  cases t with
  | zero =>
      rw [hhome] at hslot
      rw [hslot, hdata]
      exact Option.some_ne_none e
  | succ t =>
      have hfirst := hbefore 0 (Nat.succ_pos t)
      rwa [hhome] at hfirst

/-- A table without entries is chained. -/
theorem chained_empty (hnull : ∀ i < map.arr_size, map.data i = none) : Chained map := by
  intro i hi e hdata
  rw [hnull i hi] at hdata
  cases hdata

/-- Placing an entry fills the end of its chain. -/
theorem Chained.place (hch : Chained map) {e : Entry V} (hplace : place map e = .ok map') :
    Chained map' := by
  obtain ⟨index, _, _, rfl, t, ht, hindex, hbefore⟩ := place_cases hplace
  have hfilled : ∀ i, map.data i ≠ none →
      (map.setSlot index (some e) (map.size + 1)).data i ≠ none := by
    intro i hi
    by_cases hii : i = index
    · rw [hii, setSlot_data_self]
      exact Option.some_ne_none e
    · rwa [setSlot_data_of_ne _ _ _ _ hii]
  intro i hi e' hdata
  by_cases hii : i = index
  · rw [hii, setSlot_data_self] at hdata
    obtain rfl := Option.some.inj hdata
    refine ⟨t, ht, hindex.trans hii.symm, ?_⟩
    intro s hs
    exact hfilled _ (hbefore s hs)
  · rw [setSlot_data_of_ne _ _ _ _ hii] at hdata
    obtain ⟨t', ht', hslot, hchain⟩ := hch i hi e' hdata
    exact ⟨t', ht', hslot, fun s hs => hfilled _ (hchain s hs)⟩

section Growth

/-- The parameters of the maps that grow from the one of `countWords`. -/
structure Doubled (map : Hashmap V) (k : Nat) : Prop where
  arr_size_eq : map.arr_size = 100 * 2 ^ k
  limit_eq : map.limit = 50 * 2 ^ k
  loadFactor_eq : map.loadFactor = 1 / 2
  multiplier_eq : map.multiplier = 2

theorem Doubled.place {k : Nat} (h : Doubled map k) {e : Entry V}
    (hplace : HashmapOpen.place map e = .ok map') : Doubled map' k := by
  obtain ⟨index, _, _, rfl, _⟩ := place_cases hplace
  exact ⟨h.arr_size_eq, h.limit_eq, h.loadFactor_eq, h.multiplier_eq⟩

/-- The product of `rehashUp` for such a map. -/
theorem Doubled.product {k : Nat} (h : Doubled map k) :
    ⌊map.arr_size * map.multiplier⌋ = ((100 * 2 ^ (k + 1) : Nat) : Int) := by
  rw [h.arr_size_eq, h.multiplier_eq]
  have hcast : ((100 * 2 ^ k : Nat) : Rat) * 2 = ((100 * 2 ^ (k + 1) : Nat) : Int) := by
    push_cast
    ring
  rw [hcast, Int.floor_intCast]

/-- The limit of a map with a doubled array. -/
theorem half_floor (k : Nat) : ⌊(1 / 2 : Rat) * (100 * 2 ^ k : Nat)⌋ = ((50 * 2 ^ k : Nat) : Int) := by
  have hcast : (1 / 2 : Rat) * (100 * 2 ^ k : Nat) = ((50 * 2 ^ k : Nat) : Int) := by
    push_cast
    ring
  rw [hcast, Int.floor_intCast]

/-- `createHashmap` makes a map of this family, or its limit does not fit. -/
theorem createHashmap_doubled (k : Nat) :
    (k < 26 ∧ ∃ map : Hashmap V, createHashmap (100 * 2 ^ k) (1 / 2) 2 = .ok map ∧ Doubled map k ∧
        (∀ i, map.data i = none) ∧ map.size = 0) ∨
      26 ≤ k ∧ createHashmap (V := V) (100 * 2 ^ k) (1 / 2) 2 = .error .conversion := by
  have hone : 1 ≤ 2 ^ k := Nat.one_le_two_pow
  have harr : 100 * 2 ^ k ≥ INITIAL_SIZE := by
    rw [INITIAL_SIZE]
    omega
  have hload : (1 / 2 : Rat) ≥ LOAD_FACTOR ∧ (1 / 2 : Rat) ≤ 1 := by norm_num [LOAD_FACTOR]
  have hmult : (2 : Rat) ≥ MULTIPLIER := by norm_num [MULTIPLIER]
  rcases Nat.lt_or_ge k 26 with hk | hk
  · have hpow : 2 ^ k ≤ 2 ^ 25 := Nat.pow_le_pow_right (by decide) (by omega)
    have hfits : ((50 * 2 ^ k : Nat) : Int) < 2 ^ 31 := by omega
    refine Or.inl ⟨hk, ⟨fun _ => none, 0, 100 * 2 ^ k, 50 * 2 ^ k, 1 / 2, 2⟩, ?_,
      ⟨rfl, rfl, rfl, rfl⟩, fun _ => rfl, rfl⟩
    simp only [createHashmap, if_pos harr, if_pos hload, if_pos hmult]
    rw [half_floor, if_pos hfits, Int.toNat_natCast]
  · have hpow : 2 ^ 26 ≤ 2 ^ k := Nat.pow_le_pow_right (by decide) hk
    have hlarge : ¬((50 * 2 ^ k : Nat) : Int) < 2 ^ 31 := by omega
    refine Or.inr ⟨hk, ?_⟩
    simp only [createHashmap, if_pos harr, if_pos hload, if_pos hmult]
    rw [half_floor, if_neg hlarge]

/-- `rehashUp` of such a map, with the product computed. -/
theorem Doubled.rehashUp_eq {k : Nat} (h : Doubled map k) (hk : k < 26)
    (raw : Hashmap V → Entry V → Except Stuck (Hashmap V)) (e : Entry V) :
    rehashUp raw map e =
      createHashmap (100 * 2 ^ (k + 1)) (1 / 2) 2 >>= fun newMap =>
        reinsert raw map map.arr_size newMap >>= fun newMap => raw newMap e := by
  have hpow : 2 ^ (k + 1) ≤ 2 ^ 26 := Nat.pow_le_pow_right (by decide) hk
  have hproduct : ((100 * 2 ^ (k + 1) : Nat) : Int) < 2 ^ 64 := by omega
  unfold rehashUp
  dsimp only
  rw [h.product, if_pos hproduct, Int.toNat_natCast, h.loadFactor_eq, h.multiplier_eq]
  cases createHashmap (V := V) (100 * 2 ^ (k + 1)) (1 / 2) 2 with
  | error stuck => rfl
  | ok newMap =>
      dsimp only [bind, Except.bind]
      cases reinsert raw map map.arr_size newMap with
      | error stuck => rfl
      | ok moved => rfl

/-- A chained map of this family that `createHashmap` could make. -/
structure Grown (map : Hashmap V) : Prop where
  chained : Chained map
  doubled : ∃ k < 26, Doubled map k

/-- The loop of `rehashUp` keeps what each `raw_put` keeps. -/
theorem reinsert_keeps {raw : Hashmap V → Entry V → Except Stuck (Hashmap V)}
    {P : Hashmap V → Prop} (hkeep : ∀ m e m', raw m e = .ok m' → P m → P m') {n : Nat}
    {newMap : Hashmap V} (hloop : reinsert raw map n newMap = .ok map') (hnew : P newMap) :
    P map' := by
  induction n generalizing map' with
  | zero =>
      obtain rfl := Except.ok.inj hloop
      exact hnew
  | succ n ih =>
      obtain ⟨middle, hrest, ⟨_, rfl⟩ | ⟨e, _, hraw⟩⟩ := reinsert_succ_cases hloop
      · exact ih hrest
      · exact hkeep middle e map' hraw (ih hrest)

/-- A rehash ends in a grown map when the `raw_put` it calls keeps grown maps. -/
theorem Grown.rehashUp (h : Grown map) {raw : Hashmap V → Entry V → Except Stuck (Hashmap V)}
    (hkeep : ∀ m e m', raw m e = .ok m' → Grown m → Grown m') {e : Entry V}
    (hrehash : rehashUp raw map e = .ok map') : Grown map' := by
  obtain ⟨k, hk, hdoubled⟩ := h.doubled
  rw [hdoubled.rehashUp_eq hk] at hrehash
  rcases createHashmap_doubled (V := V) (k + 1) with
    ⟨hk', newMap, hcreate, hnew, hnull, _⟩ | ⟨_, hcreate⟩
  · rw [hcreate] at hrehash
    change (reinsert raw map map.arr_size newMap >>= fun newMap => raw newMap e) = .ok map' at hrehash
    cases hloop : reinsert raw map map.arr_size newMap with
    | error stuck =>
        rw [hloop] at hrehash
        cases hrehash
    | ok moved =>
        have hmoved : Grown moved :=
          reinsert_keeps hkeep hloop ⟨chained_empty fun i _ => hnull i, k + 1, hk', hnew⟩
        rw [hloop] at hrehash
        exact hkeep moved e map' hrehash hmoved
  · rw [hcreate] at hrehash
    cases hrehash

/-- Every `raw_put` that returns keeps the map grown, with all its rehashes. -/
theorem raw_put_grown (depth : Nat) (map : Hashmap V) (e : Entry V) (map' : Hashmap V)
    (hput : raw_put depth map e = .ok map') (h : Grown map) : Grown map' := by
  induction depth generalizing map e map' with
  | zero =>
      rw [raw_put] at hput
      split at hput
      · obtain ⟨k, hk, hdoubled⟩ := h.doubled
        exact ⟨h.chained.place hput, k, hk, hdoubled.place hput⟩
      · cases hput
  | succ depth ih =>
      rw [raw_put] at hput
      split at hput
      · obtain ⟨k, hk, hdoubled⟩ := h.doubled
        exact ⟨h.chained.place hput, k, hk, hdoubled.place hput⟩
      · exact h.rehashUp ih hput

/-- Below the last doubling the next table can be made. -/
theorem Doubled.canGrow {k : Nat} (h : Doubled map k) (hk : k < 25) : CanGrow map := by
  have hpow : 2 ^ (k + 1) ≤ 2 ^ 25 := Nat.pow_le_pow_right (by decide) hk
  rw [CanGrow, h.product, h.loadFactor_eq, Int.toNat_natCast, half_floor]
  omega

/-- After the last doubling a rehash asks for a limit that does not fit. -/
theorem Doubled.rehashUp_stuck (h : Doubled map 25)
    (raw : Hashmap V → Entry V → Except Stuck (Hashmap V)) (e : Entry V) :
    HashmapOpen.rehashUp raw map e = .error .conversion := by
  rw [h.rehashUp_eq (by decide)]
  rcases createHashmap_doubled (V := V) (25 + 1) with ⟨hk, _⟩ | ⟨_, hcreate⟩
  · omega
  · rw [hcreate]
    rfl

end Growth

section Hole
variable {i : Nat} {e : Entry V} {n m : Nat}

/-- A slot that has been emptied is the first `NULL` slot of the chain of its key. -/
theorem Chained.seek_hole (hch : Chained map) (hpos : 0 < map.arr_size) (hi : i < map.arr_size)
    (hdata : map.data i = some e) :
    seek (isNull (map.setSlot i none n)) map.arr_size map.arr_size (home map e.key) = some i := by
  obtain ⟨t, ht, hslot, hchain⟩ := hch i hi e hdata
  change (home map e.key + t) % map.arr_size = i at hslot
  change ∀ s < t, map.data ((home map e.key + s) % map.arr_size) ≠ none at hchain
  have hhit : isNull (map.setSlot i none n) ((home map e.key + t) % map.arr_size) = true := by
    rw [hslot]
    simp [isNull]
  have hbefore : ∀ s < t,
      isNull (map.setSlot i none n) ((home map e.key + s) % map.arr_size) = false := by
    intro s hs
    have hne : (home map e.key + s) % map.arr_size ≠ i := by
      intro h
      have := CyclicWindow.add_mod_injective (by omega) ht (h.trans hslot.symm)
      omega
    rw [isNull_eq_false, setSlot_data_of_ne _ _ _ _ hne]
    exact hchain s hs
  have hfound := seek_eq_some hpos ht hhit hbefore
  rw [hslot, Nat.mod_eq_of_lt (home_lt hpos e.key)] at hfound
  exact hfound

/-- Emptying a slot and filling it with an entry of the same key keeps the chains. -/
theorem Chained.refill (hch : Chained map) (hi : i < map.arr_size) (hdata : map.data i = some e)
    (value : V) : Chained ((map.setSlot i none n).setSlot i (some ⟨e.key, value⟩) m) := by
  have hfilled : ∀ l, map.data l ≠ none →
      ((map.setSlot i none n).setSlot i (some ⟨e.key, value⟩) m).data l ≠ none := by
    intro l hl
    by_cases hli : l = i
    · rw [hli, setSlot_data_self]
      exact Option.some_ne_none _
    · rwa [setSlot_data_of_ne _ _ _ _ hli, setSlot_data_of_ne _ _ _ _ hli]
  intro j hj e' he'
  by_cases hji : j = i
  · rw [hji, setSlot_data_self] at he'
    obtain rfl := Option.some.inj he'
    obtain ⟨t, ht, hslot, hchain⟩ := hch i hi e hdata
    exact ⟨t, ht, hslot.trans hji.symm, fun s hs => hfilled _ (hchain s hs)⟩
  · rw [setSlot_data_of_ne _ _ _ _ hji, setSlot_data_of_ne _ _ _ _ hji] at he'
    obtain ⟨t, ht, hslot, hchain⟩ := hch j hj e' he'
    exact ⟨t, ht, hslot, fun s hs => hfilled _ (hchain s hs)⟩

end Hole

/-- Putting a key again after its removal finds the slot that the removal left. -/
theorem Chained.put_xremove (hch : Chained map) (hrep : Represents map f) (hsized : Sized map)
    {key : K} {value : V} (hkey : f key = some value) (depth : Nat) (value' : V) :
    ∃ map', put depth (xremove map key).1 key value' = .ok map' ∧
      Represents map' (Function.update f key (some value')) ∧ Sized map' ∧ Chained map' ∧
      map'.arr_size = map.arr_size ∧ map'.limit = map.limit ∧ map'.loadFactor = map.loadFactor ∧
      map'.multiplier = map.multiplier ∧ map'.size = map.size := by
  have hpos := hsized.arr_size_pos
  obtain ⟨value₀, i, hvalue, hi, hdata, hsearch⟩ :=
    (hrep.search_cases hpos key).resolve_left fun h => by simp [hkey] at h
  obtain rfl : value = value₀ := Option.some.inj (hkey.symm.trans hvalue)
  let hole := map.setSlot i none (map.size - 1)
  have hremove : (xremove map key).1 = hole := by simp [HashmapOpen.xremove, hsearch, hole]
  have hcount : 0 < map.size := by
    rw [hrep.size_eq]
    exact Finset.card_pos.mpr ⟨i, mem_occupied.mpr ⟨hi, by rw [hdata]; rfl⟩⟩
  have hsize : hole.size + 1 = map.size := Nat.sub_add_cancel hcount
  have hhole : Represents hole (Function.update f key none) := hrep.clear hi hdata
  have hholeSized : Sized hole := hsized.setSlot i none (by have := hsized.size_le; omega)
  have hseek : seek (isNull hole) hole.arr_size hole.arr_size (home hole key) = some i :=
    hch.seek_hole hpos hi hdata
  have hbelow : hole.size ≤ hole.limit := by
    have := hsized.size_le
    show map.size - 1 ≤ map.limit
    omega
  have hput : put depth hole key value' =
      .ok (hole.setSlot i (some ⟨key, value'⟩) (hole.size + 1)) := by
    cases depth <;> simp only [put, raw_put, if_pos hbelow, HashmapOpen.place, hseek]
  have hfill := hhole.fill hi (setSlot_data_self map i none (map.size - 1))
    (e := ⟨key, value'⟩) (Function.update_self ..)
  rw [Function.update_idem] at hfill
  refine ⟨_, by rw [hremove]; exact hput, hfill, hholeSized.setSlot i _ ?_,
    hch.refill hi hdata value', rfl, rfl, rfl, rfl, hsize⟩
  rw [hsize]
  exact hsized.size_le

end OtusCProg.HashmapOpen
