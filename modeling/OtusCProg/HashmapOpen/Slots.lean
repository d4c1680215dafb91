import OtusCProg.HashmapOpen.Model
import Mathlib.Algebra.Order.Floor.Ring
import Mathlib.Data.Rat.Cast.Order
import Mathlib.Data.Set.Card
import Mathlib.Tactic.Linarith

/-!
# The open-addressing map against a finite map

A table represents a partial function from keys to values when its entries are
the graph of that function, each key once. `xremove` and the loop of `get`
scan the whole table, so they need no probing chain. Only the first test of
`get` does: it takes an empty home slot for the absence of the key, although
`xremove` empties slots without a tombstone.
-/

namespace OtusCProg.HashmapOpen
open Library Library.CyclicScan

variable {V : Type*}

/-- The slots that hold an entry. -/
def occupied (map : Hashmap V) : Finset Nat :=
  (Finset.range map.arr_size).filter fun i => (map.data i).isSome

theorem mem_occupied {map : Hashmap V} {i : Nat} :
    i ∈ occupied map ↔ i < map.arr_size ∧ (map.data i).isSome := by
  simp [occupied]

/-- The entries of the table are the graph of `f`, one slot for each key. -/
structure Represents (map : Hashmap V) (f : K → Option V) : Prop where
  sound : ∀ i < map.arr_size, ∀ e, map.data i = some e → f e.key = some e.value
  complete : ∀ key value, f key = some value →
    ∃ i < map.arr_size, map.data i = some ⟨key, value⟩
  unique : ∀ i < map.arr_size, ∀ j < map.arr_size, ∀ e e', map.data i = some e →
    map.data j = some e' → e.key = e'.key → i = j
  size_eq : map.size = (occupied map).card

/-- The parameters are those of a map that `createHashmap` made with a load
factor below one, and the size is at most one above the limit. -/
structure Sized (map : Hashmap V) : Prop where
  loadFactor_ge : 1 / 2 ≤ map.loadFactor
  loadFactor_lt : map.loadFactor < 1
  multiplier_ge : 2 ≤ map.multiplier
  arr_size_ge : 100 ≤ map.arr_size
  limit_eq : (map.limit : Int) = ⌊map.loadFactor * map.arr_size⌋
  size_le : map.size ≤ map.limit + 1

theorem Sized.arr_size_pos {map : Hashmap V} (hsized : Sized map) : 0 < map.arr_size := by
  have := hsized.arr_size_ge
  omega

/-- The limit leaves at least one slot of the table empty. -/
theorem Sized.limit_lt {map : Hashmap V} (hsized : Sized map) : map.limit < map.arr_size := by
  have hpos : (0 : Rat) < map.arr_size := by exact_mod_cast hsized.arr_size_pos
  have hfloor : (⌊map.loadFactor * map.arr_size⌋ : Int) < map.arr_size := by
    rw [Int.floor_lt]
    have h := mul_lt_mul_of_pos_right hsized.loadFactor_lt hpos
    simpa using h
  have := hsized.limit_eq
  omega

section Slots
variable {map : Hashmap V} {f : K → Option V}

/-- Clearing a slot that held an entry. -/
theorem card_occupied_clear {i size : Nat} (hi : i < map.arr_size) {e : Entry V}
    (hdata : map.data i = some e) :
    (occupied (map.setSlot i none size)).card = (occupied map).card - 1 := by
  have herase : occupied (map.setSlot i none size) = (occupied map).erase i := by
    ext j
    rw [mem_occupied, Finset.mem_erase, mem_occupied]
    by_cases hji : j = i
    · simp [hji]
    · simp [hji]
  rw [herase, Finset.card_erase_of_mem]
  exact mem_occupied.mpr ⟨hi, by rw [hdata]; rfl⟩

/-- Filling a `NULL` slot. -/
theorem card_occupied_fill {i size : Nat} (hi : i < map.arr_size) (hnull : map.data i = none)
    {e : Entry V} : (occupied (map.setSlot i (some e) size)).card = (occupied map).card + 1 := by
  have hinsert : occupied (map.setSlot i (some e) size) = insert i (occupied map) := by
    ext j
    rw [mem_occupied, Finset.mem_insert, mem_occupied]
    by_cases hji : j = i
    · simp [hji, hi]
    · simp [hji]
  rw [hinsert, Finset.card_insert_of_notMem]
  simp [mem_occupied, hnull]

/-- Clearing the slot of a key takes the key out of the represented map. -/
theorem Represents.clear (hrep : Represents map f) {i : Nat} (hi : i < map.arr_size) {key : K}
    {value : V} (hdata : map.data i = some ⟨key, value⟩) :
    Represents (map.setSlot i none (map.size - 1)) (Function.update f key none) := by
  -- every entry that is left was there before, in another slot
  have hleft : ∀ j e, (map.setSlot i none (map.size - 1)).data j = some e →
      j ≠ i ∧ map.data j = some e := by
    intro j e he
    by_cases hji : j = i
    · simp [hji] at he
    · exact ⟨hji, by simpa [hji] using he⟩
  constructor
  · intro j hj e he
    obtain ⟨hji, hdj⟩ := hleft j e he
    have hkey : e.key ≠ key := fun h => hji (hrep.unique j hj i hi e _ hdj hdata h)
    rw [Function.update_of_ne hkey]
    exact hrep.sound j hj e hdj
  · intro k v hv
    by_cases hk : k = key
    · simp [hk] at hv
    · rw [Function.update_of_ne hk] at hv
      obtain ⟨j, hj, hdj⟩ := hrep.complete k v hv
      have hji : j ≠ i := by
        rintro rfl
        rw [hdata] at hdj
        exact hk (congrArg Entry.key (Option.some.inj hdj)).symm
      exact ⟨j, hj, by simpa [hji] using hdj⟩
  · intro j hj l hl e e' he he' hkey
    exact hrep.unique j hj l hl e e' (hleft j e he).2 (hleft l e' he').2 hkey
  · rw [card_occupied_clear hi hdata, setSlot_size, hrep.size_eq]

/-- Filling a `NULL` slot with a new key adds it to the represented map. -/
theorem Represents.fill (hrep : Represents map f) {i : Nat} (hi : i < map.arr_size)
    (hnull : map.data i = none) {e : Entry V} (hnew : f e.key = none) :
    Represents (map.setSlot i (some e) (map.size + 1))
      (Function.update f e.key (some e.value)) := by
  -- an entry is the new one in its slot, or an old one with another key
  have hcases : ∀ j < map.arr_size, ∀ e',
      (map.setSlot i (some e) (map.size + 1)).data j = some e' →
      j = i ∧ e' = e ∨ j ≠ i ∧ map.data j = some e' ∧ e'.key ≠ e.key := by
    intro j hj e' he'
    by_cases hji : j = i
    · rw [hji, setSlot_data_self] at he'
      exact Or.inl ⟨hji, (Option.some.inj he').symm⟩
    · rw [setSlot_data_of_ne _ _ _ _ hji] at he'
      refine Or.inr ⟨hji, he', ?_⟩
      intro h
      have hf := hrep.sound j hj e' he'
      rw [h, hnew] at hf
      cases hf
  constructor
  · intro j hj e' he'
    rcases hcases j hj e' he' with ⟨_, rfl⟩ | ⟨_, hdj, hkey⟩
    · rw [Function.update_self]
    · rw [Function.update_of_ne hkey]
      exact hrep.sound j hj e' hdj
  · intro k v hv
    by_cases hk : k = e.key
    · rw [hk, Function.update_self] at hv
      obtain rfl := Option.some.inj hv
      exact ⟨i, hi, by rw [hk, setSlot_data_self]⟩
    · rw [Function.update_of_ne hk] at hv
      obtain ⟨j, hj, hdj⟩ := hrep.complete k v hv
      have hji : j ≠ i := by
        rintro rfl
        rw [hnull] at hdj
        cases hdj
      exact ⟨j, hj, by rw [setSlot_data_of_ne _ _ _ _ hji]; exact hdj⟩
  · intro j hj l hl e₁ e₂ h₁ h₂ hkey
    rcases hcases j hj e₁ h₁ with ⟨hji, rfl⟩ | ⟨_, hdj, hne₁⟩ <;>
      rcases hcases l hl e₂ h₂ with ⟨hli, rfl⟩ | ⟨_, hdl, hne₂⟩
    · rw [hji, hli]
    · exact absurd hkey.symm hne₂
    · exact absurd hkey hne₁
    · exact hrep.unique j hj l hl e₁ e₂ hdj hdl hkey
  · rw [card_occupied_fill hi hnull, setSlot_size, hrep.size_eq]

/-- Less entries than slots leave a `NULL` slot. -/
theorem exists_null (h : (occupied map).card < map.arr_size) :
    ∃ i < map.arr_size, map.data i = none := by
  by_contra hfull
  have hall : occupied map = Finset.range map.arr_size := by
    ext i
    rw [mem_occupied, Finset.mem_range]
    constructor
    · exact And.left
    · intro hi
      refine ⟨hi, ?_⟩
      rw [Option.isSome_iff_ne_none]
      exact fun hnull => hfull ⟨i, hi, hnull⟩
  rw [hall, Finset.card_range] at h
  omega

/-- `place` fills a `NULL` slot of a table that is not full. -/
theorem place_of_room (hroom : (occupied map).card < map.arr_size) (e : Entry V) :
    ∃ index, map.data index = none ∧ index < map.arr_size ∧
      place map e = .ok (map.setSlot index (some e) (map.size + 1)) := by
  obtain ⟨i, hi, hnull⟩ := exists_null hroom
  have hpos : 0 < map.arr_size := by omega
  have hhome : home map e.key = home map e.key % map.arr_size :=
    (Nat.mod_eq_of_lt (Nat.mod_lt _ hpos)).symm
  have hhit : isNull map i = true := by simp [isNull, hnull]
  have hsome := seek_complete (home map e.key) hi hhit
  obtain ⟨index, hseek⟩ := Option.isSome_iff_exists.mp hsome
  obtain ⟨hfound, hlt⟩ := seek_sound hpos hseek
  refine ⟨index, by simpa [isNull] using hfound, hlt, ?_⟩
  rw [← hhome] at hseek
  simp [place, hseek]

theorem isNull_eq_false {i : Nat} : isNull map i = false ↔ map.data i ≠ none := by
  unfold isNull
  cases map.data i <;> simp

/-- What `place` returns is the table with the first `NULL` slot behind the home filled. -/
theorem place_cases {map' : Hashmap V} {e : Entry V} (h : place map e = .ok map') :
    ∃ index < map.arr_size, map.data index = none ∧
      map' = map.setSlot index (some e) (map.size + 1) ∧
      ∃ t < map.arr_size, (home map e.key + t) % map.arr_size = index ∧
        ∀ s < t, map.data ((home map e.key + s) % map.arr_size) ≠ none := by
  unfold place at h
  cases hseek : seek (isNull map) map.arr_size map.arr_size (home map e.key) with
  | none => simp [hseek] at h
  | some index =>
      rw [hseek] at h
      have hpos : 0 < map.arr_size := by
        by_contra hzero
        rw [Nat.eq_zero_of_not_pos hzero, seek] at hseek
        cases hseek
      rw [← Nat.mod_eq_of_lt (show home map e.key < map.arr_size from Nat.mod_lt _ hpos)] at hseek
      obtain ⟨hnull, hlt⟩ := seek_sound hpos hseek
      obtain ⟨t, ht, hindex, hbefore⟩ := seek_first hpos hseek
      refine ⟨index, hlt, by simpa [isNull] using hnull, (Except.ok.inj h).symm, t, ht, hindex, ?_⟩
      intro s hs
      exact isNull_eq_false.mp (hbefore s hs)

/-- `place` adds the new key to a table that is not full. -/
theorem Represents.place (hrep : Represents map f) (hroom : map.size < map.arr_size)
    (e : Entry V) :
    ∃ index, map.data index = none ∧ index < map.arr_size ∧
      place map e = .ok (map.setSlot index (some e) (map.size + 1)) := by
  apply place_of_room
  rw [← hrep.size_eq]
  exact hroom

end Slots

/-- A slot update keeps the parameters. -/
theorem Sized.setSlot {map : Hashmap V} (hsized : Sized map) (index : Nat)
    (slot : Option (Entry V)) {size : Nat} (hsize : size ≤ map.limit + 1) :
    Sized (map.setSlot index slot size) :=
  { hsized with size_le := hsize }

section Search
variable {map : Hashmap V} {f : K → Option V} {key : K}

theorem holds_iff {i : Nat} : holds map key i = true ↔ ∃ e, map.data i = some e ∧ e.key = key := by
  unfold holds
  cases map.data i <;> simp

theorem home_lt (hpos : 0 < map.arr_size) (key : K) : home map key < map.arr_size :=
  Nat.mod_lt _ hpos

/-- A slot holds the key exactly when the represented map has it. -/
theorem Represents.holds_value (hrep : Represents map f) {i : Nat} (hi : i < map.arr_size)
    (hhit : holds map key i = true) : ∃ value, f key = some value ∧
      map.data i = some ⟨key, value⟩ := by
  obtain ⟨e, hdata, rfl⟩ := holds_iff.mp hhit
  exact ⟨e.value, hrep.sound i hi e hdata, hdata⟩

/-- One turn of the search finds the entry of a present key and nothing for an absent one. -/
theorem Represents.search_cases (hrep : Represents map f) (hpos : 0 < map.arr_size) (key : K) :
    (f key = none ∧
        search (holds map key) map.arr_size (home map key) map.arr_size (home map key) = none) ∨
      ∃ value i, f key = some value ∧ i < map.arr_size ∧ map.data i = some ⟨key, value⟩ ∧
        search (holds map key) map.arr_size (home map key) map.arr_size (home map key) =
          some i := by
  have hhome : home map key = home map key % map.arr_size :=
    (Nat.mod_eq_of_lt (home_lt hpos key)).symm
  rw [search_eq_seek (home_lt hpos key)]
  cases hseek : seek (holds map key) map.arr_size map.arr_size (home map key) with
  | none =>
      refine Or.inl ⟨?_, rfl⟩
      cases hf : f key with
      | none => rfl
      | some value =>
          obtain ⟨i, hi, hdata⟩ := hrep.complete key value hf
          have hhit : holds map key i = true := holds_iff.mpr ⟨_, hdata, rfl⟩
          have hsome := seek_complete (home map key) hi hhit
          rw [← hhome, hseek] at hsome
          cases hsome
  | some i =>
      rw [hhome] at hseek
      obtain ⟨hhit, hi⟩ := seek_sound hpos hseek
      obtain ⟨value, hvalue, hdata⟩ := hrep.holds_value hi hhit
      exact Or.inr ⟨value, i, hvalue, hi, hdata, rfl⟩

/-- The key is absent, or its home slot is not `NULL`. -/
def HomeOk (map : Hashmap V) (key : K) : Prop :=
  (∃ i < map.arr_size, holds map key i = true) → map.data (home map key) ≠ none

/-- `get` returns the value of the represented map exactly when the key is
absent or its home slot is not `NULL`. -/
theorem Represents.get_eq_iff (hrep : Represents map f) (hpos : 0 < map.arr_size) (key : K) :
    get map key = f key ↔ HomeOk map key := by
  cases hhome : map.data (home map key) with
  | none =>
      have hget : get map key = none := by simp [get, hhome]
      rw [hget]
      constructor
      · rintro hf ⟨i, hi, hhit⟩
        obtain ⟨value, hvalue, _⟩ := hrep.holds_value hi hhit
        rw [← hf] at hvalue
        cases hvalue
      · intro hok
        cases hf : f key with
        | none => rfl
        | some value =>
            obtain ⟨i, hi, hdata⟩ := hrep.complete key value hf
            exact absurd hhome (hok ⟨i, hi, holds_iff.mpr ⟨_, hdata, rfl⟩⟩)
  | some e =>
      have hok : HomeOk map key := by
        intro _
        simp [hhome]
      simp only [hok, iff_true]
      by_cases heq : e.key = key
      · rw [← heq, hrep.sound _ (home_lt hpos key) e hhome]
        simp [get, heq, hhome]
      · simp only [get, hhome, if_neg heq]
        rcases hrep.search_cases hpos key with ⟨hf, hsearch⟩ | ⟨value, i, hf, _, hdata, hsearch⟩
        · rw [hsearch, hf]
        · rw [hsearch, hf]
          simp [hdata]

/-- `xremove` returns the entry of the key and takes the key out of the map. -/
theorem Represents.xremove (hrep : Represents map f) (hsized : Sized map) (key : K) :
    Represents (xremove map key).1 (Function.update f key none) ∧ Sized (xremove map key).1 ∧
      (xremove map key).2 = (f key).map fun value => ⟨key, value⟩ := by
  have hpos := hsized.arr_size_pos
  unfold HashmapOpen.xremove
  rcases hrep.search_cases hpos key with ⟨hf, hsearch⟩ | ⟨value, i, hf, hi, hdata, hsearch⟩
  · have hsame : Function.update f key none = f := by rw [← hf, Function.update_eq_self]
    simp only [hsearch, hsame, hf]
    exact ⟨hrep, hsized, rfl⟩
  · simp only [hsearch, hf, hdata]
    have hsize := hsized.size_le
    exact ⟨hrep.clear hi hdata, hsized.setSlot i none (by omega), rfl⟩

end Search

end OtusCProg.HashmapOpen
