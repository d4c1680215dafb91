import OtusCProg.HashmapOpen.Model

/-!
# The table does not look at its values

The operations compare keys and slots only. So they commute with any change of
the values, whatever the table stores with its keys.
-/

namespace OtusCProg.HashmapOpen
open Library

variable {V W : Type*} (f : V → W)

/-- The entry with another value. -/
def Entry.mapValue (e : Entry V) : Entry W := ⟨e.key, f e.value⟩

/-- The table with other values in the same slots. -/
def Hashmap.mapValues (map : Hashmap V) : Hashmap W where
  data i := (map.data i).map (Entry.mapValue f)
  size := map.size
  arr_size := map.arr_size
  limit := map.limit
  loadFactor := map.loadFactor
  multiplier := map.multiplier

section Slots
variable (map : Hashmap V)

theorem isNull_mapValues : isNull (map.mapValues f) = isNull map := by
  funext index
  simp [isNull, Hashmap.mapValues]

theorem holds_mapValues (key : K) : holds (map.mapValues f) key = holds map key := by
  funext index
  cases hdata : map.data index with
  | none => simp [holds, Hashmap.mapValues, hdata]
  | some e => simp [holds, Hashmap.mapValues, Entry.mapValue, hdata]

theorem setSlot_mapValues (index : Nat) (slot : Option (Entry V)) (size : Nat) :
    (map.setSlot index slot size).mapValues f =
      (map.mapValues f).setSlot index (slot.map (Entry.mapValue f)) size := by
  simp only [Hashmap.mapValues, Hashmap.setSlot, Hashmap.mk.injEq, and_true]
  funext i
  by_cases hi : i = index
  · rw [hi, Function.update_self, Function.update_self]
  · rw [Function.update_of_ne hi, Function.update_of_ne hi]

theorem get_mapValues (key : K) : get (map.mapValues f) key = (get map key).map f := by
  have hdata : ∀ index, (map.mapValues f).data index = (map.data index).map (Entry.mapValue f) :=
    fun _ => rfl
  have hhome : home (map.mapValues f) key = home map key := rfl
  have hsize : (map.mapValues f).arr_size = map.arr_size := rfl
  rw [get, get, hdata, hhome, hsize, holds_mapValues]
  cases map.data (home map key) with
  | none => rfl
  | some e =>
      simp only [Option.map_some, Entry.mapValue]
      split
      · rfl
      · cases CyclicScan.search (holds map key) map.arr_size (home map key) map.arr_size (home map key) with
        | none => rfl
        | some index =>
            simp only [hdata, Option.map_map]
            rfl

theorem xremove_mapValues (key : K) :
    xremove (map.mapValues f) key =
      ((xremove map key).1.mapValues f, (xremove map key).2.map (Entry.mapValue f)) := by
  have hhome : home (map.mapValues f) key = home map key := rfl
  have hsize : (map.mapValues f).arr_size = map.arr_size := rfl
  rw [xremove, xremove, hhome, hsize, holds_mapValues]
  cases CyclicScan.search (holds map key) map.arr_size (home map key) map.arr_size (home map key) with
  | none => rfl
  | some index =>
      simp only [setSlot_mapValues, Option.map_none]
      rfl

end Slots

section Insertion
variable {f} {put : Hashmap V → Entry V → Except Stuck (Hashmap V)}
  {put' : Hashmap W → Entry W → Except Stuck (Hashmap W)}

theorem createHashmap_mapValues (limit : Nat) (loadFactor multiplier : Rat) :
    (createHashmap limit loadFactor multiplier : Except Stuck (Hashmap W)) =
      (createHashmap limit loadFactor multiplier).map (Hashmap.mapValues f) := by
  rw [createHashmap, createHashmap]
  split_ifs <;> rfl

theorem place_mapValues (map : Hashmap V) (e : Entry V) :
    place (map.mapValues f) (e.mapValue f) = (place map e).map (Hashmap.mapValues f) := by
  have hhome : home (map.mapValues f) (e.mapValue f).key = home map e.key := rfl
  have hsize : (map.mapValues f).arr_size = map.arr_size := rfl
  rw [place, place, hhome, hsize, isNull_mapValues]
  cases CyclicScan.seek (isNull map) map.arr_size map.arr_size (home map e.key) with
  | none => rfl
  | some index => exact congrArg Except.ok (setSlot_mapValues f map index (some e) (map.size + 1)).symm

theorem reinsert_mapValues
    (hput : ∀ map e, put' (map.mapValues f) (e.mapValue f) = (put map e).map (Hashmap.mapValues f))
    (map : Hashmap V) (n : Nat) (newMap : Hashmap V) :
    reinsert put' (map.mapValues f) n (newMap.mapValues f) =
      (reinsert put map n newMap).map (Hashmap.mapValues f) := by
  induction n with
  | zero => rfl
  | succ n ih =>
      rw [reinsert, reinsert, ih]
      cases reinsert put map n newMap with
      | error stuck => rfl
      | ok moved =>
          have hdata : (map.mapValues f).data n = (map.data n).map (Entry.mapValue f) := rfl
          simp only [Except.map, hdata]
          cases map.data n with
          | none => rfl
          | some e => exact hput moved e

theorem rehashUp_mapValues
    (hput : ∀ map e, put' (map.mapValues f) (e.mapValue f) = (put map e).map (Hashmap.mapValues f))
    (map : Hashmap V) (e : Entry V) :
    rehashUp put' (map.mapValues f) (e.mapValue f) =
      (rehashUp put map e).map (Hashmap.mapValues f) := by
  have hmultiplier : (map.mapValues f).multiplier = map.multiplier := rfl
  have hload : (map.mapValues f).loadFactor = map.loadFactor := rfl
  have hsize : (map.mapValues f).arr_size = map.arr_size := rfl
  rw [rehashUp, rehashUp, hmultiplier, hload, hsize]
  split
  · rw [createHashmap_mapValues (f := f)]
    cases createHashmap ⌊map.arr_size * map.multiplier⌋.toNat map.loadFactor map.multiplier with
    | error stuck => rfl
    | ok newMap =>
        have hmoved := reinsert_mapValues hput map map.arr_size newMap
        simp only [Except.map] at hmoved ⊢
        rw [hmoved]
        cases reinsert put map map.arr_size newMap with
        | error stuck => rfl
        | ok moved => exact hput moved e
  · rfl

/-- Insertion commutes with a change of the values. -/
theorem raw_put_mapValues (depth : Nat) (map : Hashmap V) (e : Entry V) :
    raw_put depth (map.mapValues f) (e.mapValue f) =
      (raw_put depth map e).map (Hashmap.mapValues f) := by
  have hsize (map : Hashmap V) : (map.mapValues f).size = map.size := rfl
  have hlimit (map : Hashmap V) : (map.mapValues f).limit = map.limit := rfl
  induction depth generalizing map e with
  | zero =>
      rw [raw_put, raw_put, hsize, hlimit]
      split
      · exact place_mapValues map e
      · rfl
  | succ depth ih =>
      rw [raw_put, raw_put, hsize, hlimit]
      split
      · exact place_mapValues map e
      · exact rehashUp_mapValues ih map e

end Insertion

end OtusCProg.HashmapOpen
