import OtusCProg.Library.CString
import OtusCProg.Library.CyclicScan
import Mathlib.Data.Rat.Floor

/-!
# The open-addressing map of `08_search_sort_homework`

`raw_put` and `rehashUp` call each other; `raw_put` is written over a bound on
the depth of nested rehashes. The two `float` parameters are exact rationals,
and a conversion to an integer type that cannot hold the value has no defined
result. Memory is assumed to be available.
-/

namespace OtusCProg.HashmapOpen
open Library Library.CyclicScan

/-- The type of keys. -/
abbrev K := CString

def LOAD_FACTOR : Rat := 1 / 2
def INITIAL_SIZE : Nat := 100
def MULTIPLIER : Rat := 2

/-- One turn of the loop in `hashcode`; `c` is a signed `char` widened to 64 bits. -/
def hashStep (hash : BitVec 64) (c : UInt8) : BitVec 64 :=
  ((hash <<< 5) + hash) ^^^ c.toBitVec.signExtend 64

def hashcode (str : K) : BitVec 64 := str.bytes.foldl hashStep 5381#64

/-- `struct Entry` with values of any type `V`. -/
structure Entry (V : Type*) where
  key : K
  value : V
deriving DecidableEq

/-- `struct Hashmap`; `data` is `none` where the array holds `NULL`. -/
structure Hashmap (V : Type*) where
  data : Nat → Option (Entry V)
  size : Nat
  arr_size : Nat
  limit : Nat
  loadFactor : Rat
  multiplier : Rat

/-- Why an operation has no result: the probing loop of `raw_put` finds no
`NULL` slot and runs forever, a conversion is out of range, or the nesting
bound of the model was too small. -/
inductive Stuck where
  | noNullSlot
  | conversion
  | depth
deriving DecidableEq, Repr

variable {V : Type*}

/-- Store `slot` into `data[index]` and set the size. -/
def Hashmap.setSlot (map : Hashmap V) (index : Nat) (slot : Option (Entry V)) (size : Nat) :
    Hashmap V :=
  { map with data := Function.update map.data index slot, size := size }

section SetSlot
variable (map : Hashmap V) (index : Nat) (slot : Option (Entry V)) (size : Nat)

@[simp] theorem setSlot_data_self : (map.setSlot index slot size).data index = slot :=
  Function.update_self ..

@[simp] theorem setSlot_data_of_ne {i : Nat} (h : i ≠ index) :
    (map.setSlot index slot size).data i = map.data i :=
  Function.update_of_ne h ..

@[simp] theorem setSlot_size : (map.setSlot index slot size).size = size := rfl

@[simp] theorem setSlot_arr_size : (map.setSlot index slot size).arr_size = map.arr_size := rfl

@[simp] theorem setSlot_limit : (map.setSlot index slot size).limit = map.limit := rfl

@[simp] theorem setSlot_loadFactor : (map.setSlot index slot size).loadFactor = map.loadFactor := rfl

@[simp] theorem setSlot_multiplier : (map.setSlot index slot size).multiplier = map.multiplier := rfl

end SetSlot

/-- `createHashmap`. The limit goes through `int`. -/
def createHashmap (limit : Nat) (loadFactor multiplier : Rat) : Except Stuck (Hashmap V) :=
  let arr_size := if limit ≥ INITIAL_SIZE then limit else INITIAL_SIZE
  let loadFactor := if loadFactor ≥ LOAD_FACTOR ∧ loadFactor ≤ 1 then loadFactor else LOAD_FACTOR
  let bound := ⌊loadFactor * arr_size⌋
  if bound < 2 ^ 31 then
    .ok {
      data := fun _ => none
      size := 0
      arr_size := arr_size
      limit := bound.toNat
      loadFactor := loadFactor
      multiplier := if multiplier ≥ MULTIPLIER then multiplier else MULTIPLIER }
  else .error .conversion

/-- The slot a key starts at. -/
def home (map : Hashmap V) (key : K) : Nat := (hashcode key).toNat % map.arr_size

/-- The slot is `NULL`. -/
def isNull (map : Hashmap V) (index : Nat) : Bool := (map.data index).isNone

/-- `data[index] != NULL && CMP_EQ(data[index]->key, key)` -/
def holds (map : Hashmap V) (key : K) (index : Nat) : Bool :=
  match map.data index with
  | none => false
  | some e => e.key = key

/-- The branch of `raw_put` that places the entry in the first `NULL` slot. -/
def place (map : Hashmap V) (e : Entry V) : Except Stuck (Hashmap V) :=
  match seek (isNull map) map.arr_size map.arr_size (home map e.key) with
  | none => .error .noNullSlot
  | some index => .ok (map.setSlot index (some e) (map.size + 1))

/-- The loop of `rehashUp` over the old slots, with the `raw_put` it calls as argument. -/
def reinsert (raw_put : Hashmap V → Entry V → Except Stuck (Hashmap V)) (map : Hashmap V) :
    Nat → Hashmap V → Except Stuck (Hashmap V)
  | 0, newMap => .ok newMap
  | i + 1, newMap =>
      match reinsert raw_put map i newMap with
      | .error stuck => .error stuck
      | .ok newMap =>
          match map.data i with
          | none => .ok newMap
          | some e => raw_put newMap e

/-- `rehashUp`, with the `raw_put` it calls as argument. -/
def rehashUp (raw_put : Hashmap V → Entry V → Except Stuck (Hashmap V)) (map : Hashmap V)
    (e : Entry V) : Except Stuck (Hashmap V) :=
  let product := ⌊map.arr_size * map.multiplier⌋
  if product < 2 ^ 64 then
    match createHashmap product.toNat map.loadFactor map.multiplier with
    | .error stuck => .error stuck
    | .ok newMap =>
        match reinsert raw_put map map.arr_size newMap with
        | .error stuck => .error stuck
        | .ok newMap => raw_put newMap e
  else .error .conversion

/-- `raw_put`, for at most `depth` nested rehashes. -/
def raw_put : Nat → Hashmap V → Entry V → Except Stuck (Hashmap V)
  | depth, map, e =>
      if map.size ≤ map.limit then place map e
      else
        match depth with
        | 0 => .error .depth
        | depth + 1 => rehashUp (raw_put depth) map e

def put (depth : Nat) (map : Hashmap V) (key : K) (value : V) : Except Stuck (Hashmap V) :=
  raw_put depth map ⟨key, value⟩

/-- `get`: gives up at once when the home slot is `NULL`, scans one turn otherwise. -/
def get (map : Hashmap V) (key : K) : Option V :=
  match map.data (home map key) with
  | none => none
  | some e =>
      if e.key = key then some e.value
      else
        match search (holds map key) map.arr_size (home map key) map.arr_size (home map key) with
        | none => none
        | some index => (map.data index).map (·.value)

/-- `xremove`: scans one turn and clears the slot it finds. -/
def xremove (map : Hashmap V) (key : K) : Hashmap V × Option (Entry V) :=
  match search (holds map key) map.arr_size (home map key) map.arr_size (home map key) with
  | none => (map, none)
  | some index => (map.setSlot index none (map.size - 1), map.data index)

end OtusCProg.HashmapOpen
