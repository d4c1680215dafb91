import OtusCProg.HashmapOpen.Chain
import OtusCProg.HashmapOpen.FiniteMap
import OtusCProg.Library.MachineInt
import Mathlib.Data.Finset.Card

/-!
# Counting words

`countWords` updates a map for one word after the other. A word that it has seen
is removed and put again with the next value, a new one is put with one. The map
stays chained, so every `get` is exact and the values are the numbers of
occurrences modulo the range of `size_t`. Doubling the table ends where the limit
of the next one leaves the range of `int`.
-/

namespace OtusCProg.HashmapOpen
open Library Library.MachineInt

/-- What the loop of `countWords` does with a complete word. -/
def countWord (depth : Nat) (map : Hashmap Nat) (key : K) : Except Stuck (Hashmap Nat) :=
  match get map key with
  | some old_value => put depth (xremove map key).1 key ((old_value + 1) % 2 ^ 64)
  | none => put depth map key 1

/-- The words of the file in order, on a map. -/
def countFrom (depth : Nat) (map : Hashmap Nat) : List K → Except Stuck (Hashmap Nat)
  | [] => .ok map
  | key :: words =>
      match countWord depth map key with
      | .error stuck => .error stuck
      | .ok map => countFrom depth map words

/-- `countWords` on the words of the file. -/
def countWords (depth : Nat) (words : List K) : Except Stuck (Hashmap Nat) :=
  match createHashmap 2 (1 / 2) 2 with
  | .error stuck => .error stuck
  | .ok map => countFrom depth map words

/-- The number of distinct words that the largest table holds. -/
def maxWords : Nat := 50 * 2 ^ 25 + 1

/-- The value of each word that occurs. -/
def tally (words : List K) (key : K) : Option Nat :=
  if key ∈ words then some (words.count key % 2 ^ 64) else none

/-- The map has each word that occurs once, with its number of occurrences, and
nothing else. -/
structure IsTally (map : Hashmap Nat) (words : List K) : Prop where
  entry : ∀ key ∈ words, ∃ i < map.arr_size, map.data i = some ⟨key, words.count key⟩ ∧
    ∀ j < map.arr_size, holds map key j = true → j = i
  word : ∀ i < map.arr_size, ∀ e, map.data i = some e → e.key ∈ words
  get_word : ∀ key ∈ words, get map key = some (words.count key)
  get_other : ∀ key, key ∉ words → get map key = none
  size_slots : map.size = (occupied map).card
  size_words : map.size = words.toFinset.card

/-- What the loop of `countWords` keeps. -/
structure Counted (map : Hashmap Nat) (seen : List K) : Prop where
  represents : Represents map (tally seen)
  sized : Sized map
  grown : Grown map

theorem tally_nil : tally [] = fun _ => none := by
  funext key
  simp [tally]

/-- One more occurrence changes the value of that word. -/
theorem tally_snoc (seen : List K) (key : K) :
    tally (seen ++ [key]) =
      Function.update (tally seen) key (some ((seen.count key + 1) % 2 ^ 64)) := by
  funext other
  by_cases h : other = key
  · rw [h, Function.update_self, tally, if_pos (by simp), List.count_append, List.count_singleton_self]
  · have hcount : (seen ++ [key]).count other = seen.count other := by
      rw [List.count_append, List.count_singleton, if_neg (by simpa using Ne.symm h), Nat.add_zero]
    rw [Function.update_of_ne h, tally, tally, hcount]
    simp [h]

variable {map : Hashmap Nat} {seen : List K}

/-- The size is the number of distinct words. -/
theorem Counted.size_eq (h : Counted map seen) : map.size = seen.toFinset.card := by
  have hkeys : {key | tally seen key ≠ none} = (seen.toFinset : Set K) := by
    ext key
    rw [Set.mem_ofPred_eq, Finset.mem_coe, List.mem_toFinset, tally]
    split
    · rename_i hkey
      simp [hkey]
    · rename_i hkey
      simp [hkey]
  rw [h.represents.size_eq_ncard, hkeys, Set.ncard_coe_finset]

/-- No table holds more than the largest number of words. -/
theorem Counted.size_le (h : Counted map seen) : seen.toFinset.card ≤ maxWords := by
  obtain ⟨k, hk, hdoubled⟩ := h.grown.doubled
  have hpow : 2 ^ k ≤ 2 ^ 25 := Nat.pow_le_pow_right (by decide) (by omega)
  have hsize := h.sized.size_le
  rw [hdoubled.limit_eq] at hsize
  rw [← h.size_eq, maxWords]
  omega

/-- `get` returns the value of the word. -/
theorem Counted.get_eq (h : Counted map seen) (key : K) : get map key = tally seen key :=
  (h.represents.get_eq_iff h.sized.arr_size_pos key).mpr
    (h.grown.chained.homeOk h.sized.arr_size_pos key)

/-- A word seen before is counted in its slot. -/
theorem Counted.again (h : Counted map seen) {key : K} (hkey : key ∈ seen) (depth : Nat) :
    ∃ map', countWord depth map key = .ok map' ∧ Counted map' (seen ++ [key]) := by
  have hvalue : tally seen key = some (seen.count key % 2 ^ 64) := if_pos hkey
  obtain ⟨map', hput, hrep, hsized, hch, harr, hlimit, hload, hmult, _⟩ :=
    h.grown.chained.put_xremove h.represents h.sized hvalue depth
      ((seen.count key % 2 ^ 64 + 1) % 2 ^ 64)
  obtain ⟨k, hk, hdoubled⟩ := h.grown.doubled
  refine ⟨map', ?_, ?_, hsized, hch, k, hk, ?_⟩
  · rw [countWord, h.get_eq, hvalue]
    exact hput
  · rwa [tally_snoc, ← Nat.mod_add_mod]
  · exact ⟨harr.trans hdoubled.arr_size_eq, hlimit.trans hdoubled.limit_eq,
      hload.trans hdoubled.loadFactor_eq, hmult.trans hdoubled.multiplier_eq⟩

/-- A new word is put while the table has room or can grow. -/
theorem Counted.first (h : Counted map seen) {key : K} (hkey : key ∉ seen) (depth : Nat)
    (hroom : map.size ≤ map.limit ∨ CanGrow map) :
    ∃ map', countWord (depth + 1) map key = .ok map' ∧ Counted map' (seen ++ [key]) := by
  have hnew : tally seen key = none := if_neg hkey
  have hcount : seen.count key = 0 := List.count_eq_zero.mpr hkey
  obtain ⟨map', hput, hrep, hsized⟩ :=
    put_spec (Nat.succ_pos depth) h.represents h.sized hroom hnew 1
  refine ⟨map', ?_, ?_, hsized, raw_put_grown _ _ _ _ hput h.grown⟩
  · rw [countWord, h.get_eq, hnew]
    exact hput
  · rw [tally_snoc, hcount]
    exact hrep

/-- One word is counted if and only if the distinct words do not become too many. -/
theorem Counted.step (h : Counted map seen) (key : K) (depth : Nat) :
    ((seen ++ [key]).toFinset.card ≤ maxWords ∧
        ∃ map', countWord (depth + 1) map key = .ok map' ∧ Counted map' (seen ++ [key])) ∨
      maxWords < (seen ++ [key]).toFinset.card ∧
        countWord (depth + 1) map key = .error .conversion := by
  by_cases hkey : key ∈ seen
  · obtain ⟨map', hcount, hcounted⟩ := h.again hkey (depth + 1)
    exact Or.inl ⟨hcounted.size_le, map', hcount, hcounted⟩
  · by_cases hroom : map.size ≤ map.limit ∨ CanGrow map
    · obtain ⟨map', hcount, hcounted⟩ := h.first hkey depth hroom
      exact Or.inl ⟨hcounted.size_le, map', hcount, hcounted⟩
    · obtain ⟨hfull, hstop⟩ := not_or.mp hroom
      obtain ⟨k, hk, hdoubled⟩ := h.grown.doubled
      have hlast : k = 25 := by
        by_contra hne
        exact hstop (hdoubled.canGrow (by omega))
      rw [hlast] at hdoubled
      have hnew : tally seen key = none := if_neg hkey
      have hcard : (seen ++ [key]).toFinset.card = map.size + 1 := by
        have hinsert : (seen ++ [key]).toFinset = insert key seen.toFinset := by
          ext other
          simp
        rw [h.size_eq, hinsert, Finset.card_insert_of_notMem (by rwa [List.mem_toFinset])]
      refine Or.inr ⟨?_, ?_⟩
      · have hlimit := hdoubled.limit_eq
        rw [hcard, maxWords]
        omega
      · rw [countWord, h.get_eq, hnew]
        show raw_put (depth + 1) map ⟨key, 1⟩ = _
        rw [raw_put, if_neg hfull, hdoubled.rehashUp_stuck]

/-- A run counts all its words if and only if they are not too many different ones. -/
theorem Counted.run (depth : Nat) (words : List K) (map : Hashmap Nat) (seen : List K)
    (h : Counted map seen) :
    ((seen ++ words).toFinset.card ≤ maxWords ∧
        ∃ map', countFrom (depth + 1) map words = .ok map' ∧ Counted map' (seen ++ words)) ∨
      maxWords < (seen ++ words).toFinset.card ∧
        countFrom (depth + 1) map words = .error .conversion := by
  induction words generalizing map seen with
  | nil =>
      rw [List.append_nil]
      exact Or.inl ⟨h.size_le, map, rfl, h⟩
  | cons key words ih =>
      rw [List.append_cons]
      rcases h.step key depth with ⟨_, map', hcount, hcounted⟩ | ⟨hmany, hcount⟩
      · rw [countFrom, hcount]
        exact ih map' (seen ++ [key]) hcounted
      · refine Or.inr ⟨?_, by rw [countFrom, hcount]⟩
        apply Nat.lt_of_lt_of_le hmany
        apply Finset.card_le_card
        intro other hother
        rw [List.mem_toFinset] at hother ⊢
        exact List.mem_append_left words hother

/-- The map that `countWords` starts with. -/
theorem createHashmap_counted :
    ∃ map : Hashmap Nat, createHashmap 2 (1 / 2) 2 = .ok map ∧ Counted map [] := by
  obtain ⟨map, hcreate, hrep, hsized, _, harr, hload, hmult⟩ :=
    createHashmap_spec (V := Nat) 2 (1 / 2) 2 le_rfl (by norm_num) le_rfl (by norm_num)
  have harr' : map.arr_size = 100 * 2 ^ 0 := harr
  have hlimit : (map.limit : Int) = ((50 * 2 ^ 0 : Nat) : Int) := by
    rw [hsized.limit_eq, hload, harr', half_floor]
  refine ⟨map, hcreate, by rwa [tally_nil], hsized, ?_, 0, by decide, harr', ?_, hload, hmult⟩
  · intro i hi e hdata
    have hnone := hrep.sound i hi e hdata
    cases hnone
  · exact_mod_cast hlimit

/-- `countWords` counts all the words if and only if they are not too many different ones. -/
theorem countWords_cases (depth : Nat) (words : List K) :
    (words.toFinset.card ≤ maxWords ∧
        ∃ map, countWords (depth + 1) words = .ok map ∧ Counted map words) ∨
      maxWords < words.toFinset.card ∧ countWords (depth + 1) words = .error .conversion := by
  obtain ⟨map, hcreate, hcounted⟩ := createHashmap_counted
  rw [countWords, hcreate]
  exact hcounted.run depth words map []

/-- What was counted is a tally when no value has wrapped. -/
theorem Counted.isTally (h : Counted map seen) (hvalues : ∀ key, seen.count key < 2 ^ 64) :
    IsTally map seen := by
  have htally : ∀ key ∈ seen, tally seen key = some (seen.count key) := by
    intro key hkey
    rw [tally, if_pos hkey, Nat.mod_eq_of_lt (hvalues key)]
  constructor
  · intro key hkey
    obtain ⟨i, hi, hdata⟩ := h.represents.complete key _ (htally key hkey)
    refine ⟨i, hi, hdata, ?_⟩
    intro j hj hhit
    obtain ⟨e, hdata', hsame⟩ := holds_iff.mp hhit
    exact h.represents.unique j hj i hi e _ hdata' hdata hsame
  · intro i hi e hdata
    by_contra hkey
    have hsound := h.represents.sound i hi e hdata
    rw [tally, if_neg hkey] at hsound
    cases hsound
  · intro key hkey
    rw [h.get_eq, htally key hkey]
  · intro key hkey
    rw [h.get_eq, tally, if_neg hkey]
  · exact h.represents.size_eq
  · exact h.size_eq

/-- `countWords` ends with the tally of its words if and only if there are at most
`maxWords` distinct words and none of them occurs `2 ^ 64` times. -/
theorem countWords_isTally_iff (depth : Nat) (words : List K) :
    (∃ map, countWords (depth + 1) words = .ok map ∧ IsTally map words) ↔
      words.toFinset.card ≤ maxWords ∧ ∀ key, words.count key < 2 ^ 64 := by
  rcases countWords_cases depth words with ⟨hfew, map, hcount, hcounted⟩ | ⟨hmany, hcount⟩
  · constructor
    · rintro ⟨map', hcount', htally⟩
      obtain rfl : map = map' := Except.ok.inj (hcount.symm.trans hcount')
      refine ⟨hfew, ?_⟩
      intro key
      by_cases hkey : key ∈ words
      · have hget := htally.get_word key hkey
        rw [hcounted.get_eq, tally, if_pos hkey] at hget
        rw [← Option.some.inj hget]
        exact Nat.mod_lt _ (by decide)
      · rw [List.count_eq_zero.mpr hkey]
        decide
    · rintro ⟨_, hvalues⟩
      exact ⟨map, hcount, hcounted.isTally hvalues⟩
  · constructor
    · rintro ⟨map, hcount', _⟩
      rw [hcount] at hcount'
      cases hcount'
    · rintro ⟨hfew, _⟩
      omega

/-- A word of eight letters for each number, the hexadecimal digits from `a` on. -/
def letterWord (n : Nat) : K :=
  ⟨(List.range 8).map fun i => UInt8.ofNat (97 + n / 16 ^ i % 16), by
    rw [List.mem_map]
    rintro ⟨i, _, h⟩
    have hzero := congrArg UInt8.toNat h
    rw [UInt8.toNat_ofNat'] at hzero
    change _ = 0 at hzero
    omega⟩

theorem letterWord_injective {m n : Nat} (hm : m < 16 ^ 8) (hn : n < 16 ^ 8)
    (h : letterWord m = letterWord n) : m = n := by
  refine eq_of_digits 16 8 hm hn ?_
  intro i hi
  have hget := congrArg (fun word : K => word.bytes[i]?) h
  simp only [letterWord, CString.bytes, List.getElem?_map, List.getElem?_range hi, Option.map_some,
    Option.some.injEq] at hget
  have hletter := congrArg UInt8.toNat hget
  simp only [UInt8.toNat_ofNat'] at hletter
  omega

/-- One distinct word more than the largest table holds. -/
def manyWords : List K := (List.range (maxWords + 1)).map letterWord

theorem card_manyWords : manyWords.toFinset.card = maxWords + 1 := by
  have hnodup : manyWords.Nodup := by
    apply List.Nodup.map_on
    · intro m hm n hn h
      rw [List.mem_range, maxWords] at hm hn
      exact letterWord_injective (by omega) (by omega) h
    · exact List.nodup_range
  rw [List.toFinset_card_of_nodup hnodup, manyWords, List.length_map, List.length_range]

/-- The last of these words makes `createHashmap` convert a limit that no `int` holds. -/
theorem countWords_manyWords :
    ¬∀ (depth : Nat) (words : List K), ∃ map, countWords (depth + 1) words = .ok map ∧
      IsTally map words := by
  intro hall
  obtain ⟨map, hcount, _⟩ := hall 0 manyWords
  rcases countWords_cases 0 manyWords with ⟨hfew, _⟩ | ⟨_, hstuck⟩
  · rw [card_manyWords] at hfew
    omega
  · rw [hstuck] at hcount
    cases hcount

end OtusCProg.HashmapOpen
