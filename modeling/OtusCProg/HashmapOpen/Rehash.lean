import OtusCProg.HashmapOpen.Slots

/-!
# Insertion and rehash

Below its limit a table has a `NULL` slot, so `raw_put` places the entry. At
the limit `rehashUp` moves all entries to a table whose limit they do not
reach, so its calls of `raw_put` never rehash again.
-/

namespace OtusCProg.HashmapOpen
open Library Library.CyclicScan

variable {V : Type*}

variable {map : Hashmap V} {f : K → Option V}

/-- Below the limit `raw_put` adds the new key and keeps the parameters. -/
theorem raw_put_below (depth : Nat) (hrep : Represents map f) (hsized : Sized map)
    (hbelow : map.size ≤ map.limit) {e : Entry V} (hnew : f e.key = none) :
    ∃ map', raw_put depth map e = .ok map' ∧
      Represents map' (Function.update f e.key (some e.value)) ∧ Sized map' ∧
      map'.size = map.size + 1 ∧ map'.limit = map.limit := by
  have hlimit := hsized.limit_lt
  obtain ⟨index, hnull, hlt, hplace⟩ := hrep.place (by omega) e
  have hput : raw_put depth map e = place map e := by
    cases depth <;> simp [raw_put, hbelow]
  exact ⟨_, hput.trans hplace, hrep.fill hlt hnull hnew,
    hsized.setSlot index (some e) (by omega), rfl, rfl⟩

/-- The entries of the first `n` slots as a map. -/
def collect (map : Hashmap V) : Nat → K → Option V
  | 0 => fun _ => none
  | n + 1 =>
      match map.data n with
      | none => collect map n
      | some e => Function.update (collect map n) e.key (some e.value)

/-- While keys are unique, `collect` has exactly the entries of its slots. -/
theorem collect_eq_some_iff (hrep : Represents map f) {n : Nat} (hn : n ≤ map.arr_size) (key : K)
    (value : V) :
    collect map n key = some value ↔ ∃ i < n, map.data i = some ⟨key, value⟩ := by
  induction n with
  | zero => simp [collect]
  | succ n ih =>
      have ih := ih (by omega)
      cases hdata : map.data n with
      | none =>
          simp only [collect, hdata, ih]
          constructor
          · rintro ⟨i, hi, h⟩
            exact ⟨i, by omega, h⟩
          · rintro ⟨i, hi, h⟩
            have hne : i ≠ n := by
              rintro rfl
              rw [hdata] at h
              cases h
            exact ⟨i, by omega, h⟩
      | some e =>
          simp only [collect, hdata]
          by_cases hkey : key = e.key
          · rw [hkey, Function.update_self]
            constructor
            · intro h
              obtain rfl := Option.some.inj h
              exact ⟨n, by omega, hdata⟩
            · rintro ⟨i, hi, h⟩
              have hin : i = n :=
                hrep.unique i (by omega) n (by omega) _ e h hdata rfl
              rw [hin, hdata] at h
              rw [Option.some.inj h]
          · rw [Function.update_of_ne hkey, ih]
            constructor
            · rintro ⟨i, hi, h⟩
              exact ⟨i, by omega, h⟩
            · rintro ⟨i, hi, h⟩
              have hne : i ≠ n := by
                rintro rfl
                rw [hdata] at h
                exact hkey (congrArg Entry.key (Option.some.inj h)).symm
              exact ⟨i, by omega, h⟩

/-- All slots together are the represented map. -/
theorem collect_all (hrep : Represents map f) : collect map map.arr_size = f := by
  funext key
  ext value
  rw [collect_eq_some_iff hrep le_rfl]
  constructor
  · rintro ⟨i, hi, h⟩
    exact hrep.sound i hi _ h
  · exact hrep.complete key value

/-- What the loop of `rehashUp` does with one more slot. -/
theorem reinsert_succ_cases {raw : Hashmap V → Entry V → Except Stuck (Hashmap V)}
    {newMap moved : Hashmap V} {n : Nat} (h : reinsert raw map (n + 1) newMap = .ok moved) :
    ∃ middle, reinsert raw map n newMap = .ok middle ∧
      (map.data n = none ∧ moved = middle ∨ ∃ e, map.data n = some e ∧ raw middle e = .ok moved) := by
  rw [reinsert] at h
  cases hrest : reinsert raw map n newMap with
  | error stuck => simp [hrest] at h
  | ok middle =>
      refine ⟨middle, rfl, ?_⟩
      cases hdata : map.data n with
      | none =>
          simp only [hrest, hdata, Except.ok.injEq] at h
          exact Or.inl ⟨rfl, h.symm⟩
      | some e =>
          simp only [hrest, hdata] at h
          exact Or.inr ⟨e, rfl, h⟩

/-- A fresh table represents the empty map. -/
theorem represents_empty (hnull : ∀ i, map.data i = none) (hsize : map.size = 0) :
    Represents map (fun _ => none) where
  sound := by simp [hnull]
  complete := by simp
  unique := by simp [hnull]
  size_eq := by simp [occupied, hnull, hsize]

/-- The loop of `rehashUp` moves the entries of the first `n` slots without a
nested rehash, as long as the limit of the new table is not reached. -/
theorem reinsert_spec (depth : Nat) (hrep : Represents map f) {newMap : Hashmap V}
    (hnew : Represents newMap fun _ => none) (hsized : Sized newMap) (hsize : newMap.size = 0)
    (hlimit : map.arr_size ≤ newMap.limit) {n : Nat} (hn : n ≤ map.arr_size) :
    ∃ map', reinsert (raw_put depth) map n newMap = .ok map' ∧
      Represents map' (collect map n) ∧ Sized map' ∧ map'.limit = newMap.limit ∧
      map'.size ≤ newMap.size + n := by
  induction n with
  | zero =>
      exact ⟨newMap, rfl, hnew, hsized, rfl, le_rfl⟩
  | succ n ih =>
      obtain ⟨map', hloop, hrep', hsized', hlim', hsize'⟩ := ih (by omega)
      cases hdata : map.data n with
      | none =>
          refine ⟨map', ?_, ?_, hsized', hlim', by omega⟩
          · simp [reinsert, hloop, hdata]
          · simpa [collect, hdata] using hrep'
      | some e =>
          have habsent : collect map n e.key = none := by
            cases hc : collect map n e.key with
            | none => rfl
            | some value =>
                obtain ⟨i, hi, h⟩ := (collect_eq_some_iff hrep (by omega) _ _).mp hc
                have hin := hrep.unique i (by omega) n (by omega) _ e h hdata rfl
                omega
          obtain ⟨map'', hput, hrep'', hsized'', hsize'', hlim''⟩ :=
            raw_put_below depth hrep' hsized' (by omega) habsent
          refine ⟨map'', ?_, ?_, hsized'', hlim''.trans hlim', by omega⟩
          · simp [reinsert, hloop, hdata, hput]
          · simpa [collect, hdata] using hrep''

/-- What `createHashmap` makes when its limit fits in `int`. -/
theorem createHashmap_spec (limit : Nat) (loadFactor multiplier : Rat)
    (hlow : 1 / 2 ≤ loadFactor) (hhigh : loadFactor < 1) (hmult : 2 ≤ multiplier)
    (hfits : ⌊loadFactor * (max limit 100 : Nat)⌋ < 2 ^ 31) :
    ∃ map : Hashmap V, createHashmap limit loadFactor multiplier = .ok map ∧
      Represents map (fun _ => none) ∧ Sized map ∧ map.size = 0 ∧
      map.arr_size = max limit 100 ∧ map.loadFactor = loadFactor ∧
      map.multiplier = multiplier := by
  have harr : (if limit ≥ INITIAL_SIZE then limit else INITIAL_SIZE) = max limit 100 := by
    rw [INITIAL_SIZE]
    split <;> omega
  have hload : (if loadFactor ≥ LOAD_FACTOR ∧ loadFactor ≤ 1 then loadFactor else LOAD_FACTOR) =
      loadFactor := if_pos ⟨hlow, hhigh.le⟩
  have hmul : (if multiplier ≥ MULTIPLIER then multiplier else MULTIPLIER) = multiplier :=
    if_pos hmult
  have hnonneg : 0 ≤ ⌊loadFactor * (max limit 100 : Nat)⌋ := by
    apply Int.floor_nonneg.mpr
    have : (0 : Rat) ≤ (max limit 100 : Nat) := Nat.cast_nonneg _
    have : 0 ≤ loadFactor := by linarith
    positivity
  refine ⟨_, by rw [createHashmap, harr, hload, hmul, if_pos hfits], ?_, ?_, rfl, rfl, rfl, rfl⟩
  · exact represents_empty (fun _ => rfl) rfl
  · exact ⟨hlow, hhigh, hmult, Nat.le_max_right _ _, Int.toNat_of_nonneg hnonneg, Nat.zero_le _⟩

/-- The limit of the table that a rehash builds stays inside the range of `int`. -/
def CanGrow (map : Hashmap V) : Prop :=
  ⌊map.loadFactor * (⌊map.arr_size * map.multiplier⌋.toNat : Nat)⌋ < 2 ^ 31

/-- The product of size and multiplier is at least twice the size. -/
theorem Sized.product_ge (hsized : Sized map) :
    2 * (map.arr_size : Int) ≤ ⌊map.arr_size * map.multiplier⌋ := by
  rw [Int.le_floor]
  have hpos : (0 : Rat) ≤ map.arr_size := Nat.cast_nonneg _
  have h := mul_le_mul_of_nonneg_left hsized.multiplier_ge hpos
  push_cast
  linarith

/-- A load factor of at least one half makes the limit at least half the size. -/
theorem half_le_limit {loadFactor : Rat} (hload : 1 / 2 ≤ loadFactor) {m n : Nat}
    (h : 2 * m ≤ n) : (m : Int) ≤ ⌊loadFactor * (n : Nat)⌋ := by
  rw [Int.le_floor]
  have hn : (2 * m : Rat) ≤ n := by exact_mod_cast h
  have hmul := mul_le_mul hload hn (by positivity) (by linarith)
  push_cast
  linarith

/-- The table that `rehashUp` makes when its limit fits has room for all the old slots. -/
theorem Sized.rehashUp_eq (hsized : Sized map) (hgrow : CanGrow map) :
    ∃ newMap : Hashmap V, Represents newMap (fun _ => none) ∧ Sized newMap ∧ newMap.size = 0 ∧
      map.arr_size ≤ newMap.limit ∧ ∀ raw e, rehashUp raw map e =
        match reinsert raw map map.arr_size newMap with
        | .error stuck => .error stuck
        | .ok newMap => raw newMap e := by
  have hproduct := hsized.product_ge
  have harr := hsized.arr_size_ge
  obtain ⟨n, hn⟩ : ∃ n : Nat, ⌊map.arr_size * map.multiplier⌋ = n :=
    ⟨_, (Int.toNat_of_nonneg (by omega)).symm⟩
  have hfits : ⌊map.loadFactor * (n : Nat)⌋ < 2 ^ 31 := by simpa [CanGrow, hn] using hgrow
  have hhalf := half_le_limit hsized.loadFactor_ge (m := n / 2) (n := n) (by omega)
  have hmax : max n 100 = n := max_eq_left (by omega)
  obtain ⟨newMap, hcreate, hempty, hsized₁, hsize, harr₁, _⟩ :=
    createHashmap_spec (V := V) n _ _ hsized.loadFactor_ge hsized.loadFactor_lt
      hsized.multiplier_ge (by rw [hmax]; exact hfits)
  refine ⟨newMap, hempty, hsized₁, hsize, ?_, ?_⟩
  · have hle := half_le_limit hsized₁.loadFactor_ge (m := map.arr_size) (n := newMap.arr_size)
      (by omega)
    have := hsized₁.limit_eq
    omega
  · intro raw e
    have hprod : (n : Int) < 2 ^ 64 := by omega
    have hopen : rehashUp raw map e =
        match createHashmap n map.loadFactor map.multiplier with
        | .error stuck => .error stuck
        | .ok newMap =>
            match reinsert raw map map.arr_size newMap with
            | .error stuck => .error stuck
            | .ok newMap => raw newMap e := by
      have htoNat : ⌊map.arr_size * map.multiplier⌋.toNat = n := by rw [hn, Int.toNat_natCast]
      exact htoNat ▸ if_pos (hn ▸ hprod)
    rw [hcreate] at hopen
    exact hopen

/-- `rehashUp` builds a larger table with the old entries and the new one,
without a nested rehash. -/
theorem rehashUp_spec (depth : Nat) (hrep : Represents map f) (hsized : Sized map)
    (hgrow : CanGrow map) {e : Entry V} (hnew : f e.key = none) :
    ∃ map', rehashUp (raw_put depth) map e = .ok map' ∧
      Represents map' (Function.update f e.key (some e.value)) ∧ Sized map' := by
  obtain ⟨newMap, hempty, hsized₁, hsize, hlimit, hrehash⟩ := hsized.rehashUp_eq hgrow
  obtain ⟨map₂, hloop, hrep₂, hsized₂, hlim₂, hsize₂⟩ :=
    reinsert_spec depth hrep hempty hsized₁ hsize hlimit le_rfl
  rw [collect_all hrep] at hrep₂
  obtain ⟨map₃, hput, hrep₃, hsized₃, _⟩ :=
    raw_put_below depth hrep₂ hsized₂ (by omega) hnew
  refine ⟨map₃, ?_, hrep₃, hsized₃⟩
  rw [hrehash, hloop]
  exact hput

/-- A put of a new key never gets stuck when the table can grow or need not,
and adds the key to the represented map. -/
theorem put_spec {depth : Nat} (hdepth : 1 ≤ depth) (hrep : Represents map f)
    (hsized : Sized map) (hgrow : map.size ≤ map.limit ∨ CanGrow map) {key : K}
    (hnew : f key = none) (value : V) :
    ∃ map', put depth map key value = .ok map' ∧
      Represents map' (Function.update f key (some value)) ∧ Sized map' := by
  by_cases hbelow : map.size ≤ map.limit
  · obtain ⟨map', hput, hrep', hsized', _⟩ :=
      raw_put_below depth hrep hsized hbelow (e := ⟨key, value⟩) hnew
    exact ⟨map', hput, hrep', hsized'⟩
  · obtain ⟨d, rfl⟩ : ∃ d, depth = d + 1 := ⟨depth - 1, by omega⟩
    have hcan : CanGrow map := hgrow.resolve_left hbelow
    obtain ⟨map', hput, h⟩ := rehashUp_spec d hrep hsized hcan (e := ⟨key, value⟩) hnew
    refine ⟨map', ?_, h⟩
    simp only [put, raw_put, if_neg hbelow, hput]

end OtusCProg.HashmapOpen
