import OtusCProg.HashmapOpen.Rehash

/-!
# Runs of the map against runs of a finite map

The specification keeps a partial function from keys to values. A run of the
table answers like it, except that a `get` may miss a present key whose home
slot has been emptied by `xremove`.
-/

namespace OtusCProg.HashmapOpen
open Library

variable {V : Type*}

/-- A call of the map's interface. -/
inductive Op (V : Type*) where
  | put (key : K) (value : V)
  | get (key : K)
  | xremove (key : K)

/-- What a call returns. -/
inductive Output (V : Type*) where
  | done
  | value (v : Option V)
  | entry (e : Option (Entry V))
deriving DecidableEq

/-- One call on the table. -/
def step (depth : Nat) (map : Hashmap V) : Op V → Except Stuck (Hashmap V × Output V)
  | .put key value =>
      match put depth map key value with
      | .error stuck => .error stuck
      | .ok map => .ok (map, .done)
  | .get key => .ok (map, .value (get map key))
  | .xremove key => .ok ((xremove map key).1, .entry (xremove map key).2)

/-- A sequence of calls on the table, with their results. -/
def run (depth : Nat) (map : Hashmap V) : List (Op V) → Except Stuck (Hashmap V × List (Output V))
  | [] => .ok (map, [])
  | op :: ops =>
      match step depth map op with
      | .error stuck => .error stuck
      | .ok (map, out) =>
          match run depth map ops with
          | .error stuck => .error stuck
          | .ok (map, outs) => .ok (map, out :: outs)

/-- One call on a finite map. -/
def specStep (f : K → Option V) : Op V → (K → Option V) × Output V
  | .put key value => (Function.update f key (some value), .done)
  | .get key => (f, .value (f key))
  | .xremove key =>
      (Function.update f key none, .entry ((f key).map fun value => ⟨key, value⟩))

/-- A sequence of calls on a finite map. -/
def specRun (f : K → Option V) : List (Op V) → (K → Option V) × List (Output V)
  | [] => (f, [])
  | op :: ops =>
      let next := specStep f op
      let rest := specRun next.1 ops
      (rest.1, next.2 :: rest.2)

/-- Every `put` is of a key that the finite map does not have at that moment. -/
def PutsNew (f : K → Option V) : List (Op V) → Prop
  | [] => True
  | op :: ops =>
      (∀ key value, op = .put key value → f key = none) ∧ PutsNew (specStep f op).1 ops

/-- A condition on each call and the table in front of it, along a run. -/
def AlongRun (cond : Hashmap V → Op V → Prop) (depth : Nat) (map : Hashmap V) :
    List (Op V) → Prop
  | [] => True
  | op :: ops => cond map op ∧
      ∀ map' out, step depth map op = .ok (map', out) → AlongRun cond depth map' ops

/-- A `put` does not rehash, or the limit of the larger table fits in `int`. -/
def GrowthOk (map : Hashmap V) : Op V → Prop
  | .put _ _ => map.size ≤ map.limit ∨ CanGrow map
  | _ => True

instance (map : Hashmap V) : ∀ op, Decidable (GrowthOk map op)
  | .put _ _ => inferInstanceAs (Decidable (_ ≤ _ ∨ ⌊_⌋ < _))
  | .get _ => isTrue trivial
  | .xremove _ => isTrue trivial

/-- A `get` is of an absent key or finds its home slot not `NULL`. -/
def GetOk (map : Hashmap V) : Op V → Prop
  | .get key => HomeOk map key
  | _ => True

instance (map : Hashmap V) : ∀ op, Decidable (GetOk map op)
  | .put _ _ => isTrue trivial
  | .get _ => inferInstanceAs (Decidable ((∃ i < _, _) → _ ≠ none))
  | .xremove _ => isTrue trivial

/-- Two words with the same home slot in a table of 100 slots. -/
def wordA : K := ⟨[97], by decide⟩
def wordAl : K := ⟨[97, 108], by decide⟩

variable {map : Hashmap V} {f : K → Option V} {depth : Nat}

section FirstStep
variable {map' : Hashmap V} {op : Op V} {out : Output V} {ops : List (Op V)}

/-- A condition along a run, by what the first call leaves. -/
theorem alongRun_cons (cond : Hashmap V → Op V → Prop) (hstep : step depth map op = .ok (map', out)) :
    AlongRun cond depth map (op :: ops) ↔ cond map op ∧ AlongRun cond depth map' ops := by
  rw [AlongRun]
  constructor
  · rintro ⟨hfirst, hrest⟩
    exact ⟨hfirst, hrest map' out hstep⟩
  · rintro ⟨hfirst, hrest⟩
    refine ⟨hfirst, fun map'' out' hstep' => ?_⟩
    obtain ⟨rfl, rfl⟩ := Prod.mk.inj (Except.ok.inj (hstep.symm.trans hstep'))
    exact hrest

/-- Behind a call without a result there is nothing to ask for. -/
theorem alongRun_cons_stuck (cond : Hashmap V → Op V → Prop) {stuck : Stuck}
    (hstep : step depth map op = .error stuck) : AlongRun cond depth map (op :: ops) ↔ cond map op := by
  rw [AlongRun]
  constructor
  · exact fun h => h.1
  · intro hfirst
    refine ⟨hfirst, fun map'' out' hstep' => ?_⟩
    cases hstep.symm.trans hstep'

/-- A condition along a run can be tested where it can be tested at each call. -/
instance AlongRun.decidable (cond : Hashmap V → Op V → Prop) [∀ map op, Decidable (cond map op)]
    (depth : Nat) : ∀ (map : Hashmap V) (ops : List (Op V)), Decidable (AlongRun cond depth map ops)
  | _, [] => isTrue trivial
  | map, op :: ops =>
      match hstep : step depth map op with
      | .error _ => decidable_of_iff _ (alongRun_cons_stuck cond hstep).symm
      | .ok (map', _) =>
          let _ := AlongRun.decidable cond depth map' ops
          decidable_of_iff _ (alongRun_cons cond hstep).symm

/-- A run has a result when the rest has one behind its first call. -/
theorem run_cons_ok (hstep : step depth map op = .ok (map', out)) :
    (∃ result, run depth map (op :: ops) = .ok result) ↔ ∃ result, run depth map' ops = .ok result := by
  simp only [run, hstep]
  cases run depth map' ops with
  | error stuck => simp
  | ok result => exact ⟨fun _ => ⟨result, rfl⟩, fun _ => ⟨_, rfl⟩⟩

end FirstStep

/-- One call keeps the representation. Its result is that of the finite map
exactly when it is not a `get` that misses. -/
theorem step_spec (hdepth : 1 ≤ depth) (hrep : Represents map f) (hsized : Sized map) (op : Op V)
    (hnew : ∀ key value, op = .put key value → f key = none) (hgrow : GrowthOk map op) :
    ∃ map' out, step depth map op = .ok (map', out) ∧ Represents map' (specStep f op).1 ∧
      Sized map' ∧ (out = (specStep f op).2 ↔ GetOk map op) := by
  cases op with
  | put key value =>
      obtain ⟨map', hput, hrep', hsized'⟩ :=
        put_spec hdepth hrep hsized hgrow (hnew key value rfl) value
      exact ⟨map', .done, by simp [step, hput], hrep', hsized', by simp [specStep, GetOk]⟩
  | get key =>
      refine ⟨map, .value (get map key), rfl, hrep, hsized, ?_⟩
      rw [GetOk, ← hrep.get_eq_iff hsized.arr_size_pos key, specStep, Output.value.injEq]
  | xremove key =>
      obtain ⟨hrep', hsized', hentry⟩ := hrep.xremove hsized key
      exact ⟨(xremove map key).1, .entry (xremove map key).2, rfl, hrep', hsized',
        by simp [specStep, GetOk, hentry]⟩

/-- A run keeps the representation. All its results are those of the finite map
exactly when every `get` finds its key absent or its home slot not `NULL`. -/
theorem run_spec (hdepth : 1 ≤ depth) (ops : List (Op V)) (map : Hashmap V) (f : K → Option V)
    (hrep : Represents map f) (hsized : Sized map) (hnew : PutsNew f ops)
    (hgrow : AlongRun GrowthOk depth map ops) :
    ∃ map' outs, run depth map ops = .ok (map', outs) ∧ Represents map' (specRun f ops).1 ∧
      Sized map' ∧ (outs = (specRun f ops).2 ↔ AlongRun GetOk depth map ops) := by
  induction ops generalizing map f with
  | nil => exact ⟨map, [], rfl, hrep, hsized, by simp [specRun, AlongRun]⟩
  | cons op ops ih =>
      obtain ⟨map₁, out, hstep, hrep₁, hsized₁, hout⟩ :=
        step_spec hdepth hrep hsized op hnew.1 hgrow.1
      obtain ⟨map₂, outs, hrun, hrep₂, hsized₂, houts⟩ :=
        ih map₁ (specStep f op).1 hrep₁ hsized₁ hnew.2 (hgrow.2 map₁ out hstep)
      refine ⟨map₂, out :: outs, by simp [run, hstep, hrun], hrep₂, hsized₂, ?_⟩
      rw [alongRun_cons GetOk hstep, ← hout, ← houts, specRun, List.cons.injEq]

/-- The size of a table is the number of keys of the finite map. -/
theorem Represents.size_eq_ncard (hrep : Represents map f) :
    map.size = {key | f key ≠ none}.ncard := by
  rw [hrep.size_eq, ← Set.ncard_coe_finset]
  have hsome : ∀ i, i ∈ (occupied map : Set Nat) → (map.data i).isSome := fun i hi =>
    (mem_occupied.mp hi).2
  apply Set.ncard_congr fun i hi => ((map.data i).get (hsome i hi)).key
  · intro i hi
    have hlt := (mem_occupied.mp hi).1
    change f _ ≠ none
    rw [hrep.sound i hlt _ (Option.some_get (hsome i hi)).symm]
    exact Option.some_ne_none _
  · intro i j hi hj hkey
    exact hrep.unique i (mem_occupied.mp hi).1 j (mem_occupied.mp hj).1 _ _
      (Option.some_get (hsome i hi)).symm (Option.some_get (hsome j hj)).symm hkey
  · intro key hkey
    obtain ⟨value, hvalue⟩ := Option.ne_none_iff_exists'.mp hkey
    obtain ⟨i, hi, hdata⟩ := hrep.complete key value hvalue
    exact ⟨i, mem_occupied.mpr ⟨hi, by rw [hdata]; rfl⟩, by simp [hdata]⟩

/-- The map that `createHashmap` makes with the default parameters. -/
theorem createHashmap_default : ∃ map : Hashmap V,
    createHashmap INITIAL_SIZE LOAD_FACTOR MULTIPLIER = .ok map ∧
      Represents map (fun _ => none) ∧ Sized map ∧ map.size = 0 := by
  obtain ⟨map, hcreate, hrep, hsized, hsize, _⟩ :=
    createHashmap_spec (V := V) INITIAL_SIZE LOAD_FACTOR MULTIPLIER
      (by norm_num [LOAD_FACTOR]) (by norm_num [LOAD_FACTOR]) (by norm_num [MULTIPLIER])
      (by norm_num [LOAD_FACTOR, INITIAL_SIZE])
  exact ⟨map, hcreate, hrep, hsized, hsize⟩

/-- In every run on a default map that puts new keys only and whose rehashes fit
in `int`, no call gets stuck and the size is the number of present keys. All
results are those of the finite map exactly when every `get` is of an absent
key or finds the home slot of its key not `NULL`. -/
theorem run_eq_finite_map_iff (hdepth : 1 ≤ depth) (ops : List (Op V))
    (hcreate : createHashmap INITIAL_SIZE LOAD_FACTOR MULTIPLIER = .ok map)
    (hnew : PutsNew (fun _ => none) ops) (hgrow : AlongRun GrowthOk depth map ops) :
    ∃ map' outs, run depth map ops = .ok (map', outs) ∧
      map'.size = {key | (specRun (fun _ => none) ops).1 key ≠ none}.ncard ∧
      (outs = (specRun (fun _ => none) ops).2 ↔ AlongRun GetOk depth map ops) := by
  obtain ⟨map₀, hcreate₀, hrep, hsized, _⟩ := createHashmap_default (V := V)
  obtain rfl : map₀ = map := by
    rw [hcreate₀] at hcreate
    exact Except.ok.inj hcreate
  obtain ⟨map', outs, hrun, hrep', _, houts⟩ := run_spec hdepth ops map₀ _ hrep hsized hnew hgrow
  exact ⟨map', outs, hrun, hrep'.size_eq_ncard, houts⟩

/-- Insert both words, remove the one that is not in its home slot, then ask for both. -/
def removedOps : List (Op Nat) :=
  [.put wordA 1, .put wordAl 2, .xremove wordAl, .get wordA, .get wordAl]

/-- The words collide, and every answer is that of the finite map. -/
theorem run_eq_finite_map_iff_removedOps :
    ∃ map : Hashmap Nat, createHashmap INITIAL_SIZE LOAD_FACTOR MULTIPLIER = .ok map ∧
      AlongRun GetOk 1 map removedOps ∧ ∃ map' outs, run 1 map removedOps = .ok (map', outs) ∧
        map'.size = {key | (specRun (fun _ => none) removedOps).1 key ≠ none}.ncard ∧
        (outs = (specRun (fun _ => none) removedOps).2 ↔ AlongRun GetOk 1 map removedOps) := by
  obtain ⟨map, hcreate, _⟩ := createHashmap_default (V := Nat)
  have hall : ∀ map ∈ (createHashmap (V := Nat) INITIAL_SIZE LOAD_FACTOR MULTIPLIER).toOption,
      AlongRun GrowthOk 1 map removedOps ∧ AlongRun GetOk 1 map removedOps := by
    decide +kernel
  obtain ⟨hgrow, hget⟩ := hall map (by rw [hcreate]; rfl)
  refine ⟨map, hcreate, hget, run_eq_finite_map_iff le_rfl _ hcreate ?_ hgrow⟩
  refine ⟨fun _ _ _ => rfl, ?_, by simp, by simp, by simp, trivial⟩
  intro key value h
  obtain ⟨rfl, rfl⟩ := Op.put.inj h
  decide

/-- Insert both words, remove the first one, then ask for the second. -/
def collidingOps : List (Op Nat) :=
  [.put wordA 1, .put wordAl 2, .xremove wordA, .get wordAl]

/-- The second word is in the map, but `get` does not find it. -/
theorem get_misses_collidingOps :
    PutsNew (fun _ => none) collidingOps ∧
      (createHashmap INITIAL_SIZE LOAD_FACTOR MULTIPLIER).toOption.bind
          (fun map : Hashmap Nat => ((run 1 map collidingOps).map Prod.snd).toOption) =
        some [.done, .done, .entry (some ⟨wordA, 1⟩), .value none] ∧
      (specRun (fun _ => none) collidingOps).2 =
        [.done, .done, .entry (some ⟨wordA, 1⟩), .value (some 2)] := by
  refine ⟨?_, by decide +kernel, by decide +kernel⟩
  refine ⟨fun _ _ _ => rfl, ?_, by simp, by simp, trivial⟩
  intro key value h
  obtain ⟨rfl, rfl⟩ := Op.put.inj h
  decide

end OtusCProg.HashmapOpen
