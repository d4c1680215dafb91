import OtusCProg.PointWaveModel.Decay
import Mathlib.Algebra.Order.Floor.Semiring
import Mathlib.Tactic.Linarith

/-!
# The output schedule

The loop of `run_duration_limited_test` writes a spectrum when the remainder of the
time is below the step. A multiple of the interval then lies behind the time before
the step and not behind the time after it, and a step no longer than the interval has
room for one multiple only.
-/

namespace OtusCProg.PointWaveModel

section Driver
variable {R : Type*} [Field R] [LinearOrder R]

structure TimeStepControl (R : Type*) where
  dt : R
  dt_max : R
  cfl_factor : R
  min_energy : R

def time_step_control_default : TimeStepControl R := ⟨60.0, 300.0, 0.5, 1.0e-10⟩

def compute_adaptive_dt (spec : Spectrum R) (control : TimeStepControl R) : R :=
  let f_max := spec.freq (spec.nfreq - 1)
  let dt_cfl := control.cfl_factor / f_max
  if control.dt_max < dt_cfl then control.dt_max else dt_cfl

def output_interval : R := 1800.0

/-- `fmod`: the quotient is cut towards zero. -/
def fmod [FloorRing R] (x y : R) : R := x - y * (if 0 ≤ x / y then ⌊x / y⌋ else ⌈x / y⌉ : ℤ)

/-- The spectrum and the time of the loop, and the spectra it has handed to
`write_spectrum_to_netcdf`, each with its time. -/
structure Course (R : Type*) where
  spec : Spectrum R
  t : R
  outputs : List (R × Spectrum R)

variable [FloorRing R] (m : Libm R) (wind : WindForcing R) (params : ST6Params R) (dt : R)

/-- One turn of the loop. -/
def turn (c : Course R) : Course R :=
  let (spec, dt_used) := integrator_step m c.spec wind params .EULER_FORWARD dt
  let t := c.t + dt_used
  ⟨spec, t, if fmod t output_interval < dt_used then c.outputs ++ [(t, spec)] else c.outputs⟩

/-- The loop, for fewer than `fuel` turns. -/
def duration_loop (duration : R) : ℕ → Course R → Option (Course R)
  | 0, _ => none
  | fuel + 1, c => if c.t < duration then duration_loop duration fuel (turn m wind params dt c) else some c

/-- The spectra that `run_duration_limited_test` writes: the initial one, and those of the loop. -/
def run_duration_limited_test (spec : Spectrum R) (duration : R) (fuel : ℕ) :
    Option (List (R × Spectrum R)) :=
  let dt := compute_adaptive_dt spec time_step_control_default
  (duration_loop m wind params dt duration fuel ⟨spec, 0.0, []⟩).map fun c => (0.0, spec) :: c.outputs

end Driver

section Multiples
variable {R : Type*} [Field R] [LinearOrder R] [IsStrictOrderedRing R] [FloorRing R] {I dt t : R}

/-- The step from `t` to `t + dt` passes or reaches the multiple `k` of the interval. -/
def Passes (I t dt : R) (k : ℕ) : Prop := t < k * I ∧ k * I ≤ t + dt

theorem fmod_of_nonneg (ht : 0 ≤ t) (hI : 0 < I) : fmod t I = t - I * ⌊t / I⌋₊ := by
  have hquotient : 0 ≤ t / I := div_nonneg ht hI.le
  rw [fmod, if_pos hquotient, ← natCast_floor_eq_intCast_floor hquotient]

/-- The remainder is below the step exactly where the step passes a multiple. -/
theorem fmod_lt_iff (ht : 0 ≤ t) (hdt : 0 ≤ dt) (hI : 0 < I) :
    fmod (t + dt) I < dt ↔ ∃ k, Passes I t dt k := by
  have hend : 0 ≤ t + dt := add_nonneg ht hdt
  rw [fmod_of_nonneg hend hI]
  constructor
  · intro hfires
    refine ⟨⌊(t + dt) / I⌋₊, ?_, ?_⟩
    · linarith
    · rw [← le_div_iff₀ hI]
      exact Nat.floor_le (div_nonneg hend hI.le)
  · rintro ⟨k, hbefore, hafter⟩
    have hk : k ≤ ⌊(t + dt) / I⌋₊ := by
      apply Nat.le_floor
      rwa [le_div_iff₀ hI]
    have hmul : (k : R) * I ≤ I * ⌊(t + dt) / I⌋₊ := by
      rw [mul_comm I]
      exact mul_le_mul_of_nonneg_right (Nat.cast_le.mpr hk) hI.le
    linarith

/-- A step no longer than the interval passes one multiple at most. -/
theorem Passes.unique (hle : dt ≤ I) {k l : ℕ} (hk : Passes I t dt k) (hl : Passes I t dt l) : k = l := by
  have hstep : ∀ {a b : ℕ}, Passes I t dt a → Passes I t dt b → ¬a < b := by
    intro a b ha hb hab
    have hI : 0 ≤ I := by
      by_contra hneg
      linarith [ha.1, ha.2, not_le.mp hneg]
    have hcast : (a : R) + 1 ≤ b := by exact_mod_cast hab
    have hmul := mul_le_mul_of_nonneg_right hcast hI
    linarith [ha.1, hb.2]
  rcases Nat.lt_trichotomy k l with hlt | heq | hgt
  · exact absurd hlt (hstep hk hl)
  · exact heq
  · exact absurd hgt (hstep hl hk)

theorem Passes.floor_eq (ht : 0 ≤ t) (hI : 0 < I) (hle : dt ≤ I) {k : ℕ} (hk : Passes I t dt k) :
    ⌊(t + dt) / I⌋₊ = ⌊t / I⌋₊ + 1 := by
  have hpos : 0 < k := by
    rcases Nat.eq_zero_or_pos k with rfl | hpos
    · have hneg := hk.1
      rw [Nat.cast_zero, zero_mul] at hneg
      exact absurd ht (not_le.mpr hneg)
    · exact hpos
  have hpred : ((k - 1 : ℕ) : R) = k - 1 := by
    rw [Nat.cast_sub hpos, Nat.cast_one]
  have hold : ⌊t / I⌋₊ = k - 1 := by
    rw [Nat.floor_eq_iff (div_nonneg ht hI.le), le_div_iff₀ hI, div_lt_iff₀ hI, hpred]
    constructor
    · linarith [hk.2]
    · linarith [hk.1]
  have hnew : ⌊(t + dt) / I⌋₊ = k := by
    rw [Nat.floor_eq_iff (div_nonneg (by linarith [hk.1, hk.2]) hI.le), le_div_iff₀ hI, div_lt_iff₀ hI]
    constructor
    · exact hk.2
    · linarith [hk.1]
  omega

theorem floor_eq_of_not_passes (ht : 0 ≤ t) (hdt : 0 ≤ dt) (hI : 0 < I) (h : ¬∃ k, Passes I t dt k) :
    ⌊(t + dt) / I⌋₊ = ⌊t / I⌋₊ := by
  have hend : 0 ≤ (t + dt) / I := div_nonneg (add_nonneg ht hdt) hI.le
  apply le_antisymm
  · apply Nat.le_floor
    rw [le_div_iff₀ hI]
    by_contra hbefore
    refine h ⟨⌊(t + dt) / I⌋₊, not_le.mp hbefore, ?_⟩
    rw [← le_div_iff₀ hI]
    exact Nat.floor_le hend
  · apply Nat.floor_le_floor
    exact div_le_div_of_nonneg_right (le_add_of_nonneg_right hdt) hI.le

/-- Every multiple up to the end is passed by one step and no other. -/
theorem exists_unique_step (hdt : 0 < dt) (hI : 0 < I) {steps k : ℕ} (hk : 0 < k)
    (hend : k * I ≤ steps * dt) : ∃! n, n < steps ∧ Passes I (n * dt) dt k := by
  have hpos : 0 < k * I / dt := div_pos (mul_pos (Nat.cast_pos.mpr hk) hI) hdt
  -- the step is the last one before the multiple
  have hiff (n : ℕ) : Passes I (n * dt) dt k ↔ ⌈k * I / dt⌉₊ = n + 1 := by
    rw [Nat.ceil_eq_iff (Nat.succ_ne_zero n), lt_div_iff₀ hdt, div_le_iff₀ hdt, Nat.succ_sub_one,
      Passes, Nat.cast_succ, add_one_mul]
  have hceil : 0 < ⌈k * I / dt⌉₊ := Nat.ceil_pos.mpr hpos
  refine ⟨⌈k * I / dt⌉₊ - 1, ⟨?_, ?_⟩, ?_⟩
  · have hle : ⌈k * I / dt⌉₊ ≤ steps := by
      rw [Nat.ceil_le, div_le_iff₀ hdt]
      exact hend
    omega
  · rw [hiff]
    omega
  · rintro n ⟨-, hn⟩
    rw [hiff] at hn
    omega

end Multiples

section Course
variable {R : Type*} [Field R] [LinearOrder R] [IsStrictOrderedRing R] [FloorRing R] {m : Libm R}
  {spec : Spectrum R} {wind : WindForcing R} {params : ST6Params R} {dt duration : R}

/-- The loop behind `n` turns. -/
def course (m : Libm R) (spec : Spectrum R) (wind : WindForcing R) (params : ST6Params R) (dt : R)
    (n : ℕ) : Course R :=
  (turn m wind params dt)^[n] ⟨spec, 0.0, []⟩

omit [IsStrictOrderedRing R] in
theorem course_succ (n : ℕ) : course m spec wind params dt (n + 1) =
    turn m wind params dt (course m spec wind params dt n) :=
  Function.iterate_succ_apply' ..

omit [IsStrictOrderedRing R] in
theorem turn_t (c : Course R) : (turn m wind params dt c).t = c.t + dt := rfl

omit [IsStrictOrderedRing R] in
theorem turn_outputs (c : Course R) : (turn m wind params dt c).outputs =
    if fmod (c.t + dt) output_interval < dt then
      c.outputs ++ [(c.t + dt, (turn m wind params dt c).spec)]
    else c.outputs := rfl

omit [IsStrictOrderedRing R] in
theorem course_t (n : ℕ) : (course m spec wind params dt n).t = n * dt := by
  induction n with
  | zero =>
      show (0.0 : R) = _
      norm_num
  | succ n ih => rw [course_succ, turn_t, ih, Nat.cast_succ, add_one_mul]

theorem output_interval_pos : (0 : R) < output_interval := by
  norm_num [output_interval]

/-- A turn writes where its step passes a multiple. -/
theorem course_outputs_succ (hdt : 0 < dt) (n : ℕ) [Decidable (∃ k, Passes output_interval (n * dt) dt k)] :
    (course m spec wind params dt (n + 1)).outputs =
      (course m spec wind params dt n).outputs ++
        if ∃ k, Passes output_interval (n * dt) dt k then
          [((n + 1) * dt, (course m spec wind params dt (n + 1)).spec)]
        else [] := by
  have ht : 0 ≤ (n : R) * dt := mul_nonneg (Nat.cast_nonneg n) hdt.le
  rw [course_succ, turn_outputs, course_t]
  simp only [fmod_lt_iff ht hdt.le output_interval_pos, add_one_mul]
  split
  · rfl
  · rw [List.append_nil]

/-- The number of spectra is the number of multiples that have been passed. -/
theorem length_course_outputs (hdt : 0 < dt) (hle : dt ≤ output_interval) (n : ℕ) :
    (course m spec wind params dt n).outputs.length = ⌊n * dt / output_interval⌋₊ := by
  classical
  have hI : (0 : R) < output_interval := output_interval_pos
  induction n with
  | zero => simp [course]
  | succ n ih =>
      have ht : 0 ≤ (n : R) * dt := mul_nonneg (Nat.cast_nonneg n) hdt.le
      rw [course_outputs_succ hdt, List.length_append, ih, Nat.cast_succ, add_one_mul]
      split
      · rename_i hpasses
        obtain ⟨k, hk⟩ := hpasses
        rw [hk.floor_eq ht hI hle, List.length_singleton]
      · rename_i hpasses
        rw [floor_eq_of_not_passes ht hdt.le hI hpasses, List.length_nil, add_zero]

/-- The loop goes on as long as the time is below the duration. -/
theorem duration_loop_eq (hdt : 0 < dt) {n : ℕ} (hn : n ≤ ⌈duration / dt⌉₊) (fuel : ℕ) :
    duration_loop m wind params dt duration fuel (course m spec wind params dt n) =
      if ⌈duration / dt⌉₊ < n + fuel then some (course m spec wind params dt ⌈duration / dt⌉₊)
      else none := by
  induction fuel generalizing n with
  | zero =>
      rw [if_neg (by omega)]
      rfl
  | succ fuel ih =>
      have hcond : (course m spec wind params dt n).t < duration ↔ n < ⌈duration / dt⌉₊ := by
        rw [course_t, Nat.lt_ceil, lt_div_iff₀ hdt]
      rw [duration_loop]
      rcases hn.lt_or_eq with hlt | heq
      · rw [if_pos (hcond.mpr hlt), ← course_succ, ih hlt]
        simp only [Nat.add_right_comm n 1 fuel, Nat.add_assoc]
      · rw [if_neg (fun h => (hcond.mp h).ne heq), if_pos (by omega), heq]

/-- The step that the control chooses is positive and no longer than the interval. -/
theorem compute_adaptive_dt_range (hfreq : ∀ i, 0 < spec.freq i) :
    0 < compute_adaptive_dt spec time_step_control_default ∧
      compute_adaptive_dt spec time_step_control_default ≤ output_interval := by
  have hmax : (300.0 : R) ≤ output_interval := by norm_num [output_interval]
  dsimp only [compute_adaptive_dt, time_step_control_default]
  split
  · exact ⟨by norm_num, hmax⟩
  · rename_i hcfl
    exact ⟨div_pos (by norm_num) (hfreq _), (not_lt.mp hcfl).trans hmax⟩

/-- With the step that it chooses, `run_duration_limited_test` writes the initial spectrum and
one for each multiple of the interval up to its last time. -/
theorem run_duration_limited_test_length (hfreq : ∀ i, 0 < spec.freq i) {fuel : ℕ}
    (hfuel : ⌈duration / compute_adaptive_dt spec time_step_control_default⌉₊ < fuel) :
    ∃ outputs, run_duration_limited_test m wind params spec duration fuel = some outputs ∧
      outputs.length = ⌊⌈duration / compute_adaptive_dt spec time_step_control_default⌉₊ *
        compute_adaptive_dt spec time_step_control_default / output_interval⌋₊ + 1 := by
  obtain ⟨hdt, hle⟩ := compute_adaptive_dt_range hfreq
  set dt := compute_adaptive_dt spec time_step_control_default
  have hloop : duration_loop m wind params dt duration fuel ⟨spec, 0.0, []⟩ =
      some (course m spec wind params dt ⌈duration / dt⌉₊) := by
    have heq : duration_loop m wind params dt duration fuel (course m spec wind params dt 0) = _ :=
      duration_loop_eq hdt (Nat.zero_le _) fuel
    rwa [Nat.zero_add, if_pos hfuel] at heq
  refine ⟨(0.0, spec) :: (course m spec wind params dt ⌈duration / dt⌉₊).outputs, ?_, ?_⟩
  · rw [run_duration_limited_test, hloop]
    rfl
  · rw [List.length_cons, length_course_outputs hdt hle]

end Course

/-- The loop ends behind the first step that reaches the duration. It writes a spectrum in the
steps that pass or reach a multiple of the interval, in each of them for one multiple, and for
every multiple up to the last time in one step. -/
theorem output_schedule {R : Type*} [Field R] [LinearOrder R] [IsStrictOrderedRing R] [FloorRing R]
    (m : Libm R) (spec : Spectrum R) (wind : WindForcing R) (params : ST6Params R) (duration : R) {dt : R}
    (hdt : 0 < dt) (hle : dt ≤ output_interval) :
    let steps := ⌈duration / dt⌉₊
    let c := course m spec wind params dt
    let passed := fun (n : ℕ) => Passes output_interval (n * dt) dt
    (∀ fuel, duration_loop m wind params dt duration fuel ⟨spec, 0.0, []⟩ =
        if steps < fuel then some (c steps) else none) ∧
      (∀ n : ℕ, (c n).t = n * dt) ∧
      (∀ n : ℕ, (∃ k, passed n k) ∧
            (c (n + 1)).outputs = (c n).outputs ++ [((n + 1) * dt, (c (n + 1)).spec)] ∨
          (¬∃ k, passed n k) ∧ (c (n + 1)).outputs = (c n).outputs) ∧
      (∀ n k l, passed n k → passed n l → k = l) ∧
      (∀ k : ℕ, 0 < k → k * output_interval ≤ (c steps).t → ∃! n, n < steps ∧ passed n k) ∧
      (c steps).outputs.length = ⌊(c steps).t / output_interval⌋₊ := by
  classical
  intro steps c passed
  refine ⟨fun fuel => ?_, course_t, fun n => ?_, fun n k l => Passes.unique hle, fun k hk hend => ?_, ?_⟩
  · have hloop : duration_loop m wind params dt duration fuel (c 0) = _ :=
      duration_loop_eq hdt (Nat.zero_le _) fuel
    rwa [Nat.zero_add] at hloop
  · have hsucc : (c (n + 1)).outputs = _ := course_outputs_succ hdt n
    by_cases hpasses : ∃ k, passed n k
    · rw [if_pos hpasses] at hsucc
      exact .inl ⟨hpasses, hsucc⟩
    · rw [if_neg hpasses, List.append_nil] at hsucc
      exact .inr ⟨hpasses, hsucc⟩
  · rw [course_t] at hend
    exact exists_unique_step hdt output_interval_pos hk hend
  · rw [course_t]
    exact length_course_outputs hdt hle steps

/-- A day in steps of five minutes, with a spectrum for each half hour. -/
theorem output_schedule_day :
    let params : ST6Params ℝ := ⟨32, 5.7e-7, 8.0e-6, 4, 4, 0.001225, 1, 0.0001⟩
    let c := course Libm.real (created 34 36 0.04 fun _ _ => 1) ⟨15, 0, 1.225, 1025⟩ params 300
    (c 288).outputs.length = 48 := by
  intro params c
  have hsteps : ⌈(86400 : ℝ) / 300⌉₊ = 288 := by norm_num
  have hdt : (0 : ℝ) < 300 := by norm_num
  have hle : (300 : ℝ) ≤ output_interval := by norm_num [output_interval]
  obtain ⟨-, ht, -, -, -, hlength⟩ := output_schedule Libm.real (created 34 36 0.04 fun _ _ => 1)
    ⟨15, 0, 1.225, 1025⟩ params 86400 hdt hle
  rw [hsteps, ht] at hlength
  have hfloor : ⌊((288 : ℕ) : ℝ) * 300 / output_interval⌋₊ = 48 := by norm_num [output_interval]
  exact hlength.trans hfloor

end OtusCProg.PointWaveModel
