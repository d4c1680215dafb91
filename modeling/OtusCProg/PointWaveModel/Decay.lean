import OtusCProg.PointWaveModel.Model
import Mathlib.Analysis.SpecialFunctions.Pow.Real
import Mathlib.Analysis.SpecialFunctions.Trigonometric.Basic

/-!
# Decay without wind

With `u10 ≤ 0` the argument of the wind forcing is below zero in every bin, so
that the input vanishes whatever the stress constraint makes of it. What is
left is the dissipation, which is nowhere positive; a step moves every bin
towards zero and stops there.
-/

namespace OtusCProg.PointWaveModel
open Finset

/-- The laws of `math.h` that the decay rests on. -/
structure Libm.Lawful {R : Type*} [Field R] [LinearOrder R] (m : Libm R) : Prop where
  pi_pos : 0 < m.M_PI
  log_pos : ∀ x, 1 < x → 0 < m.log x
  pow_nonneg : ∀ x y, 0 ≤ x → 0 ≤ m.pow x y
  sqrt_mono : ∀ x y, x ≤ y → m.sqrt x ≤ m.sqrt y

section Decay
variable {R : Type*} [Field R] [LinearOrder R] [IsStrictOrderedRing R] {m : Libm R}
  {spec : Spectrum R} {wind : WindForcing R} {params : ST6Params R}

/-- What `spectrum_create` sets up, and energies that are not negative. -/
structure Spectrum.WellFormed (spec : Spectrum R) : Prop where
  freq_pos : ∀ i, 0 < spec.freq i
  dsii_nonneg : ∀ i < spec.nfreq, 0 ≤ spec.dsii i
  dtheta_nonneg : 0 ≤ spec.dtheta
  energy_nonneg : ∀ i < spec.nfreq, ∀ j < spec.ndir, 0 ≤ spec.energy i j

/-- No wind, or one below zero, and parameters in their range. -/
structure Calm (wind : WindForcing R) (params : ST6Params R) : Prop where
  u10_nonpos : wind.u10 ≤ 0
  sin6ws_nonneg : 0 ≤ params.sin6ws
  a1_nonneg : 0 ≤ params.a1
  a2_nonneg : 0 ≤ params.a2
  z0_pos : 0 < params.z0
  z0_lt : params.z0 < 10

section WindInput

/-- The roughness length is below the ten metres at which the wind is given. -/
theorem one_lt_height_ratio {z0 : R} (hpos : 0 < z0) (hlt : z0 < 10) : 1 < 10.0 / z0 := by
  rw [one_lt_div hpos]
  calc
    z0 < 10 := hlt
    _ = 10.0 := by norm_num

theorem friction_velocity_nonpos (hm : m.Lawful) (h : Calm wind params) :
    friction_velocity m wind.u10 params.z0 ≤ 0 := by
  have hlog : 0 < m.log (10.0 / params.z0) :=
    hm.log_pos _ (one_lt_height_ratio h.z0_pos h.z0_lt)
  have hkarman : (0 : R) ≤ VON_KARMAN := by
    norm_num [VON_KARMAN]
  apply div_nonpos_of_nonpos_of_nonneg
  · exact mul_nonpos_of_nonpos_of_nonneg h.u10_nonpos hkarman
  · exact hlog.le

/-- No bin takes energy from the wind. -/
theorem wind_input_eq_zero (hm : m.Lawful) (h : Calm wind params) (i j : ℕ) :
    wind_input m spec wind params i j = 0 := by
  have hscaled : friction_velocity m wind.u10 params.z0 * params.sin6ws ≤ 0 :=
    mul_nonpos_of_nonpos_of_nonneg (friction_velocity_nonpos hm h) h.sin6ws_nonneg
  dsimp only [wind_input]
  split
  · norm_num
  · rename_i hc
    split
    · norm_num
    · split
      · norm_num
      · rename_i hcos
        have hphase : 0 ≤ phase_speed m (spec.freq i) := by
          have hle := not_lt.mp hc
          exact le_trans (by norm_num) hle
        have hdiff : 0 ≤ m.cos (spec.dir j - wind.dir) := by
          have hmin : (0 : R) ≤ FLT_MIN := by norm_num [FLT_MIN]
          exact hmin.trans (not_le.mp hcos).le
        have harg : friction_velocity m wind.u10 params.z0 * params.sin6ws /
            phase_speed m (spec.freq i) * m.cos (spec.dir j - wind.dir) - 1.0 ≤ 0 := by
          have hforce := mul_nonpos_of_nonpos_of_nonneg
            (div_nonpos_of_nonpos_of_nonneg hscaled hphase) hdiff
          norm_num
          linarith
        -- the forcing `W` is zero, and with it every factor behind it
        rw [if_neg (by norm_num; linarith)]
        norm_num

omit [IsStrictOrderedRing R] in
/-- The stress constraint scales the input, so that it leaves a bin without input alone. -/
theorem apply_stress_constraint2_eq_zero {dS_in : ℕ → ℕ → R} {i j : ℕ} (h : dS_in i j = 0) :
    apply_stress_constraint2 m spec wind params dS_in i j = 0 := by
  dsimp only [apply_stress_constraint2, apply_stress_constraint2_in]
  split
  · split
    · exact mul_eq_zero_of_left h _
    · exact h
  · exact h

omit [IsStrictOrderedRing R] in
theorem source_term_wind_input_eq : source_term_wind_input m spec wind params =
    apply_stress_constraint2 m spec wind params (wind_input m spec wind params) := rfl

theorem source_term_wind_input_eq_zero (hm : m.Lawful) (h : Calm wind params) (i j : ℕ) :
    source_term_wind_input m spec wind params i j = 0 :=
  apply_stress_constraint2_eq_zero (wind_input_eq_zero hm h i j)

end WindInput

section Dissipation

omit [Field R] [IsStrictOrderedRing R] in
theorem init_le_largest (init : R) (x : ℕ → R) (n : ℕ) : init ≤ largest init x n := by
  induction n with
  | zero => exact le_rfl
  | succ n ih =>
      rw [largest, List.range_succ, List.foldl_concat]
      split
      · rename_i hlt
        exact ih.trans hlt.le
      · exact ih

theorem ratio_nonneg (i : ℕ) : 0 ≤ ratio m spec params i := by
  have hdelta : 0 ≤ max (spec.sum_dir i * spec.dtheta - threshold m spec params i) 0.0 := by
    norm_num
  have hzero : (0 : R) ≤ 0.0 := by norm_num
  dsimp only [ratio]
  split
  · split
    · rename_i heps
      have hlargest := init_le_largest 0.0 (fun i => spec.sum_dir i * spec.dtheta) spec.nfreq
      have hpos : 0 ≤ spec.sum_dir i * spec.dtheta := by
        apply le_trans _ heps.le
        exact mul_nonneg (by norm_num) (hzero.trans hlargest)
      exact div_nonneg hdelta hpos
    · exact hzero
  · split
    · rename_i hpos
      exact div_nonneg hdelta (hzero.trans hpos.le)
    · exact hzero

theorem accum_nonneg (hm : m.Lawful) (hspec : spec.WellFormed) {i : ℕ} (hi : i < spec.nfreq) :
    0 ≤ accum m spec params i := by
  have hterm : ∀ i < spec.nfreq, 0 ≤ m.pow (ratio m spec params i) params.M * spec.dsii i := by
    intro i hi
    exact mul_nonneg (hm.pow_nonneg _ _ (ratio_nonneg i)) (hspec.dsii_nonneg i hi)
  induction i with
  | zero => exact hterm 0 hi
  | succ i ih => exact add_nonneg (ih (Nat.lt_of_succ_lt hi)) (hterm (i + 1) hi)

/-- Breaking waves lose energy in every bin. -/
theorem source_term_dissipation_nonpos (hm : m.Lawful) (h : Calm wind params)
    (hspec : spec.WellFormed) {i j : ℕ} (hi : i < spec.nfreq) (hj : j < spec.ndir) :
    source_term_dissipation m spec params i j ≤ 0 := by
  have henergy := hspec.energy_nonneg i hi j hj
  have hlocal : 0 ≤ params.a1 * spec.freq i * m.pow (max (ratio m spec params i) 0.0) params.L := by
    apply mul_nonneg
    · exact mul_nonneg h.a1_nonneg (hspec.freq_pos i).le
    · exact hm.pow_nonneg _ _ ((ratio_nonneg i).trans (le_max_left ..))
  have hcumulative : 0 ≤ params.a2 * accum m spec params i :=
    mul_nonneg h.a2_nonneg (accum_nonneg hm hspec hi)
  rw [source_term_dissipation, neg_nonpos]
  exact add_nonneg (mul_nonneg hlocal henergy) (mul_nonneg hcumulative henergy)

end Dissipation

section Create

/-- The widths of a grid of growing frequencies. -/
theorem bandwidth_nonneg {freq : ℕ → R} (hfreq : Monotone freq) (nk i : ℕ) :
    0 ≤ bandwidth freq nk i := by
  have hhalf : (0 : R) ≤ 0.5 := by norm_num
  unfold bandwidth
  split
  · exact mul_nonneg hhalf (sub_nonneg.mpr (hfreq (Nat.zero_le 1)))
  · split
    · exact mul_nonneg hhalf (sub_nonneg.mpr (hfreq (Nat.sub_le i 1)))
    · exact mul_nonneg hhalf (sub_nonneg.mpr (hfreq (by omega)))

theorem spectrum_create_wellFormed (hm : m.Lawful) (nfreq : ℤ) (ndir : ℕ) {f_min : R}
    (hf : 0 < f_min) {energy : ℕ → ℕ → R}
    (henergy : ∀ i < (spectrum_create m nfreq ndir f_min).nfreq, ∀ j < ndir, 0 ≤ energy i j) :
    ({ spectrum_create m nfreq ndir f_min with energy := energy } : Spectrum R).WellFormed where
  freq_pos i := mul_pos hf (pow_pos (by norm_num [XFR]) i)
  dsii_nonneg i _ := by
    apply bandwidth_nonneg
    intro a b hab
    apply mul_le_mul_of_nonneg_left _ hf.le
    exact pow_le_pow_right₀ (by norm_num [XFR]) hab
  dtheta_nonneg := by
    apply div_nonneg
    · exact mul_nonneg (by norm_num) hm.pi_pos.le
    · exact Nat.cast_nonneg ndir
  energy_nonneg := henergy

end Create

section Step
variable {type : IntegratorType} {dt : R}

/-- One step: the grid stays, and every bin comes closer to zero. -/
structure Decays (spec spec' : Spectrum R) : Prop where
  nfreq : spec'.nfreq = spec.nfreq
  ndir : spec'.ndir = spec.ndir
  freq : spec'.freq = spec.freq
  dsii : spec'.dsii = spec.dsii
  dtheta : spec'.dtheta = spec.dtheta
  nonneg : ∀ i < spec.nfreq, ∀ j < spec.ndir, 0 ≤ spec'.energy i j
  le : ∀ i < spec.nfreq, ∀ j < spec.ndir, spec'.energy i j ≤ spec.energy i j

/-- A clamped Euler step with a source that is nowhere positive. -/
theorem clamp_decays {energy source dt : R} (henergy : 0 ≤ energy) (hsource : source ≤ 0)
    (hdt : 0 < dt) : 0 ≤ max (energy + source * dt) 0.0 ∧ max (energy + source * dt) 0.0 ≤ energy := by
  have hloss : source * dt ≤ 0 := mul_nonpos_of_nonpos_of_nonneg hsource hdt.le
  norm_num
  exact ⟨hloss, henergy⟩

theorem integrator_step_decays (hm : m.Lawful) (h : Calm wind params) (hspec : spec.WellFormed)
    (hdt : 0 < dt) : Decays spec (integrator_step m spec wind params type dt).1 := by
  have hclamp : ∀ i < spec.nfreq, ∀ j < spec.ndir,
      0 ≤ (euler_step m spec wind params dt).energy i j ∧
        (euler_step m spec wind params dt).energy i j ≤ spec.energy i j := by
    intro i hi j hj
    have hsource : source_term_total m spec wind params i j ≤ 0 := by
      rw [source_term_total, source_term_wind_input_eq_zero hm h, zero_add]
      exact source_term_dissipation_nonpos hm h hspec hi hj
    exact clamp_decays (hspec.energy_nonneg i hi j hj) hsource hdt
  have hstep : (integrator_step m spec wind params type dt).1 =
      spectrum_update_peak (euler_step m spec wind params dt) := by
    cases type <;> rfl
  rw [hstep]
  exact ⟨rfl, rfl, rfl, rfl, rfl, fun i hi j hj => (hclamp i hi j hj).1,
    fun i hi j hj => (hclamp i hi j hj).2⟩

omit [IsStrictOrderedRing R] in
theorem Decays.wellFormed {spec' : Spectrum R} (h : Decays spec spec') (hspec : spec.WellFormed) :
    spec'.WellFormed where
  freq_pos := by
    rw [h.freq]
    exact hspec.freq_pos
  dsii_nonneg := by
    rw [h.dsii, h.nfreq]
    exact hspec.dsii_nonneg
  dtheta_nonneg := by
    rw [h.dtheta]
    exact hspec.dtheta_nonneg
  energy_nonneg := by
    rw [h.nfreq, h.ndir]
    exact h.nonneg

/-- The significant wave height falls with the energies. -/
theorem Decays.spectrum_Hs_le {spec' : Spectrum R} (hm : m.Lawful) (h : Decays spec spec')
    (hspec : spec.WellFormed) : spectrum_Hs m spec' ≤ spectrum_Hs m spec := by
  have hfour : (0 : R) ≤ 4.0 := by norm_num
  dsimp only [spectrum_Hs]
  rw [h.nfreq, h.dtheta, h.dsii]
  apply mul_le_mul_of_nonneg_left _ hfour
  apply hm.sqrt_mono
  apply sum_le_sum
  intro i hi
  have hi' := mem_range.mp hi
  apply mul_le_mul_of_nonneg_right _ (hspec.dsii_nonneg i hi')
  apply mul_le_mul_of_nonneg_right _ hspec.dtheta_nonneg
  rw [Spectrum.sum_dir, Spectrum.sum_dir, h.ndir]
  exact sum_le_sum fun j hj => h.le i hi' j (mem_range.mp hj)

omit [IsStrictOrderedRing R] in
theorem run_succ (n : ℕ) : run m spec wind params type dt (n + 1) =
    (integrator_step m (run m spec wind params type dt n) wind params type dt).1 :=
  Function.iterate_succ_apply' ..

/-- The spectrum stays well-formed along the run. -/
theorem run_wellFormed (hm : m.Lawful) (h : Calm wind params) (hspec : spec.WellFormed) (hdt : 0 < dt)
    (n : ℕ) : (run m spec wind params type dt n).WellFormed := by
  induction n with
  | zero => exact hspec
  | succ n ih =>
      rw [run_succ]
      exact (integrator_step_decays hm h ih hdt).wellFormed ih

/-- The step behind `n` others. -/
theorem run_decays (hm : m.Lawful) (h : Calm wind params) (hspec : spec.WellFormed) (hdt : 0 < dt)
    (n : ℕ) : Decays (run m spec wind params type dt n) (run m spec wind params type dt (n + 1)) := by
  rw [run_succ]
  exact integrator_step_decays hm h (run_wellFormed hm h hspec hdt n) hdt

theorem run_size (hm : m.Lawful) (h : Calm wind params) (hspec : spec.WellFormed) (hdt : 0 < dt)
    (n : ℕ) : (run m spec wind params type dt n).nfreq = spec.nfreq ∧
      (run m spec wind params type dt n).ndir = spec.ndir := by
  induction n with
  | zero => exact ⟨rfl, rfl⟩
  | succ n ih =>
      have hdecays : Decays (run m spec wind params type dt n) (run m spec wind params type dt (n + 1)) :=
        run_decays hm h hspec hdt n
      exact ⟨hdecays.nfreq.trans ih.1, hdecays.ndir.trans ih.2⟩

end Step

end Decay

/-- The functions on the real numbers. -/
noncomputable def Libm.real : Libm ℝ where
  M_PI := Real.pi
  sqrt := Real.sqrt
  exp := Real.exp
  log := Real.log
  cos := Real.cos
  sin := Real.sin
  tanh := Real.tanh
  pow := fun x y => x ^ y
  ceil := Int.ceil

theorem lawful_real : Libm.real.Lawful where
  pi_pos := Real.pi_pos
  log_pos _ := Real.log_pos
  pow_nonneg _ y hx := Real.rpow_nonneg hx y
  sqrt_mono _ _ := Real.sqrt_le_sqrt

/-- A spectrum of `spectrum_create` with some energies in its bins. -/
noncomputable def created (nfreq : ℤ) (ndir : ℕ) (f_min : ℝ) (energy : ℕ → ℕ → ℝ) : Spectrum ℝ :=
  { spectrum_create Libm.real nfreq ndir f_min with energy := energy }

/-- Without wind nothing comes in and every bin loses energy, at every step of every run, so that
the significant wave height never rises. -/
theorem calm_sea_decays {nfreq : ℤ} {ndir : ℕ} {f_min dt : ℝ} {energy : ℕ → ℕ → ℝ}
    {wind : WindForcing ℝ} {params : ST6Params ℝ} (type : IntegratorType) (hf : 0 < f_min)
    (henergy : ∀ i < (created nfreq ndir f_min energy).nfreq, ∀ j < ndir, 0 ≤ energy i j)
    (h : Calm wind params) (hdt : 0 < dt) :
    let spec := run Libm.real (created nfreq ndir f_min energy) wind params type dt
    (∀ n, ∀ i < (created nfreq ndir f_min energy).nfreq, ∀ j < ndir,
      source_term_wind_input Libm.real (spec n) wind params i j = 0 ∧
        source_term_dissipation Libm.real (spec n) params i j ≤ 0 ∧
        0 ≤ (spec (n + 1)).energy i j ∧ (spec (n + 1)).energy i j ≤ (spec n).energy i j) ∧
      Antitone fun n => spectrum_Hs Libm.real (spec n) := by
  have hm := lawful_real
  have hcreated : (created nfreq ndir f_min energy).WellFormed :=
    spectrum_create_wellFormed hm nfreq ndir hf henergy
  intro spec
  have hspec : ∀ n, (spec n).WellFormed := run_wellFormed hm h hcreated hdt
  have hdecays : ∀ n, Decays (spec n) (spec (n + 1)) := run_decays hm h hcreated hdt
  refine ⟨fun n i hi j hj => ?_, antitone_nat_of_succ_le fun n => (hdecays n).spectrum_Hs_le hm (hspec n)⟩
  obtain ⟨hnfreq, hndir⟩ : (spec n).nfreq = _ ∧ (spec n).ndir = _ := run_size hm h hcreated hdt n
  have hi' : i < (spec n).nfreq := hi.trans_eq hnfreq.symm
  have hj' : j < (spec n).ndir := hj.trans_eq hndir.symm
  exact ⟨source_term_wind_input_eq_zero hm h i j, source_term_dissipation_nonpos hm h (hspec n) hi' hj',
    (hdecays n).nonneg i hi' j hj', (hdecays n).le i hi' j hj'⟩

/-- Steps of a minute on a flat spectrum, with the wind against its direction. -/
theorem calm_sea_decays_headwind :
    let params : ST6Params ℝ := ⟨32, 5.7e-7, 8.0e-6, 4, 4, 0.001225, 1, 0.0001⟩
    let spec := run Libm.real (created 35 36 0.04 fun _ _ => 1) ⟨-5, 0, 1.225, 1025⟩ params
      .EULER_FORWARD 60
    Antitone fun n => spectrum_Hs Libm.real (spec n) := by
  intro params spec
  have hcalm : Calm (⟨-5, 0, 1.225, 1025⟩ : WindForcing ℝ) params := by
    constructor <;> norm_num [params]
  exact (calm_sea_decays .EULER_FORWARD (by norm_num) (fun _ _ _ _ => zero_le_one) hcalm
    (by norm_num)).2

end OtusCProg.PointWaveModel
