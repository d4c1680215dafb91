import OtusCProg.PointWaveModel.Reduction
import Mathlib.Analysis.Complex.ExponentialBounds
import Mathlib.Analysis.Real.Pi.Bounds

/-!
# A sea with one direction

All energy is in one bin, whose waves have half the speed of the scaled wind,
and the wind blows along them. The excess is then a multiple of a falling
exponential of `Rtau`, less 1.
-/

namespace OtusCProg.PointWaveModel
open Finset

section OneDirection
variable {y : ℝ}

/-- A wind whose friction velocity is 1. -/
noncomputable def gale : WindForcing ℝ := ⟨Real.log 100000 / 0.41, Real.pi, 1.225, 1025⟩

/-- An energy whose saturation is `y ^ 2`. -/
noncomputable def saturated (y : ℝ) : ℝ := y ^ 2 * Real.pi * 256 ^ 3 / (4 * 9.81 ^ 3)

/-- One direction, two frequencies, and energy in the lower one, whose waves have half the speed of
the scaled wind. -/
noncomputable def sea (y : ℝ) : Spectrum ℝ :=
  created 2 1 (9.81 / (32 * Real.pi)) fun i _ => if i = 0 then saturated y else 0

/-- The sheltering in the bin with energy. -/
noncomputable def shelter (y : ℝ) : ℝ := 2.8 - (1.0 + Real.tanh (10.0 * y * 1 - 11.0))

theorem log_large : 9.02 < Real.log 100000 := by
  rw [Real.lt_log_iff_exp_lt (by norm_num)]
  calc
    Real.exp 9.02 ≤ Real.exp (10 * 1) := Real.exp_le_exp.mpr (by norm_num)
    _ = Real.exp 1 ^ 10 := by exact_mod_cast Real.exp_nat_mul 1 10
    _ < 2.7182818286 ^ 10 := pow_lt_pow_left₀ Real.exp_one_lt_d9 (Real.exp_pos 1).le (by norm_num)
    _ ≤ 100000 := by norm_num

theorem gale_friction : friction_velocity Libm.real gale.u10 st6_params_default.z0 = 1 := by
  have hlog : Real.log 100000 ≠ 0 := by
    have hlarge := log_large
    norm_num at hlarge
    linarith
  have hratio : (10.0 : ℝ) / 0.0001 = 100000 := by norm_num
  have hkarman : (VON_KARMAN : ℝ) = 0.41 := rfl
  simp only [friction_velocity, gale, st6_params_default, Libm.real]
  rw [hratio, hkarman, div_mul_cancel₀ _ (by norm_num), div_self hlog]

theorem saturated_pos (hy : 1 / 4 ≤ y) : 1 < saturated y := by
  have hpi := Real.pi_gt_three
  have hsq : 1 / 16 ≤ y ^ 2 := by nlinarith
  rw [saturated, lt_div_iff₀ (by norm_num)]
  have hprod : 1 / 16 * 3 ≤ y ^ 2 * Real.pi := by nlinarith
  norm_num
  nlinarith

theorem gale_windy : Windy gale st6_params_default := by
  have hlog := log_large
  constructor
  · apply div_pos _ (by norm_num)
    norm_num at hlog
    linarith
  all_goals norm_num [gale, st6_params_default]

theorem sea_energy_nonneg (hy : 1 / 4 ≤ y) (i j : ℕ) : 0 ≤ (sea y).energy i j := by
  have hE := saturated_pos hy
  dsimp only [sea, created]
  split
  · linarith
  · exact le_rfl

theorem sea_freq : (sea y).freq 0 = 9.81 / (32 * Real.pi) := by
  simp [sea, created, spectrum_create]

theorem sea_speed : phase_speed Libm.real ((sea y).freq 0) = 16 := by
  have hpi := Real.pi_ne_zero
  have hG : (G : ℝ) = 9.81 := rfl
  have htwo : (2.0 : ℝ) = 2 := by norm_num
  rw [phase_speed, sea_freq, hG, htwo]
  change 9.81 / (2 * Real.pi * (9.81 / (32 * Real.pi))) = 16
  field_simp
  norm_num

theorem sea_dir : (sea y).dir 0 = -Real.pi := by
  simp [sea, created, spectrum_create, Libm.real]

theorem sea_dtheta : (sea y).dtheta = 2 * Real.pi := by
  have htwo : (2.0 : ℝ) = 2 := by norm_num
  simp [sea, created, spectrum_create, Libm.real, htwo]

theorem sea_sum_dir : (sea y).sum_dir 0 = saturated y := by
  simp [Spectrum.sum_dir, sea, created, spectrum_create]

/-- What the bin with energy takes from the wind. -/
theorem wind_input_first (hy : 1 / 4 ≤ y) : wind_input Libm.real (sea y) gale st6_params_default 0 0 =
    shelter y * y * (9.81 / 16) * (1.225 / 1025) * saturated y := by
  have hpi := Real.pi_pos
  have hE := saturated_pos hy
  have hmax : largest (-1.0) ((sea y).energy 0) (sea y).ndir = saturated y := by
    have hlt : (-1.0 : ℝ) < saturated y := by
      norm_num
      linarith
    simp [largest, sea, created, spectrum_create, hlt]
  have hsigma : 2.0 * Libm.real.M_PI * (sea y).freq 0 = 9.81 / 16 := by
    have htwo : (2.0 : ℝ) = 2 := by norm_num
    rw [sea_freq, htwo]
    change 2 * Real.pi * (9.81 / (32 * Real.pi)) = 9.81 / 16
    field_simp
    norm_num
  have hcos : Libm.real.cos ((sea y).dir 0 - gale.dir) = 1 := by
    have hangle : (sea y).dir 0 - gale.dir = -(2 * Real.pi) := by
      rw [sea_dir]
      change -Real.pi - Real.pi = _
      ring
    rw [hangle]
    change Real.cos (-(2 * Real.pi)) = 1
    rw [Real.cos_neg, Real.cos_two_pi]
  have hint : ∑ j ∈ range (sea y).ndir, (sea y).energy 0 j / saturated y * (sea y).dtheta
      = 2 * Real.pi := by
    have hndir : (sea y).ndir = 1 := rfl
    have henergy : (sea y).energy 0 0 = saturated y := rfl
    rw [hndir, sum_range_one, henergy, div_self (by linarith), one_mul, sea_dtheta]
  have hroot : Libm.real.sqrt (1.0 / (2 * Real.pi) * (1.0 / (2.0 * Libm.real.M_PI) *
      (saturated y * (2 * Real.pi)) * (9.81 / 16 * (9.81 / 16) / G) *
      (9.81 / 16 * (9.81 / 16) / G) * (9.81 / 16 * (9.81 / 16) / G) * (0.5 * 16))) = y := by
    have hsq : 1.0 / (2 * Real.pi) * (1.0 / (2.0 * Real.pi) *
        (saturated y * (2 * Real.pi)) * (9.81 / 16 * (9.81 / 16) / 9.81) *
        (9.81 / 16 * (9.81 / 16) / 9.81) * (9.81 / 16 * (9.81 / 16) / 9.81) * (0.5 * 16))
          = y ^ 2 := by
      rw [saturated]
      norm_num
      field_simp
      norm_num
    have hG : (G : ℝ) = 9.81 := rfl
    have hM : Libm.real.M_PI = Real.pi := rfl
    rw [hG, hM, hsq]
    exact Real.sqrt_sq (by linarith)
  have hone : (32.0 : ℝ) / 16 * 1 - 1.0 = 1 := by norm_num
  have henergy : (sea y).energy 0 0 = saturated y := rfl
  have hws : st6_params_default.sin6ws = (32.0 : ℝ) := rfl
  dsimp only [wind_input]
  rw [sea_speed, hmax, hsigma, hint, sea_sum_dir, sea_dtheta, hcos, gale_friction, hroot, henergy,
    hws, one_mul, hone, max_eq_left (by norm_num; linarith), if_neg (by norm_num),
    if_neg (by norm_num [FLT_MIN]; linarith), if_neg (by norm_num [FLT_MIN]), if_pos (by norm_num)]
  rw [shelter, mul_one, mul_one]
  rfl

/-- The bin without energy takes nothing. -/
theorem wind_input_second : wind_input Libm.real (sea y) gale st6_params_default 1 0 = 0 := by
  have hmax : largest (-1.0) ((sea y).energy 1) (sea y).ndir = 0 := by
    have hlt : (-1.0 : ℝ) < 0 := by norm_num
    simp [largest, sea, created, spectrum_create, hlt]
  dsimp only [wind_input]
  rw [hmax, if_pos (by norm_num [FLT_MIN] : (0 : ℝ) ≤ FLT_MIN)]
  split <;> norm_num

/-- The stress of the input from this wind. -/
noncomputable def strained (y : ℝ) : Stress ℝ :=
  initial_stress Libm.real (sea y) gale st6_params_default
    (wind_input Libm.real (sea y) gale st6_params_default)

theorem strained_S_x10_zero : (strained y).S_x10 0 =
    -(wind_input Libm.real (sea y) gale st6_params_default 0 0 * (2 * Real.pi)) := by
  have hcos : Libm.real.cos ((sea y).dir 0) = -1 := by
    rw [sea_dir]
    change Real.cos (-Real.pi) = -1
    rw [Real.cos_neg, Real.cos_pi]
  have hfirst : (strained y).S_x10 0 =
      (∑ j ∈ range 1, wind_input Libm.real (sea y) gale st6_params_default 0 j *
        Libm.real.cos ((sea y).dir j)) * (sea y).dtheta := rfl
  rw [hfirst, sum_range_one, hcos, sea_dtheta, mul_neg_one, neg_mul]

/-- Above the first frequency there is no stress, also behind the grid. -/
theorem strained_S_x10_of_ne {i : ℕ} (hi : i ≠ 0) : (strained y).S_x10 i = 0 := by
  have hlast : (∑ j ∈ range 1, wind_input Libm.real (sea y) gale st6_params_default 1 j *
      Libm.real.cos ((sea y).dir j)) * (sea y).dtheta = 0 := by
    rw [sum_range_one, wind_input_second, zero_mul, zero_mul]
  have hnk : (sea y).nfreq = 2 := rfl
  dsimp only [strained, initial_stress, extrapolate]
  rw [hnk]
  split
  · obtain rfl : i = 1 := by omega
    exact hlast
  · exact mul_eq_zero_of_left hlast _

theorem strained_S_y10 (i : ℕ) : (strained y).S_y10 i = 0 := by
  have hsin : Libm.real.sin ((sea y).dir 0) = 0 := by
    rw [sea_dir]
    change Real.sin (-Real.pi) = 0
    rw [Real.sin_neg, Real.sin_pi, neg_zero]
  have hrow : ∀ i, (∑ j ∈ range 1, wind_input Libm.real (sea y) gale st6_params_default i j *
      Libm.real.sin ((sea y).dir j)) * (sea y).dtheta = 0 := by
    intro i
    rw [sum_range_one, hsin, mul_zero, zero_mul]
  dsimp only [strained, initial_stress, extrapolate]
  split
  · exact hrow i
  · exact mul_eq_zero_of_left (hrow _) _

/-- There is no viscous stress in this wind. -/
theorem strained_tau_v : (strained y).tau_v_x = 0 ∧ (strained y).tau_v_y = 0 := by
  have hu10 : 22 ≤ gale.u10 := by
    have hlog := log_large
    change 22 ≤ Real.log 100000 / 0.41
    rw [le_div_iff₀ (by norm_num)]
    norm_num at hlog ⊢
    linarith
  have hcv : max (-5e-5 * gale.u10 + 1.1e-3) 0.0 = 0 := by
    rw [max_eq_right] <;> norm_num
    linarith
  have htau : min (max (-5e-5 * gale.u10 + 1.1e-3) 0.0 * gale.u10 * gale.u10 * gale.rho_air)
      (0.95 * (friction_velocity Libm.real gale.u10 st6_params_default.z0 *
        friction_velocity Libm.real gale.u10 st6_params_default.z0 * gale.rho_air)) = 0 := by
    rw [hcv, gale_friction, zero_mul, zero_mul, zero_mul]
    apply min_eq_left
    norm_num [gale]
  exact ⟨mul_eq_zero_of_left htau _, mul_eq_zero_of_left htau _⟩

theorem strained_tau_tot : (strained y).tau_tot = 1.225 := by
  dsimp only [strained, initial_stress]
  rw [gale_friction, mul_one, one_mul]
  rfl

theorem strained_nk10_pos : 0 < (strained y).nk10 := by
  have hnk : (sea y).nfreq = 2 := rfl
  dsimp only [strained, initial_stress]
  omega

theorem strained_cinv10 : (strained y).cinv10 0 = 1 / 16 := by
  have hspeed : phase_speed Libm.real ((sea y).freq 0) = 16 := sea_speed
  have hone : (1.0 : ℝ) = 1 := by norm_num
  dsimp only [strained, initial_stress]
  rw [pow_zero, mul_one, hone]
  exact congrArg (1 / ·) hspeed

theorem strained_ucinv10 : (strained y).ucinv10 0 = -1 := by
  have hdef : (strained y).ucinv10 0 = 1.0 - st6_params_default.sin6ws *
      friction_velocity Libm.real gale.u10 st6_params_default.z0 * (strained y).cinv10 0 := rfl
  have hws : st6_params_default.sin6ws = (32.0 : ℝ) := rfl
  rw [hdef, gale_friction, strained_cinv10, hws]
  norm_num

theorem strained_dsii10 : (strained y).dsii10 0 = 0.05 * (9.81 / (32 * Real.pi)) := by
  have hxfr : (XFR : ℝ) = 1.1 := rfl
  dsimp only [strained, initial_stress, bandwidth]
  rw [if_pos rfl, sea_freq, hxfr, pow_zero, pow_one]
  ring

/-- The stress of the input in units of the total stress. -/
noncomputable def tension (y : ℝ) : ℝ := shelter y * y ^ 3 * (51.2 * Real.pi)

/-- The sum over the frequencies has one term. -/
theorem strained_integrate (L : ℕ → ℝ) : integrate_stress (fun i => (strained y).S_x10 i * L i)
    (strained y).cinv10 (strained y).dsii10 (strained y).nk10 (strained y).rho_water (strained y).g =
      (strained y).S_x10 0 * L 0 * (1 / 16) * (0.05 * (9.81 / (32 * Real.pi))) * 1025 * 9.81 := by
  have hsum : ∑ i ∈ range (strained y).nk10,
      (strained y).S_x10 i * L i * (strained y).cinv10 i * (strained y).dsii10 i =
        (strained y).S_x10 0 * L 0 * (strained y).cinv10 0 * (strained y).dsii10 0 := by
    apply sum_eq_single 0
    · intro i _ hi
      rw [strained_S_x10_of_ne hi, zero_mul, zero_mul, zero_mul]
    · intro hnone
      exact absurd (mem_range.mpr strained_nk10_pos) hnone
  rw [integrate_stress, hsum, strained_cinv10, strained_dsii10]
  rfl

theorem strained_excess (hy : 1 / 4 ≤ y) {L : ℕ → ℝ} (hL : 0 ≤ L 0) :
    (strained y).excess Libm.real L = tension y * L 0 - 1 := by
  have hy' : 0 < y := by linarith
  have hpi := Real.pi_ne_zero
  have hshelter : 0 ≤ shelter y := by
    have htanh := Real.tanh_lt_one (10.0 * y * 1 - 11.0)
    rw [shelter]
    norm_num at htanh ⊢
    linarith
  have htension : 0 ≤ tension y * L 0 := by
    apply mul_nonneg _ hL
    exact mul_nonneg (mul_nonneg hshelter (pow_pos hy' 3).le)
      (mul_nonneg (by norm_num) Real.pi_pos.le)
  have hx : integrate_stress (fun i => (strained y).S_x10 i * L i) (strained y).cinv10
      (strained y).dsii10 (strained y).nk10 (strained y).rho_water (strained y).g =
        -(tension y * L 0 * 1.225) := by
    rw [strained_integrate, strained_S_x10_zero, wind_input_first hy, saturated, tension]
    field_simp
    norm_num
    ring
  have hzero : integrate_stress (fun i => (strained y).S_y10 i * L i) (strained y).cinv10
      (strained y).dsii10 (strained y).nk10 (strained y).rho_water (strained y).g = 0 := by
    have hsum : ∑ i ∈ range (strained y).nk10,
        (strained y).S_y10 i * L i * (strained y).cinv10 i * (strained y).dsii10 i = 0 := by
      apply sum_eq_zero
      intro i _
      rw [strained_S_y10, zero_mul, zero_mul, zero_mul]
    rw [integrate_stress, hsum, zero_mul, zero_mul]
  have hnorm : Libm.real.sqrt (-(tension y * L 0 * 1.225) * -(tension y * L 0 * 1.225)) =
      tension y * L 0 * 1.225 := by
    rw [neg_mul_neg]
    exact Real.sqrt_mul_self (mul_nonneg htension (by norm_num))
  dsimp only [Stress.excess, norm_stress_excess]
  rw [hx, hzero, strained_tau_v.1, strained_tau_v.2, strained_tau_tot, zero_add, zero_add, mul_zero,
    add_zero, hnorm]
  ring

theorem strained_err (hy : 1 / 4 ≤ y) {Rtau : ℝ} (hRtau : 0 ≤ Rtau) :
    (strained y).err Libm.real Rtau = tension y * Real.exp (-Rtau) - 1 := by
  have hfactor : (strained y).factors Libm.real Rtau 0 = Real.exp (-Rtau) := by
    have hone : (1.0 : ℝ) = 1 := by norm_num
    rw [Stress.factors, strained_ucinv10, neg_one_mul, hone]
    exact min_eq_left (Real.exp_le_one_iff.mpr (neg_nonpos.mpr hRtau))
  rw [Stress.err, strained_excess hy, hfactor]
  rw [hfactor]
  exact (Real.exp_pos _).le

theorem strained_err_init (hy : 1 / 4 ≤ y) : (strained y).err_init Libm.real = tension y - 1 := by
  have hfull : (strained y).err_init Libm.real = (strained y).excess Libm.real fun _ => 1 := by
    simp only [Stress.err_init, Stress.excess, mul_one]
  rw [hfull, strained_excess hy zero_le_one, mul_one]

theorem tension_bounds (hy : 0 ≤ y) :
    40 * y ^ 3 * Real.pi ≤ tension y ∧ tension y ≤ 144 * y ^ 3 * Real.pi := by
  have hupper := Real.tanh_lt_one (10.0 * y * 1 - 11.0)
  have hlower := Real.neg_one_lt_tanh (10.0 * y * 1 - 11.0)
  have hscale : 0 ≤ y ^ 3 * Real.pi := mul_nonneg (pow_nonneg hy 3) Real.pi_pos.le
  have hshelter : 0.8 ≤ shelter y ∧ shelter y ≤ 2.8 := by
    rw [shelter]
    norm_num at hupper hlower ⊢
    constructor <;> linarith
  have hform : tension y = shelter y * 51.2 * (y ^ 3 * Real.pi) := by
    rw [tension]
    ring
  rw [hform, mul_assoc 40, mul_assoc 144]
  constructor
  · apply mul_le_mul_of_nonneg_right _ hscale
    norm_num at hshelter ⊢
    linarith
  · apply mul_le_mul_of_nonneg_right _ hscale
    norm_num at hshelter ⊢
    linarith

end OneDirection

end OtusCProg.PointWaveModel
