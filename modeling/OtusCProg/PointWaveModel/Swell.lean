import OtusCProg.PointWaveModel.Decay

/-!
# Swell

The wind drives waves as `sin6ws` times its friction velocity. Those that outrun
the part of this along their direction, and so all that run against the wind,
take nothing from it, however strong it is and whatever the other bins of the
spectrum do. In every run their bins only lose energy.
-/

namespace OtusCProg.PointWaveModel

section Swell
variable {R : Type*} [Field R] [LinearOrder R] [IsStrictOrderedRing R] {m : Libm R}
  {spec : Spectrum R} {wind : WindForcing R} {params : ST6Params R} {i j : ℕ}

/-- The waves of a bin outrun what drives them, the part of `sin6ws` friction velocities along their
direction. -/
def Outruns (m : Libm R) (spec : Spectrum R) (wind : WindForcing R) (params : ST6Params R)
    (i j : ℕ) : Prop :=
  friction_velocity m wind.u10 params.z0 * params.sin6ws * m.cos (spec.dir j - wind.dir) ≤
    phase_speed m (spec.freq i)

/-- Parameters in their range. -/
structure ST6Params.InRange (params : ST6Params R) : Prop where
  a1_nonneg : 0 ≤ params.a1
  a2_nonneg : 0 ≤ params.a2

/-- Dissipation does not look at the wind, so that what holds without one holds under any. -/
theorem dissipation_nonpos (hm : m.Lawful) (h : params.InRange) (hspec : spec.WellFormed)
    (hi : i < spec.nfreq) (hj : j < spec.ndir) : source_term_dissipation m spec params i j ≤ 0 := by
  have hcalm : Calm (⟨0, 0, 0, 0⟩ : WindForcing R) { params with sin6ws := 0, z0 := 1 } :=
    ⟨le_rfl, le_rfl, h.a1_nonneg, h.a2_nonneg, one_pos, by norm_num⟩
  have hratio : ∀ i, ratio m spec { params with sin6ws := 0, z0 := 1 } i = ratio m spec params i :=
    fun _ => rfl
  have haccum : ∀ i, accum m spec { params with sin6ws := 0, z0 := 1 } i = accum m spec params i := by
    intro i
    induction i with
    | zero => rfl
    | succ i ih =>
        rw [accum, accum, ih]
        rfl
  have hle := source_term_dissipation_nonpos hm hcalm hspec hi hj
  simpa only [source_term_dissipation, haccum, hratio] using hle

/-- A bin that outruns what drives it takes nothing from the wind. -/
theorem wind_input_of_outruns (h : Outruns m spec wind params i j) :
    wind_input m spec wind params i j = 0 := by
  dsimp only [wind_input]
  split
  · norm_num
  · rename_i hc
    have hspeed : 0 < phase_speed m (spec.freq i) := by
      have hle := not_lt.mp hc
      exact lt_of_lt_of_le (by norm_num) hle
    have harg : friction_velocity m wind.u10 params.z0 * params.sin6ws /
        phase_speed m (spec.freq i) * m.cos (spec.dir j - wind.dir) - 1.0 ≤ 0 := by
      rw [div_mul_eq_mul_div, sub_nonpos]
      calc
        _ ≤ phase_speed m (spec.freq i) / phase_speed m (spec.freq i) :=
          div_le_div_of_nonneg_right h hspeed.le
        _ = 1 := div_self hspeed.ne'
        _ ≤ 1.0 := by norm_num
    have hforce : ¬((0.0 : R) < friction_velocity m wind.u10 params.z0 * params.sin6ws /
        phase_speed m (spec.freq i) * m.cos (spec.dir j - wind.dir) - 1.0) := by
      intro hpos
      have hzero : (0.0 : R) = 0 := by norm_num
      rw [hzero] at hpos
      exact absurd hpos (not_lt.mpr harg)
    -- the forcing `W` is zero, and with it every factor behind it
    simp only [if_neg hforce]
    split
    · norm_num
    · split <;> norm_num

/-- Clamping keeps the spectrum well-formed under any wind. -/
theorem integrator_step_wellFormed (hspec : spec.WellFormed) (type : IntegratorType) (dt : R) :
    (integrator_step m spec wind params type dt).1.WellFormed := by
  have hzero : (0 : R) ≤ 0.0 := by norm_num
  have heuler : (euler_step m spec wind params dt).WellFormed :=
    ⟨hspec.freq_pos, hspec.dsii_nonneg, hspec.dtheta_nonneg,
      fun _ _ _ _ => hzero.trans (le_max_right _ _)⟩
  have hstep : (integrator_step m spec wind params type dt).1 =
      spectrum_update_peak (euler_step m spec wind params dt) := by
    cases type <;> rfl
  rw [hstep]
  exact ⟨heuler.freq_pos, heuler.dsii_nonneg, heuler.dtheta_nonneg, heuler.energy_nonneg⟩

/-- A bin that outruns what drives it loses energy in a step. -/
theorem step_of_outruns (hm : m.Lawful) (h : params.InRange) (hspec : spec.WellFormed)
    (hi : i < spec.nfreq) (hj : j < spec.ndir) (houtruns : Outruns m spec wind params i j)
    (type : IntegratorType) {dt : R} (hdt : 0 < dt) :
    let spec' := (integrator_step m spec wind params type dt).1
    0 ≤ spec'.energy i j ∧ spec'.energy i j ≤ spec.energy i j := by
  have hsource : source_term_total m spec wind params i j ≤ 0 := by
    rw [source_term_total, source_term_wind_input_eq,
      apply_stress_constraint2_eq_zero (wind_input_of_outruns houtruns), zero_add]
    exact dissipation_nonpos hm h hspec hi hj
  have hclamp := clamp_decays (hspec.energy_nonneg i hi j hj) hsource hdt
  cases type <;> exact hclamp

/-- The grid along a run, and the energies on it. -/
theorem run_grid (hspec : spec.WellFormed) (type : IntegratorType) (dt : R) (n : ℕ) :
    let spec' := run m spec wind params type dt n
    spec'.WellFormed ∧ spec'.nfreq = spec.nfreq ∧ spec'.ndir = spec.ndir ∧
      spec'.freq = spec.freq ∧ spec'.dir = spec.dir := by
  induction n with
  | zero => exact ⟨hspec, rfl, rfl, rfl, rfl⟩
  | succ n ih =>
      obtain ⟨hwell, hgrid⟩ := ih
      simp only [run_succ]
      refine ⟨integrator_step_wellFormed hwell type dt, ?_⟩
      cases type <;> exact hgrid

end Swell

/-- Under any wind, the energy of a bin that outruns what drives it never grows from step to step and never
falls below zero, in any run from a spectrum with energies that are not negative. -/
theorem swell_only_decays {nfreq : ℤ} {ndir : ℕ} {f_min dt : ℝ} {energy : ℕ → ℕ → ℝ}
    (wind : WindForcing ℝ) {params : ST6Params ℝ} (type : IntegratorType) (hf : 0 < f_min)
    (henergy : ∀ i < (created nfreq ndir f_min energy).nfreq, ∀ j < ndir, 0 ≤ energy i j)
    (h : params.InRange) (hdt : 0 < dt) {i j : ℕ} (hi : i < (created nfreq ndir f_min energy).nfreq)
    (hj : j < ndir) (houtruns : Outruns Libm.real (created nfreq ndir f_min energy) wind params i j) :
    let spec := run Libm.real (created nfreq ndir f_min energy) wind params type dt
    Antitone (fun n => (spec n).energy i j) ∧ ∀ n, 0 ≤ (spec n).energy i j := by
  have hcreated : (created nfreq ndir f_min energy).WellFormed :=
    spectrum_create_wellFormed lawful_real nfreq ndir hf henergy
  intro spec
  have hstep : ∀ n, 0 ≤ (spec (n + 1)).energy i j ∧
      (spec (n + 1)).energy i j ≤ (spec n).energy i j := by
    intro n
    have hgrid : (spec n).WellFormed ∧ (spec n).nfreq = _ ∧ (spec n).ndir = ndir ∧
        (spec n).freq = _ ∧ (spec n).dir = _ := run_grid hcreated type dt n
    obtain ⟨hwell, hnfreq, hndir, hfreq, hdir⟩ := hgrid
    have hout : Outruns Libm.real (spec n) wind params i j := by
      rw [Outruns, hfreq, hdir]
      exact houtruns
    have hnext := step_of_outruns lawful_real h hwell (hi.trans_eq hnfreq.symm)
      (hj.trans_eq hndir.symm) hout type hdt
    simp only [spec, run_succ]
    exact hnext
  refine ⟨antitone_nat_of_succ_le fun n => (hstep n).2, fun n => ?_⟩
  cases n with
  | zero => exact henergy i hi j hj
  | succ n => exact (hstep n).1

/-- Waves against the wind outrun it. -/
theorem outruns_of_headwind {spec : Spectrum ℝ} {wind : WindForcing ℝ} {params : ST6Params ℝ} {i j : ℕ}
    (hu10 : 0 ≤ wind.u10) (hz0 : 0 < params.z0) (hz0' : params.z0 ≤ 10) (hsin : 0 ≤ params.sin6ws)
    (hfreq : 0 ≤ spec.freq i) (hcos : Real.cos (spec.dir j - wind.dir) ≤ 0) :
    Outruns Libm.real spec wind params i j := by
  have hlog : 0 ≤ Real.log (10.0 / params.z0) :=
    Real.log_nonneg (by rw [one_le_div hz0]; norm_num; exact hz0')
  have hfriction : 0 ≤ friction_velocity Libm.real wind.u10 params.z0 := by
    unfold friction_velocity VON_KARMAN
    exact div_nonneg (mul_nonneg hu10 (by norm_num)) hlog
  have hspeed : 0 ≤ phase_speed Libm.real (spec.freq i) := by
    unfold phase_speed G
    have hpi := Real.pi_pos
    simp only [Libm.real]
    positivity
  calc
    _ ≤ 0 := mul_nonpos_of_nonneg_of_nonpos (mul_nonneg hfriction hsin) hcos
    _ ≤ phase_speed Libm.real (spec.freq i) := hspeed

/-- The default parameters and a storm, against which the waves of the first bin run. -/
theorem swell_only_decays_headwind :
    let spec := run Libm.real (created 35 36 0.04 fun _ _ => 1) ⟨30, 0, 1.225, 1025⟩
      (⟨32, 5.7e-7, 8.0e-6, 4, 4, 0.001225, 1, 0.0001⟩ : ST6Params ℝ) .EULER_FORWARD 60
    Antitone (fun n => (spec n).energy 0 0) := by
  apply (swell_only_decays _ .EULER_FORWARD (by norm_num) (fun _ _ _ _ => zero_le_one)
    ⟨by norm_num, by norm_num⟩ (by norm_num) (by decide) (by norm_num) ?_).1
  have hcos : Real.cos ((created 35 36 0.04 fun _ _ => 1).dir 0 - 0) = -1 := by
    simp [created, spectrum_create, Libm.real]
  have hfreq : (0 : ℝ) ≤ (created 35 36 0.04 fun _ _ => 1).freq 0 := by
    simp only [created, spectrum_create, Libm.real]
    positivity
  apply outruns_of_headwind (by norm_num) (by norm_num) (by norm_num) (by norm_num) hfreq
  exact hcos.trans_le (by norm_num)

end OtusCProg.PointWaveModel
