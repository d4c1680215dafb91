import OtusCProg.PointWaveModel.Decay

/-!
# The initial spectrum

`spectrum_init_jonswap` scales a shape to the energy of the requested wave
height. The shape has energy in the directions less than a right angle away
from zero; with a single direction, which is opposite, there is none.
-/

namespace OtusCProg.PointWaveModel
open Finset

section Init
variable {R : Type*} [Field R] [LinearOrder R] (m : Libm R)

/-- `E_f` at the frequency `f`. -/
def jonswap (fp gamma f : R) : R :=
  let alpha_phillips := 0.0081
  let sigma_a := 0.07
  let sigma_b := 0.09
  let g := 9.81
  let r := f / fp
  let sigma := if f ≤ fp then sigma_a else sigma_b
  let exp_arg := -(r - 1.0) * (r - 1.0) / (2.0 * sigma * sigma)
  let gamma_factor := m.pow gamma (m.exp exp_arg)
  alpha_phillips * g * g * (2.0 * m.M_PI) ^ (-4 : ℤ) * f ^ (-5 : ℤ) *
    m.exp (-1.25 * r ^ (-4 : ℤ)) * gamma_factor

/-- `dir_dist` in the direction `theta`. -/
def dir_dist (theta : R) : R :=
  if |theta| ≤ m.M_PI / 2.0 then 2.0 / m.M_PI * m.cos theta ^ 2 else 0.0

/-- The spectrum before it is scaled. -/
def jonswap_shape (spec : Spectrum R) (fp gamma : R) : Spectrum R :=
  { spec with
    energy := fun i j =>
      let f := spec.freq i
      if f ≤ 0.0 then spec.energy i j else jonswap m fp gamma f * dir_dist m (spec.dir j) }

/-- `E_total`, in `spectrum_init_jonswap` as in `spectrum_Hs`. -/
def Spectrum.E_total (spec : Spectrum R) : R :=
  ∑ i ∈ range spec.nfreq, spec.sum_dir i * spec.dtheta * spec.dsii i

/-- The loop that multiplies the energies by `scale`. -/
def Spectrum.scaled (spec : Spectrum R) (scale : R) : Spectrum R :=
  { spec with energy := fun i j => spec.energy i j * scale }

/-- No result where the scale would be a quotient by zero. -/
def spectrum_init_jonswap (spec : Spectrum R) (Hs fp gamma : R) : Option (Spectrum R) :=
  let spec := jonswap_shape m spec fp gamma
  let E_total := spec.E_total
  if E_total = 0 then none
  else
    let target_E := (Hs / 4.0) * (Hs / 4.0)
    let scale := target_E / E_total
    some (spectrum_update_peak (spec.scaled scale))

/-- What is asked of an initial spectrum: the wave height, and a peak at a frequency where the
energy of all directions together is greatest. -/
structure Requested (spec : Spectrum R) (Hs : R) : Prop where
  energy_nonneg : ∀ i < spec.nfreq, ∀ j < spec.ndir, 0 ≤ spec.energy i j
  height : spectrum_Hs m spec = Hs
  peak : ∃ k < spec.nfreq, spec.peak_freq = spec.freq k ∧
    ∀ i < spec.nfreq, spec.sum_dir i * spec.dtheta ≤ spec.sum_dir k * spec.dtheta

end Init

section Peak
variable {R : Type*} [Field R] [LinearOrder R] [IsStrictOrderedRing R] {spec : Spectrum R}

/-- The scan of `spectrum_update_peak` over the first `n` frequencies. -/
def peak_scan (x freq : ℕ → R) (n : ℕ) : R × R :=
  (List.range n).foldl (fun (max_E, f_peak) i =>
    if max_E < x i then (x i, freq i) else (max_E, f_peak)) ((0.0 : R), freq 0)

omit [IsStrictOrderedRing R] in
theorem peak_scan_succ (x freq : ℕ → R) (n : ℕ) : peak_scan x freq (n + 1) =
    if (peak_scan x freq n).1 < x n then (x n, freq n) else peak_scan x freq n := by
  rw [peak_scan, List.range_succ, List.foldl_concat]
  rfl

omit [IsStrictOrderedRing R] in
/-- The scan holds the greatest value so far and its frequency, or what it began with. -/
theorem peak_scan_spec (x freq : ℕ → R) (n : ℕ) :
    (∀ i < n, x i ≤ (peak_scan x freq n).1) ∧
      (peak_scan x freq n = (0.0, freq 0) ∨ ∃ k < n, peak_scan x freq n = (x k, freq k)) := by
  induction n with
  | zero => exact ⟨fun i hi => absurd hi (Nat.not_lt_zero i), Or.inl rfl⟩
  | succ n ih =>
      obtain ⟨hgreatest, hfound⟩ := ih
      rw [peak_scan_succ]
      split
      · rename_i hlt
        refine ⟨?_, Or.inr ⟨n, Nat.lt_succ_self n, rfl⟩⟩
        intro i hi
        rcases Nat.lt_succ_iff_lt_or_eq.mp hi with hlast | rfl
        · exact (hgreatest i hlast).trans hlt.le
        · exact le_rfl
      · rename_i hle
        constructor
        · intro i hi
          rcases Nat.lt_succ_iff_lt_or_eq.mp hi with hlast | rfl
          · exact hgreatest i hlast
          · exact not_lt.mp hle
        · apply hfound.imp_right
          rintro ⟨k, hk, hpeak⟩
          exact ⟨k, Nat.lt_succ_of_lt hk, hpeak⟩

/-- `spectrum_update_peak` finds a frequency of greatest energy, where no energy is negative. -/
theorem spectrum_update_peak_spec (hnfreq : 0 < spec.nfreq)
    (hnonneg : ∀ i < spec.nfreq, 0 ≤ spec.sum_dir i * spec.dtheta) :
    ∃ k < spec.nfreq, (spectrum_update_peak spec).peak_freq = spec.freq k ∧
      ∀ i < spec.nfreq, spec.sum_dir i * spec.dtheta ≤ spec.sum_dir k * spec.dtheta := by
  obtain ⟨hgreatest, hfound⟩ :=
    peak_scan_spec (fun i => spec.sum_dir i * spec.dtheta) spec.freq spec.nfreq
  rcases hfound with hfirst | ⟨k, hk, hpeak⟩
  · refine ⟨0, hnfreq, congrArg Prod.snd hfirst, ?_⟩
    intro i hi
    rw [hfirst] at hgreatest
    have hzero : (0.0 : R) = 0 := by norm_num
    exact ((hgreatest i hi).trans_eq hzero).trans (hnonneg 0 hnfreq)
  · refine ⟨k, hk, congrArg Prod.snd hpeak, ?_⟩
    intro i hi
    rw [hpeak] at hgreatest
    exact hgreatest i hi

end Peak

section Real
variable {nfreq : ℤ} {ndir : ℕ} {f_min fp gamma Hs : ℝ} {i j : ℕ}

theorem jonswap_pos {f : ℝ} (hf : 0 < f) (hgamma : 0 < gamma) :
    0 < jonswap Libm.real fp gamma f := by
  have hpi : 0 < 2.0 * Real.pi := mul_pos (by norm_num) Real.pi_pos
  have hscale : (0 : ℝ) < 0.0081 * 9.81 * 9.81 := by norm_num
  apply mul_pos
  · apply mul_pos
    · exact mul_pos (mul_pos hscale (zpow_pos hpi _)) (zpow_pos hf _)
    · exact Real.exp_pos _
  · exact Real.rpow_pos_of_pos hgamma _

theorem dir_dist_nonneg (theta : ℝ) : 0 ≤ dir_dist Libm.real theta := by
  unfold dir_dist
  split
  · apply mul_nonneg
    · exact div_nonneg (by norm_num) Real.pi_pos.le
    · exact sq_nonneg _
  · norm_num

/-- The shape has energy in the directions less than a right angle away from zero. -/
theorem dir_dist_pos {theta : ℝ} (h : |theta| < Real.pi / 2) : 0 < dir_dist Libm.real theta := by
  have hcos : 0 < Real.cos theta := Real.cos_pos_of_mem_Ioo (abs_lt.mp h)
  have hle : |theta| ≤ Libm.real.M_PI / 2.0 := by
    norm_num [Libm.real]
    exact h.le
  unfold dir_dist
  rw [if_pos hle]
  exact mul_pos (div_pos (by norm_num) Real.pi_pos) (pow_pos hcos 2)

/-- From two directions on one of them is less than a right angle away from zero. -/
theorem exists_dir_lt (nfreq : ℤ) (f_min : ℝ) (h : 2 ≤ ndir) :
    ∃ j < ndir, |(spectrum_create Libm.real nfreq ndir f_min).dir j| < Real.pi / 2 := by
  refine ⟨ndir / 2, Nat.div_lt_self (by omega) one_lt_two, ?_⟩
  have hpi := Real.pi_pos
  have hndir : (0 : ℝ) < ndir := Nat.cast_pos.mpr (by omega)
  have hle : ((ndir / 2 : ℕ) : ℝ) * 2 ≤ ndir := by
    exact_mod_cast Nat.div_mul_le_self ndir 2
  have hlt : (ndir : ℝ) < 4 * ((ndir / 2 : ℕ) : ℝ) := by
    exact_mod_cast (by omega : ndir < 4 * (ndir / 2))
  have hdir : (spectrum_create Libm.real nfreq ndir f_min).dir (ndir / 2)
      = Real.pi * (((ndir / 2 : ℕ) : ℝ) * 2 / ndir - 1) := by
    have htwo : (2.0 : ℝ) = 2 := by norm_num
    simp only [spectrum_create, Libm.real, htwo]
    field_simp
    ring
  have hupper : ((ndir / 2 : ℕ) : ℝ) * 2 / ndir ≤ 1 := (div_le_one hndir).mpr hle
  have hlower : 1 / 2 < ((ndir / 2 : ℕ) : ℝ) * 2 / ndir := by
    rw [div_lt_div_iff₀ two_pos hndir]
    linarith
  rw [hdir, abs_lt]
  constructor <;> nlinarith

/-- The only direction there is with `ndir` 1. -/
theorem dir_dist_single : dir_dist Libm.real ((spectrum_create Libm.real nfreq 1 f_min).dir 0) = 0 := by
  have hpi := Real.pi_pos
  have hdir : (spectrum_create Libm.real nfreq 1 f_min).dir 0 = -Real.pi := by
    simp [spectrum_create, Libm.real]
  rw [hdir, dir_dist, if_neg]
  · norm_num
  · rw [abs_neg, abs_of_pos hpi]
    norm_num [Libm.real]
    linarith

/-! ## The scaled spectrum -/

/-- The spectrum of `spectrum_create`, with the shape in it. -/
noncomputable def shaped (nfreq : ℤ) (ndir : ℕ) (f_min fp gamma : ℝ) : Spectrum ℝ :=
  jonswap_shape Libm.real (spectrum_create Libm.real nfreq ndir f_min) fp gamma

theorem shaped_energy (hf : 0 < f_min) : (shaped nfreq ndir f_min fp gamma).energy i j =
    jonswap Libm.real fp gamma (f_min * XFR ^ i) *
      dir_dist Libm.real ((spectrum_create Libm.real nfreq ndir f_min).dir j) := by
  have hfreq : 0 < f_min * XFR ^ i := mul_pos hf (pow_pos (by norm_num [XFR]) i)
  have hneg : ¬f_min * XFR ^ i ≤ 0.0 := by
    norm_num
    exact hfreq
  exact if_neg hneg

theorem shaped_energy_nonneg (hf : 0 < f_min) (hgamma : 0 < gamma) :
    0 ≤ (shaped nfreq ndir f_min fp gamma).energy i j := by
  rw [shaped_energy hf]
  apply mul_nonneg _ (dir_dist_nonneg _)
  exact (jonswap_pos (mul_pos hf (pow_pos (by norm_num [XFR]) i)) hgamma).le

theorem shaped_wellFormed (hf : 0 < f_min) (hgamma : 0 < gamma) :
    (shaped nfreq ndir f_min fp gamma).WellFormed :=
  spectrum_create_wellFormed lawful_real nfreq ndir hf
    fun _ _ _ _ => shaped_energy_nonneg hf hgamma

theorem shaped_nfreq_pos : 0 < (shaped nfreq ndir f_min fp gamma).nfreq := by
  simp only [shaped, jonswap_shape, spectrum_create]
  split <;> omega

/-- With a single direction there is no energy to scale. -/
theorem E_total_single (hf : 0 < f_min) : (shaped nfreq 1 f_min fp gamma).E_total = 0 := by
  apply sum_eq_zero
  intro i _
  have hrow : (shaped nfreq 1 f_min fp gamma).sum_dir i = 0 := by
    have hndir : (shaped nfreq 1 f_min fp gamma).ndir = 1 := rfl
    rw [Spectrum.sum_dir, hndir, sum_range_one, shaped_energy hf, dir_dist_single, mul_zero]
  rw [hrow, zero_mul, zero_mul]

/-- With more of them there is. -/
theorem E_total_pos (hndir : 2 ≤ ndir) (hf : 0 < f_min) (hgamma : 0 < gamma) :
    0 < (shaped nfreq ndir f_min fp gamma).E_total := by
  have hspec : (shaped nfreq ndir f_min fp gamma).WellFormed := shaped_wellFormed hf hgamma
  have hrow : 0 < (shaped nfreq ndir f_min fp gamma).sum_dir 0 := by
    obtain ⟨j, hj, hdir⟩ := exists_dir_lt nfreq f_min hndir
    apply sum_pos'
    · intro j _
      exact shaped_energy_nonneg hf hgamma
    · refine ⟨j, mem_range.mpr hj, ?_⟩
      rw [shaped_energy hf]
      exact mul_pos (jonswap_pos (mul_pos hf (by norm_num [XFR])) hgamma) (dir_dist_pos hdir)
  have hdtheta : 0 < (shaped nfreq ndir f_min fp gamma).dtheta := by
    apply div_pos
    · exact mul_pos (by norm_num) Real.pi_pos
    · exact Nat.cast_pos.mpr (by omega)
  have hdsii : 0 < (shaped nfreq ndir f_min fp gamma).dsii 0 := by
    simp only [shaped, jonswap_shape, spectrum_create, bandwidth, if_pos, XFR]
    norm_num
    linarith
  apply sum_pos'
  · intro i hi
    apply mul_nonneg _ (hspec.dsii_nonneg i (mem_range.mp hi))
    apply mul_nonneg _ hspec.dtheta_nonneg
    exact sum_nonneg fun j _ => shaped_energy_nonneg hf hgamma
  · exact ⟨0, mem_range.mpr shaped_nfreq_pos, mul_pos (mul_pos hrow hdtheta) hdsii⟩

theorem E_total_scaled (spec : Spectrum ℝ) (scale : ℝ) :
    (spec.scaled scale).E_total = spec.E_total * scale := by
  rw [Spectrum.E_total, Spectrum.E_total, sum_mul]
  apply sum_congr rfl
  intro i _
  have hrow : (spec.scaled scale).sum_dir i = spec.sum_dir i * scale := (sum_mul ..).symm
  calc
    (spec.scaled scale).sum_dir i * spec.dtheta * spec.dsii i
        = spec.sum_dir i * scale * spec.dtheta * spec.dsii i := by rw [hrow]
    _ = spec.sum_dir i * spec.dtheta * spec.dsii i * scale := by ring

/-- A spectrum with some energy is scaled to any wave height. -/
theorem requested_of_scale {spec : Spectrum ℝ} (hspec : spec.WellFormed) (hnfreq : 0 < spec.nfreq)
    (htotal : 0 < spec.E_total) (hHs : 0 ≤ Hs) :
    Requested Libm.real
      (spectrum_update_peak (spec.scaled (Hs / 4.0 * (Hs / 4.0) / spec.E_total))) Hs := by
  have hscale : 0 ≤ Hs / 4.0 * (Hs / 4.0) / spec.E_total :=
    div_nonneg (mul_self_nonneg _) htotal.le
  generalize hvalue : Hs / 4.0 * (Hs / 4.0) / spec.E_total = scale at hscale ⊢
  have henergy : ∀ i < spec.nfreq, ∀ j < spec.ndir, 0 ≤ spec.energy i j * scale := by
    intro i hi j hj
    exact mul_nonneg (hspec.energy_nonneg i hi j hj) hscale
  constructor
  · exact henergy
  · calc
      4.0 * √(spec.scaled scale).E_total = 4.0 * √(Hs / 4.0 * (Hs / 4.0)) := by
        rw [E_total_scaled, ← hvalue, mul_div_cancel₀ _ htotal.ne']
      _ = 4.0 * (Hs / 4.0) := by
        rw [Real.sqrt_mul_self (div_nonneg hHs (by norm_num))]
      _ = Hs := mul_div_cancel₀ Hs (by norm_num)
  · have hrow : ∀ i < spec.nfreq, 0 ≤ (spec.scaled scale).sum_dir i * spec.dtheta := by
      intro i hi
      apply mul_nonneg _ hspec.dtheta_nonneg
      exact sum_nonneg fun j hj => henergy i hi j (mem_range.mp hj)
    have hpeak : ∃ k < (spec.scaled scale).nfreq, _ := spectrum_update_peak_spec hnfreq hrow
    exact hpeak

/-- The initial spectrum is the requested one for every number of directions but one. -/
theorem init_jonswap_requested_iff (nfreq : ℤ) (hndir : 1 ≤ ndir) (hf : 0 < f_min)
    (hgamma : 0 < gamma) (hHs : 0 ≤ Hs) :
    (∃ spec, spectrum_init_jonswap Libm.real (spectrum_create Libm.real nfreq ndir f_min) Hs fp gamma
        = some spec ∧ Requested Libm.real spec Hs) ↔ 2 ≤ ndir := by
  have hinit : spectrum_init_jonswap Libm.real (spectrum_create Libm.real nfreq ndir f_min) Hs fp gamma
      = if (shaped nfreq ndir f_min fp gamma).E_total = 0 then none
        else some (spectrum_update_peak ((shaped nfreq ndir f_min fp gamma).scaled
          (Hs / 4.0 * (Hs / 4.0) / (shaped nfreq ndir f_min fp gamma).E_total))) := rfl
  rw [hinit]
  constructor
  · rintro ⟨spec, hspec, _⟩
    by_contra hone
    obtain rfl : ndir = 1 := by omega
    rw [if_pos (E_total_single hf)] at hspec
    cases hspec
  · intro htwo
    have htotal : 0 < (shaped nfreq ndir f_min fp gamma).E_total := E_total_pos htwo hf hgamma
    rw [if_neg htotal.ne']
    exact ⟨_, rfl, requested_of_scale (shaped_wellFormed hf hgamma) shaped_nfreq_pos htotal hHs⟩

/-- The spectrum that `main` starts from, with 34 frequencies and 36 directions. -/
theorem init_jonswap_requested_main :
    ∃ spec, spectrum_init_jonswap Libm.real (spectrum_create Libm.real 34 36 0.04) 0.5 0.2 3.3
      = some spec ∧ Requested Libm.real spec 0.5 :=
  (init_jonswap_requested_iff 34 (by norm_num) (by norm_num) (by norm_num)
    (by norm_num)).mpr (by norm_num)

/-- With one direction the scale is a quotient by zero. -/
theorem init_jonswap_single :
    ¬∃ spec, spectrum_init_jonswap Libm.real (spectrum_create Libm.real 34 1 0.04) 0.5 0.2 3.3
      = some spec ∧ Requested Libm.real spec 0.5 := by
  have hnone : spectrum_init_jonswap Libm.real (spectrum_create Libm.real 34 1 0.04) 0.5 0.2 3.3
      = none := if_pos (E_total_single (by norm_num))
  rintro ⟨spec, hspec, _⟩
  cases hnone.symm.trans hspec

end Real

end OtusCProg.PointWaveModel
