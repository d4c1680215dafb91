import OtusCProg.PointWaveModel.Decay

/-!
# The reduction of the wind input

Every turn of the search computes the factors of a positive `Rtau`. The factors
of such an `Rtau` fall with the frequency, stay above zero, and are 1 where
the waves are as fast as the scaled wind.
-/

namespace OtusCProg.PointWaveModel
open Finset

def st6_params_default {R : Type*} [Field R] : ST6Params R where
  sin6ws := 32.0
  a1 := 5.7e-7
  a2 := 8.0e-6
  L := 4.0
  M := 4.0
  Bnt := 0.001225
  norm_type := 1
  z0 := 0.0001

section Factors
variable {R : Type*} [Field R] [LinearOrder R] {m : Libm R} {t : Stress R} {s : Search R}

/-- The factors that a turn of the search computes from `Rtau`. -/
def Stress.factors (m : Libm R) (t : Stress R) (Rtau : R) (i : ℕ) : R :=
  min (m.exp (t.ucinv10 i * Rtau)) 1.0

/-- The excess with the factors of `Rtau`. -/
def Stress.err (m : Libm R) (t : Stress R) (Rtau : R) : R := t.excess m (t.factors m Rtau)

/-- The excess of the input as it came. -/
def Stress.err_init (m : Libm R) (t : Stress R) : R :=
  norm_stress_excess m t.S_x10 t.S_y10 t.cinv10 t.dsii10 t.nk10 t.rho_water t.g t.tau_v_x t.tau_v_y
    t.tau_tot

/-- `sign_new`: up while the excess is positive. -/
def sign_new (err : R) : ℤ := if 0 < err then 1 else -1

/-- `dRtau` behind its update. -/
def dRtau_new (overshot : Bool) (dRtau : R) : R :=
  if overshot then max (0.5 * (1.0 + dRtau)) 1.0001 else dRtau

/-- `overshot` behind its update. -/
def Search.overshot_new (s : Search R) (err : R) : Bool := s.overshot || sign_new err != s.sign_old

/-- What a turn makes of the variables of the search. -/
def Search.next (m : Libm R) (t : Stress R) (s : Search R) : Search R :=
  let err := t.err m s.Rtau
  let overshot := s.overshot_new err
  { Rtau := s.Rtau * dRtau_new overshot s.dRtau ^ sign_new err
    dRtau := dRtau_new overshot s.dRtau
    sign_old := sign_new err
    overshot := overshot
    lfact10 := t.factors m s.Rtau }

theorem search_in_succ (turn : ℕ → Bool) (n : ℕ) : search_in m turn t (n + 1) s =
    if turn n then
      if |t.err m s.Rtau| < 1.5e-4 then s.next m t else search_in m turn t n (s.next m t)
    else { s with lfact10 := t.factors m s.Rtau } := by
  have hfound : (search_turn m t s).2 = decide (|t.err m s.Rtau| < 1.5e-4) := rfl
  have hnext : (search_turn m t s).1 = s.next m t := rfl
  have hturn : search_in m turn t (n + 1) s =
      if turn n then
        if (search_turn m t s).2 then (search_turn m t s).1
        else search_in m turn t n (search_turn m t s).1
      else { s with lfact10 := t.factors m s.Rtau } := rfl
  rw [hturn, hfound, hnext]
  simp only [decide_eq_true_eq]

theorem search_succ (n : ℕ) : search m t (n + 1) s =
    if |t.err m s.Rtau| < 1.5e-4 then s.next m t else search m t n (s.next m t) := by
  rw [search, search_in_succ, if_pos rfl]

/-- What the search begins with. -/
def Search.first (err_init : R) : Search R :=
  ⟨err_init / 90.0, 2.0, sign_new err_init, false, fun _ => 1.0⟩

theorem apply_stress_constraint2_in_eq (mem : Memory) (spec : Spectrum R) (wind : WindForcing R)
    (params : ST6Params R) (dS_in : ℕ → ℕ → R) :
    apply_stress_constraint2_in m spec wind params mem dS_in =
      if mem.sums && mem.grid then
        let t := initial_stress m spec wind params dS_in
        if 0 < t.err_init m then
          fun i j => dS_in i j * (search_in m mem.turn t 80 (Search.first (t.err_init m))).lfact10 i
        else dS_in
      else dS_in :=
  rfl

theorem apply_stress_constraint2_eq (spec : Spectrum R) (wind : WindForcing R)
    (params : ST6Params R) (dS_in : ℕ → ℕ → R) :
    apply_stress_constraint2 m spec wind params dS_in =
      let t := initial_stress m spec wind params dS_in
      if 0 < t.err_init m then
        fun i j => dS_in i j * (search m t 80 (Search.first (t.err_init m))).lfact10 i
      else dS_in :=
  rfl

/-- The steps of a search that is under way are positive. -/
structure Search.Positive (s : Search R) : Prop where
  Rtau_pos : 0 < s.Rtau
  dRtau_pos : 0 < s.dRtau

variable [IsStrictOrderedRing R]

theorem dRtau_new_pos {overshot : Bool} {dRtau : R} (h : 0 < dRtau) :
    0 < dRtau_new overshot dRtau := by
  unfold dRtau_new
  split
  · exact lt_max_of_lt_right (by norm_num)
  · exact h

theorem Search.Positive.first {err_init : R} (h : 0 < err_init) :
    (Search.first err_init).Positive :=
  ⟨div_pos h (by norm_num), by norm_num [Search.first]⟩

/-- A turn multiplies or divides `Rtau` by something positive. -/
theorem Search.Positive.next (h : s.Positive) : (s.next m t).Positive := by
  have hstep : 0 < dRtau_new (s.overshot_new (t.err m s.Rtau)) s.dRtau := dRtau_new_pos h.dRtau_pos
  exact ⟨mul_pos h.Rtau_pos (zpow_pos hstep _), hstep⟩

/-- A search that begins a turn leaves the factors of a positive `Rtau`, whatever memory it gets. -/
theorem search_in_factors (turn : ℕ → Bool) (h : s.Positive) (n : ℕ) :
    ∃ Rtau, 0 < Rtau ∧ (search_in m turn t (n + 1) s).lfact10 = t.factors m Rtau := by
  induction n generalizing s with
  | zero =>
      refine ⟨s.Rtau, h.Rtau_pos, ?_⟩
      rw [search_in_succ]
      split
      · split <;> rfl
      · rfl
  | succ n ih =>
      rw [search_in_succ]
      split
      · split
        · exact ⟨s.Rtau, h.Rtau_pos, rfl⟩
        · exact ih h.next
      · exact ⟨s.Rtau, h.Rtau_pos, rfl⟩

/-- The constraint leaves the input alone or multiplies it by the factors of a positive `Rtau`. -/
theorem apply_stress_constraint2_in_cases (mem : Memory) (spec : Spectrum R) (wind : WindForcing R)
    (params : ST6Params R) (dS_in : ℕ → ℕ → R) :
    apply_stress_constraint2_in m spec wind params mem dS_in = dS_in ∨
      ∃ Rtau, 0 < Rtau ∧ ∀ i j, apply_stress_constraint2_in m spec wind params mem dS_in i j =
        dS_in i j * (initial_stress m spec wind params dS_in).factors m Rtau i := by
  rw [apply_stress_constraint2_in_eq]
  dsimp only
  split
  · split
    · rename_i herr
      obtain ⟨Rtau, hpos, hfactors⟩ := search_in_factors (m := m)
        (t := initial_stress m spec wind params dS_in) mem.turn (Search.Positive.first herr) 79
      refine Or.inr ⟨Rtau, hpos, ?_⟩
      intro i j
      rw [hfactors]
    · exact Or.inl rfl
  · exact Or.inl rfl

end Factors

section Reduction
variable {u_scaled Rtau : ℝ}

/-- The factor at the frequency `f`. -/
noncomputable def reduction (u_scaled Rtau f : ℝ) : ℝ :=
  min (Real.exp ((1 - u_scaled / phase_speed Libm.real f) * Rtau)) 1

theorem reduction_pos (f : ℝ) : 0 < reduction u_scaled Rtau f :=
  lt_min (Real.exp_pos _) one_pos

theorem reduction_le_one (f : ℝ) : reduction u_scaled Rtau f ≤ 1 := min_le_right ..

theorem reduction_antitone (hscaled : 0 ≤ u_scaled) (hRtau : 0 < Rtau) :
    Antitone (reduction u_scaled Rtau) := by
  have hinverse : ∀ f, u_scaled / phase_speed Libm.real f = u_scaled * (2.0 * Real.pi * f) / G := by
    intro f
    exact div_div_eq_mul_div ..
  have hG : (0 : ℝ) < G := by norm_num [G]
  intro f f' hle
  apply min_le_min_right
  apply Real.exp_le_exp.mpr
  apply mul_le_mul_of_nonneg_right _ hRtau.le
  apply sub_le_sub_left
  rw [hinverse, hinverse]
  apply div_le_div_of_nonneg_right _ hG.le
  apply mul_le_mul_of_nonneg_left _ hscaled
  exact mul_le_mul_of_nonneg_left hle (mul_nonneg (by norm_num) Real.pi_pos.le)

/-- Where the waves are as fast as the scaled wind nothing is taken away. -/
theorem reduction_eq_one (hscaled : 0 ≤ u_scaled) (hRtau : 0 < Rtau) {f : ℝ}
    (hfast : u_scaled ≤ phase_speed Libm.real f) : reduction u_scaled Rtau f = 1 := by
  have hratio : u_scaled / phase_speed Libm.real f ≤ 1 :=
    div_le_one_of_le₀ hfast (hscaled.trans hfast)
  apply min_eq_right
  apply Real.one_le_exp
  exact mul_nonneg (sub_nonneg.mpr hratio) hRtau.le

end Reduction

section Input
variable {spec : Spectrum ℝ} {wind : WindForcing ℝ} {params : ST6Params ℝ} {i j : ℕ}

/-- A wind that blows, and parameters in their range. -/
structure Windy (wind : WindForcing ℝ) (params : ST6Params ℝ) : Prop where
  u10_pos : 0 < wind.u10
  rho_air_pos : 0 < wind.rho_air
  rho_water_pos : 0 < wind.rho_water
  sin6ws_nonneg : 0 ≤ params.sin6ws
  z0_pos : 0 < params.z0
  z0_lt : params.z0 < 10

theorem Windy.friction_velocity_pos (h : Windy wind params) :
    0 < friction_velocity Libm.real wind.u10 params.z0 := by
  apply div_pos
  · exact mul_pos h.u10_pos (by norm_num [VON_KARMAN])
  · exact Real.log_pos (one_lt_height_ratio h.z0_pos h.z0_lt)

/-- The sheltering is at least 0.8, so that no bin gives energy to the wind. -/
theorem wind_input_nonneg (h : Windy wind params) (henergy : 0 ≤ spec.energy i j) :
    0 ≤ wind_input Libm.real spec wind params i j := by
  have hzero : (0 : ℝ) ≤ 0.0 := by norm_num
  dsimp only [wind_input]
  split
  · exact hzero
  · rename_i hc
    split
    · exact hzero
    · split
      · exact hzero
      · have hsigma : 0 ≤ 2.0 * Real.pi * spec.freq i := by
          have hspeed : 0.1 ≤ G / (2.0 * Real.pi * spec.freq i) := not_lt.mp hc
          have hpos : 0 < G / (2.0 * Real.pi * spec.freq i) := lt_of_lt_of_le (by norm_num) hspeed
          have hG : (0 : ℝ) < G := by norm_num [G]
          exact ((div_pos_iff_of_pos_left hG).mp hpos).le
        have hroot : ∀ x : ℝ, 0 ≤ max x 1e-10 := fun x => le_max_of_le_right (by norm_num)
        have hforcing : ∀ x : ℝ, 0 ≤ if 0.0 < x then x * x else 0.0 := by
          intro x
          split
          · exact mul_self_nonneg x
          · exact hzero
        have hshelter : ∀ x, 0 ≤ 2.8 - (1.0 + Real.tanh x) := by
          intro x
          have htanh := Real.tanh_lt_one x
          norm_num
          linarith
        apply mul_nonneg _ henergy
        apply mul_nonneg _ (div_nonneg h.rho_air_pos.le h.rho_water_pos.le)
        apply mul_nonneg _ hsigma
        exact mul_nonneg (mul_nonneg (hshelter _) (hroot _)) (hforcing _)

end Input

section Created
variable {nfreq : ℤ} {ndir : ℕ} {f_min : ℝ} {energy : ℕ → ℕ → ℝ} {wind : WindForcing ℝ}
  {params : ST6Params ℝ}

/-- The factors on the grid are those of its frequencies. -/
theorem factors_eq_reduction (dS_in : ℕ → ℕ → ℝ) (Rtau : ℝ) (i : ℕ) :
    (initial_stress Libm.real (created nfreq ndir f_min energy) wind params dS_in).factors
        Libm.real Rtau i =
      reduction (params.sin6ws * friction_velocity Libm.real wind.u10 params.z0) Rtau
        ((created nfreq ndir f_min energy).freq i) := by
  have hone : (1.0 : ℝ) = 1 := by norm_num
  have hfirst : f_min * XFR ^ 0 = f_min := by rw [pow_zero, mul_one]
  simp only [Stress.factors, initial_stress, created, spectrum_create, hfirst, hone]
  rw [mul_one_div]
  rfl

/-- Every bin is multiplied by a factor of its frequency between 0 and 1, which falls with the
frequency and is 1 where the waves are as fast as the scaled wind; so it stays between 0 and the
input before the constraint. This is so whichever allocations succeed. -/
theorem constraint_only_reduces (nfreq : ℤ) (f_min : ℝ) (mem : Memory) (h : Windy wind params)
    (henergy : ∀ i < (created nfreq ndir f_min energy).nfreq, ∀ j < ndir, 0 ≤ energy i j) :
    let spec := created nfreq ndir f_min energy
    (∃ L : ℝ → ℝ, (∀ f, 0 < L f ∧ L f ≤ 1) ∧ Antitone L ∧
        (∀ f, params.sin6ws * friction_velocity Libm.real wind.u10 params.z0
          ≤ phase_speed Libm.real f → L f = 1) ∧
        ∀ i < spec.nfreq, ∀ j < ndir, source_term_wind_input_in Libm.real spec wind params mem i j =
          wind_input Libm.real spec wind params i j * L (spec.freq i)) ∧
      ∀ i < spec.nfreq, ∀ j < ndir, 0 ≤ source_term_wind_input_in Libm.real spec wind params mem i j ∧
        source_term_wind_input_in Libm.real spec wind params mem i j ≤
          wind_input Libm.real spec wind params i j := by
  intro spec
  have hfactor : ∃ L : ℝ → ℝ, (∀ f, 0 < L f ∧ L f ≤ 1) ∧ Antitone L ∧
      (∀ f, params.sin6ws * friction_velocity Libm.real wind.u10 params.z0
        ≤ phase_speed Libm.real f → L f = 1) ∧
      ∀ i < spec.nfreq, ∀ j < ndir, source_term_wind_input_in Libm.real spec wind params mem i j =
        wind_input Libm.real spec wind params i j * L (spec.freq i) := by
    rcases apply_stress_constraint2_in_cases mem spec wind params (wind_input Libm.real spec wind params)
      with hsame | ⟨Rtau, hRtau, hscaled⟩
    · refine ⟨fun _ => 1, fun _ => ⟨one_pos, le_rfl⟩, antitone_const, fun _ _ => rfl, ?_⟩
      intro i _ j _
      rw [source_term_wind_input_in, hsame, mul_one]
    · have hwind : 0 ≤ params.sin6ws * friction_velocity Libm.real wind.u10 params.z0 :=
        mul_nonneg h.sin6ws_nonneg h.friction_velocity_pos.le
      refine ⟨reduction _ Rtau, fun f => ⟨reduction_pos f, reduction_le_one f⟩,
        reduction_antitone hwind hRtau, fun f hfast => reduction_eq_one hwind hRtau hfast, ?_⟩
      intro i _ j _
      rw [source_term_wind_input_in, hscaled, factors_eq_reduction]
  refine ⟨hfactor, ?_⟩
  obtain ⟨L, hL, _, _, hinput⟩ := hfactor
  intro i hi j hj
  have hnonneg : 0 ≤ wind_input Libm.real spec wind params i j :=
    wind_input_nonneg h (henergy i hi j hj)
  rw [hinput i hi j hj]
  exact ⟨mul_nonneg hnonneg (hL _).1.le, mul_le_of_le_one_right hnonneg (hL _).2⟩

/-- The wind of `main` on a flat spectrum, with memory for the first seven turns. -/
theorem constraint_only_reduces_main :
    let spec := created 34 36 0.04 fun _ _ => 1
    let mem : Memory := ⟨true, true, fun n => 73 ≤ n⟩
    (∃ L : ℝ → ℝ, (∀ f, 0 < L f ∧ L f ≤ 1) ∧ Antitone L ∧
        (∀ f, st6_params_default.sin6ws * friction_velocity Libm.real 15 st6_params_default.z0
          ≤ phase_speed Libm.real f → L f = 1) ∧
        ∀ i < spec.nfreq, ∀ j < 36,
          source_term_wind_input_in Libm.real spec ⟨15, 0, 1.225, 1025⟩ st6_params_default mem i j =
            wind_input Libm.real spec ⟨15, 0, 1.225, 1025⟩ st6_params_default i j * L (spec.freq i)) ∧
      ∀ i < spec.nfreq, ∀ j < 36,
        0 ≤ source_term_wind_input_in Libm.real spec ⟨15, 0, 1.225, 1025⟩ st6_params_default mem i j ∧
          source_term_wind_input_in Libm.real spec ⟨15, 0, 1.225, 1025⟩ st6_params_default mem i j ≤
            wind_input Libm.real spec ⟨15, 0, 1.225, 1025⟩ st6_params_default i j := by
  intro spec mem
  have hwindy : Windy ⟨15, 0, 1.225, 1025⟩ st6_params_default := by
    constructor <;> norm_num [st6_params_default]
  exact constraint_only_reduces 34 0.04 mem hwindy fun _ _ _ _ => zero_le_one

end Created

end OtusCProg.PointWaveModel
