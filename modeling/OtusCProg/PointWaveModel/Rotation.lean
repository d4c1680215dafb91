import OtusCProg.PointWaveModel.Reduction
import OtusCProg.PointWaveModel.Schedule
import Mathlib.Data.List.Rotate
import Mathlib.Tactic.Ring

/-!
# The model is isotropic

Turning a sea and its wind by the same number of direction bins turns every
state of the run with them. The wind input depends on angles between a bin and
the wind, the stresses turn as vectors, so that the search for the reduction
takes the same turns, and what is left depends on sums over all directions.
-/

namespace OtusCProg.PointWaveModel
open Finset

/-- The laws of `math.h` that the symmetry rests on. -/
structure Libm.Circular {R : Type*} [Field R] [LinearOrder R] (m : Libm R) : Prop where
  cos_sub : ∀ x y, m.cos (x - y) = m.cos x * m.cos y + m.sin x * m.sin y
  sin_sub : ∀ x y, m.sin (x - y) = m.sin x * m.cos y - m.cos x * m.sin y
  sq_add_sq : ∀ x, m.cos x * m.cos x + m.sin x * m.sin x = 1
  cos_period : ∀ x (q : ℕ), m.cos (x + q * (2.0 * m.M_PI)) = m.cos x
  sin_period : ∀ x (q : ℕ), m.sin (x + q * (2.0 * m.M_PI)) = m.sin x

section Shift

/-- The bins of a circle, counted from bin `k` on. -/
theorem range_shift_perm (n k : ℕ) :
    ((List.range n).map fun j => (j + k) % n).Perm (List.range n) := by
  have hrotate : (List.range n).map (fun j => (j + k) % n) = (List.range n).rotate k := by
    apply List.ext_getElem
    · simp
    · intro j _ _
      simp [List.getElem_rotate]
  rw [hrotate]
  exact List.rotate_perm _ _

theorem sum_shift {R : Type*} [AddCommMonoid R] (f : ℕ → R) (n k : ℕ) :
    ∑ j ∈ range n, f ((j + k) % n) = ∑ j ∈ range n, f j := by
  have hperm := (range_shift_perm n k).map f
  rw [List.map_map] at hperm
  exact hperm.sum_eq

variable {R : Type*} [LinearOrder R]

theorem largest_eq_foldl_max (init : R) (x : ℕ → R) (n : ℕ) :
    largest init x n = ((List.range n).map x).foldl max init := by
  rw [largest, List.foldl_map]
  congr 1
  funext a i
  exact (max_def_lt a (x i)).symm

theorem largest_shift (init : R) (x : ℕ → R) (n k : ℕ) :
    largest init (fun j => x ((j + k) % n)) n = largest init x n := by
  have hperm := (range_shift_perm n k).map x
  rw [List.map_map] at hperm
  rw [largest_eq_foldl_max, largest_eq_foldl_max]
  exact hperm.foldl_op_eq

end Shift

variable {R : Type*} [Field R] [LinearOrder R] {m : Libm R}

/-- The sea turned back by `k` bins. -/
def Spectrum.rotate (k : ℕ) (spec : Spectrum R) : Spectrum R :=
  { spec with energy := fun i j => spec.energy i ((j + k) % spec.ndir) }

/-- The wind turned back by an angle. -/
def WindForcing.rotate (angle : R) (wind : WindForcing R) : WindForcing R :=
  { wind with dir := wind.dir - angle }

/-- The stresses turned back by the angle with this cosine and sine. -/
def Stress.rotate (c s : R) (t : Stress R) : Stress R :=
  { t with
    S_x10 := fun i => c * t.S_x10 i + s * t.S_y10 i
    S_y10 := fun i => c * t.S_y10 i - s * t.S_x10 i
    tau_v_x := c * t.tau_v_x + s * t.tau_v_y
    tau_v_y := c * t.tau_v_y - s * t.tau_v_x }

/-- The directions of `spectrum_create`. -/
structure Spectrum.OnCircle (m : Libm R) (spec : Spectrum R) : Prop where
  dir_eq : ∀ j, spec.dir j = -m.M_PI + j * spec.dtheta
  dtheta_eq : spec.dtheta = 2.0 * m.M_PI / spec.ndir

section Sums
variable (spec : Spectrum R) (k : ℕ)

omit [LinearOrder R] in
@[simp] theorem rotate_sum_dir (i : ℕ) : (spec.rotate k).sum_dir i = spec.sum_dir i :=
  sum_shift (spec.energy i) spec.ndir k

omit [LinearOrder R] in
@[simp] theorem rotate_Hs : spectrum_Hs m (spec.rotate k) = spectrum_Hs m spec := by
  simp only [spectrum_Hs, rotate_sum_dir]
  rfl

@[simp] theorem rotate_update_peak :
    spectrum_update_peak (spec.rotate k) = (spectrum_update_peak spec).rotate k := by
  simp only [spectrum_update_peak, rotate_sum_dir]
  rfl

variable (params : ST6Params R)

/-- Breaking depends on the energies of whole circles. -/
theorem rotate_ratio (i : ℕ) : ratio m (spec.rotate k) params i = ratio m spec params i := by
  simp only [ratio, rotate_sum_dir]
  rfl

theorem rotate_accum (i : ℕ) : accum m (spec.rotate k) params i = accum m spec params i := by
  induction i with
  | zero =>
      rw [accum, accum, rotate_ratio]
      rfl
  | succ i ih =>
      rw [accum, accum, rotate_ratio, ih]
      rfl

theorem rotate_dissipation (i j : ℕ) : source_term_dissipation m (spec.rotate k) params i j =
    source_term_dissipation m spec params i ((j + k) % spec.ndir) := by
  simp only [source_term_dissipation, rotate_ratio, rotate_accum]
  rfl

end Sums

section Angles
variable [IsStrictOrderedRing R] {spec : Spectrum R} (k j : ℕ)

/-- Bin `j` lies at the angle of bin `j + k`, turned back, up to full turns. -/
theorem dir_shift (hspec : spec.OnCircle m) : spec.dir j + k * spec.dtheta =
    spec.dir ((j + k) % spec.ndir) + ((j + k) / spec.ndir : ℕ) * (2.0 * m.M_PI) := by
  have hsplit : (j : R) + k = ((j + k) % spec.ndir : ℕ) + spec.ndir * ((j + k) / spec.ndir : ℕ) := by
    have h := congrArg (Nat.cast (R := R)) (Nat.mod_add_div (j + k) spec.ndir)
    push_cast at h ⊢
    exact h.symm
  have hturn : ((j + k) / spec.ndir : ℕ) * (2.0 * m.M_PI) =
      ((j + k) / spec.ndir : ℕ) * (spec.ndir * spec.dtheta) := by
    by_cases hndir : spec.ndir = 0
    · rw [hndir, Nat.div_zero]
      simp
    · rw [hspec.dtheta_eq, mul_div_cancel₀ _ (Nat.cast_ne_zero.mpr hndir)]
  rw [hspec.dir_eq, hspec.dir_eq, hturn]
  linear_combination spec.dtheta * hsplit

theorem cos_dir_shift (hspec : spec.OnCircle m) (hm : m.Circular) (x : R) :
    m.cos (spec.dir j + k * spec.dtheta - x) = m.cos (spec.dir ((j + k) % spec.ndir) - x) := by
  rw [dir_shift k j hspec, add_sub_right_comm, hm.cos_period]

theorem sin_dir_shift (hspec : spec.OnCircle m) (hm : m.Circular) (x : R) :
    m.sin (spec.dir j + k * spec.dtheta - x) = m.sin (spec.dir ((j + k) % spec.ndir) - x) := by
  rw [dir_shift k j hspec, add_sub_right_comm, hm.sin_period]

/-- The direction of a bin of the turned sea, in terms of the bin that it shows. -/
theorem cos_dir_rotate (hspec : spec.OnCircle m) (hm : m.Circular) : m.cos (spec.dir j) =
    m.cos (k * spec.dtheta) * m.cos (spec.dir ((j + k) % spec.ndir)) +
      m.sin (k * spec.dtheta) * m.sin (spec.dir ((j + k) % spec.ndir)) := by
  have h := cos_dir_shift k j hspec hm (k * spec.dtheta)
  rw [add_sub_cancel_right, hm.cos_sub] at h
  rw [h]
  ring

theorem sin_dir_rotate (hspec : spec.OnCircle m) (hm : m.Circular) : m.sin (spec.dir j) =
    m.cos (k * spec.dtheta) * m.sin (spec.dir ((j + k) % spec.ndir)) -
      m.sin (k * spec.dtheta) * m.cos (spec.dir ((j + k) % spec.ndir)) := by
  have h := sin_dir_shift k j hspec hm (k * spec.dtheta)
  rw [add_sub_cancel_right, hm.sin_sub] at h
  rw [h]
  ring

end Angles

section Stress
variable (t : Stress R) {c s : R}

omit [LinearOrder R] in
/-- A stress is linear in the input. -/
theorem integrate_stress_add (X Y cinv dsii : ℕ → R) (n : ℕ) (rho g c s : R) :
    integrate_stress (fun i => c * X i + s * Y i) cinv dsii n rho g =
      c * integrate_stress X cinv dsii n rho g + s * integrate_stress Y cinv dsii n rho g := by
  simp only [integrate_stress, add_mul, sum_add_distrib, mul_assoc, ← mul_sum]

omit [LinearOrder R] in
/-- The norm of the stress does not see the turn. -/
theorem norm_stress_excess_rotate (h : c * c + s * s = 1) (X Y cinv dsii : ℕ → R) (n : ℕ)
    (rho g tau_x tau_y tau_tot : R) :
    norm_stress_excess m (fun i => c * X i + s * Y i) (fun i => c * Y i - s * X i) cinv dsii n rho g
        (c * tau_x + s * tau_y) (c * tau_y - s * tau_x) tau_tot =
      norm_stress_excess m X Y cinv dsii n rho g tau_x tau_y tau_tot := by
  have hy : (fun i => c * Y i - s * X i) = fun i => c * Y i + -s * X i := by
    funext i
    ring
  rw [hy]
  simp only [norm_stress_excess, integrate_stress_add]
  congr 3
  linear_combination
    ((tau_x + integrate_stress X cinv dsii n rho g) ^ 2 +
      (tau_y + integrate_stress Y cinv dsii n rho g) ^ 2) * h

omit [LinearOrder R] in
theorem excess_rotate (h : c * c + s * s = 1) (lfact10 : ℕ → R) :
    (t.rotate c s).excess m lfact10 = t.excess m lfact10 := by
  have hx : (fun i => (t.rotate c s).S_x10 i * lfact10 i) =
      fun i => c * (t.S_x10 i * lfact10 i) + s * (t.S_y10 i * lfact10 i) := by
    funext i
    simp only [Stress.rotate]
    ring
  have hy : (fun i => (t.rotate c s).S_y10 i * lfact10 i) =
      fun i => c * (t.S_y10 i * lfact10 i) - s * (t.S_x10 i * lfact10 i) := by
    funext i
    simp only [Stress.rotate]
    ring
  unfold Stress.excess
  rw [hx, hy]
  exact norm_stress_excess_rotate h ..

omit [LinearOrder R] in
theorem err_init_rotate (h : c * c + s * s = 1) : (t.rotate c s).err_init m = t.err_init m :=
  norm_stress_excess_rotate h ..

/-- The search only looks at the norm. -/
theorem search_in_rotate (turn : ℕ → Bool) (h : c * c + s * s = 1) (iters : ℕ) (start : Search R) :
    search_in m turn (t.rotate c s) iters start = search_in m turn t iters start := by
  have hturn : ∀ s', search_turn m (t.rotate c s) s' = search_turn m t s' := by
    intro s'
    simp only [search_turn, excess_rotate t h]
    rfl
  induction iters generalizing start with
  | zero => rfl
  | succ iters ih =>
      simp only [search_in, hturn, ih]
      rfl

theorem search_rotate (h : c * c + s * s = 1) (iters : ℕ) (start : Search R) :
    search m (t.rotate c s) iters start = search m t iters start :=
  search_in_rotate t _ h iters start

end Stress

section WindInput
variable [IsStrictOrderedRing R] {spec : Spectrum R} (wind : WindForcing R) (params : ST6Params R)
  (k : ℕ)

/-- The `x` component of the turned input at a frequency. -/
theorem input_x_rotate (hspec : spec.OnCircle m) (hm : m.Circular) (S : ℕ → R) :
    (∑ j ∈ range spec.ndir, S ((j + k) % spec.ndir) * m.cos (spec.dir j)) * spec.dtheta =
      m.cos (k * spec.dtheta) *
          ((∑ j ∈ range spec.ndir, S j * m.cos (spec.dir j)) * spec.dtheta) +
        m.sin (k * spec.dtheta) *
          ((∑ j ∈ range spec.ndir, S j * m.sin (spec.dir j)) * spec.dtheta) := by
  have hshift := sum_shift (fun j => S j * (m.cos (k * spec.dtheta) * m.cos (spec.dir j) +
    m.sin (k * spec.dtheta) * m.sin (spec.dir j))) spec.ndir k
  simp only [← cos_dir_rotate k _ hspec hm] at hshift
  rw [hshift]
  simp only [mul_add, sum_add_distrib, mul_left_comm (S _), ← mul_sum]
  ring

/-- The `y` component of the turned input at a frequency. -/
theorem input_y_rotate (hspec : spec.OnCircle m) (hm : m.Circular) (S : ℕ → R) :
    (∑ j ∈ range spec.ndir, S ((j + k) % spec.ndir) * m.sin (spec.dir j)) * spec.dtheta =
      m.cos (k * spec.dtheta) *
          ((∑ j ∈ range spec.ndir, S j * m.sin (spec.dir j)) * spec.dtheta) -
        m.sin (k * spec.dtheta) *
          ((∑ j ∈ range spec.ndir, S j * m.cos (spec.dir j)) * spec.dtheta) := by
  have hshift := sum_shift (fun j => S j * (m.cos (k * spec.dtheta) * m.sin (spec.dir j) -
    m.sin (k * spec.dtheta) * m.cos (spec.dir j))) spec.ndir k
  simp only [← sin_dir_rotate k _ hspec hm] at hshift
  rw [hshift]
  simp only [mul_sub, sum_sub_distrib, mul_left_comm (S _), ← mul_sum]
  ring

omit [LinearOrder R] [IsStrictOrderedRing R] in
/-- The tail behind the last frequency turns with the frequencies in front of it. -/
theorem extrapolate_add (nk : ℕ) (freq10 X Y : ℕ → R) (c s : R) :
    extrapolate nk freq10 (fun i => c * X i + s * Y i) =
      fun i => c * extrapolate nk freq10 X i + s * extrapolate nk freq10 Y i := by
  funext i
  unfold extrapolate
  split
  · rfl
  · ring

omit [LinearOrder R] [IsStrictOrderedRing R] in
theorem extrapolate_sub (nk : ℕ) (freq10 X Y : ℕ → R) (c s : R) :
    extrapolate nk freq10 (fun i => c * X i - s * Y i) =
      fun i => c * extrapolate nk freq10 X i - s * extrapolate nk freq10 Y i := by
  have h := extrapolate_add nk freq10 X Y c (-s)
  simpa only [neg_mul, ← sub_eq_add_neg] using h

/-- The stress of the turned input is the turned stress. -/
theorem initial_stress_rotate (hspec : spec.OnCircle m) (hm : m.Circular) (dS_in : ℕ → ℕ → R) :
    initial_stress m (spec.rotate k) (wind.rotate (k * spec.dtheta)) params
        (fun i j => dS_in i ((j + k) % spec.ndir)) =
      (initial_stress m spec wind params dS_in).rotate (m.cos (k * spec.dtheta))
        (m.sin (k * spec.dtheta)) := by
  have hx := fun i => input_x_rotate k hspec hm (dS_in i)
  have hy := fun i => input_y_rotate k hspec hm (dS_in i)
  simp only [initial_stress, Stress.rotate, Spectrum.rotate, WindForcing.rotate, hx, hy,
    extrapolate_add, extrapolate_sub, Stress.mk.injEq, true_and, and_true]
  refine ⟨?_, ?_⟩
  · rw [hm.cos_sub]
    ring
  · rw [hm.sin_sub]
    ring

/-- The reduction is the same for every direction, so that it turns with the input. -/
theorem apply_stress_constraint2_rotate (hspec : spec.OnCircle m) (hm : m.Circular)
    (dS_in : ℕ → ℕ → R) :
    apply_stress_constraint2 m (spec.rotate k) (wind.rotate (k * spec.dtheta)) params
        (fun i j => dS_in i ((j + k) % spec.ndir)) =
      fun i j => apply_stress_constraint2 m spec wind params dS_in i ((j + k) % spec.ndir) := by
  have hcircle := hm.sq_add_sq (k * spec.dtheta)
  rw [apply_stress_constraint2_eq, apply_stress_constraint2_eq,
    initial_stress_rotate wind params k hspec hm]
  simp only [err_init_rotate _ hcircle, search_rotate _ hcircle]
  split <;> rfl

/-- What a bin takes from the wind depends on its angle to the wind. -/
theorem wind_input_rotate (hspec : spec.OnCircle m) (hm : m.Circular) (i j : ℕ) :
    wind_input m (spec.rotate k) (wind.rotate (k * spec.dtheta)) params i j =
      wind_input m spec wind params i ((j + k) % spec.ndir) := by
  have hangle : spec.dir j - (wind.dir - k * spec.dtheta) =
      spec.dir j + k * spec.dtheta - wind.dir := by ring
  have hlargest := largest_shift (-1.0) (spec.energy i) spec.ndir k
  have hsum : ∀ maxE : R, ∑ j ∈ range spec.ndir,
      spec.energy i ((j + k) % spec.ndir) / maxE * spec.dtheta =
        ∑ j ∈ range spec.ndir, spec.energy i j / maxE * spec.dtheta := fun maxE =>
    sum_shift (fun j => spec.energy i j / maxE * spec.dtheta) spec.ndir k
  simp only [wind_input, rotate_sum_dir]
  simp only [Spectrum.rotate, WindForcing.rotate, hangle, cos_dir_shift k _ hspec hm, hlargest, hsum]

theorem source_term_wind_input_rotate (hspec : spec.OnCircle m) (hm : m.Circular) (i j : ℕ) :
    source_term_wind_input m (spec.rotate k) (wind.rotate (k * spec.dtheta)) params i j =
      source_term_wind_input m spec wind params i ((j + k) % spec.ndir) := by
  have hinput : wind_input m (spec.rotate k) (wind.rotate (k * spec.dtheta)) params =
      fun i j => wind_input m spec wind params i ((j + k) % spec.ndir) := by
    funext i j
    exact wind_input_rotate wind params k hspec hm i j
  rw [source_term_wind_input_eq, hinput, apply_stress_constraint2_rotate wind params k hspec hm]
  rfl

end WindInput

section Run
variable [IsStrictOrderedRing R] {spec : Spectrum R} (wind : WindForcing R) (params : ST6Params R)
  (k : ℕ) (dt : R)

/-- One step of the turned sea under the turned wind is the turned step. -/
theorem integrator_step_rotate (hspec : spec.OnCircle m) (hm : m.Circular) (type : IntegratorType) :
    (integrator_step m (spec.rotate k) (wind.rotate (k * spec.dtheta)) params type dt).1 =
      (integrator_step m spec wind params type dt).1.rotate k := by
  have hsource : ∀ i j, source_term_total m (spec.rotate k) (wind.rotate (k * spec.dtheta)) params i j =
      source_term_total m spec wind params i ((j + k) % spec.ndir) := by
    intro i j
    rw [source_term_total, source_term_wind_input_rotate wind params k hspec hm, rotate_dissipation]
    rfl
  have heuler : euler_step m (spec.rotate k) (wind.rotate (k * spec.dtheta)) params dt =
      (euler_step m spec wind params dt).rotate k := by
    simp only [euler_step, hsource]
    rfl
  cases type with
  | EULER_FORWARD => simp only [integrator_step, heuler, rotate_update_peak]
  | RK4 => simp only [integrator_step, heuler, rotate_update_peak]

omit [IsStrictOrderedRing R] in
/-- A step leaves the grid alone. -/
theorem integrator_step_grid (spec : Spectrum R) (type : IntegratorType) :
    (integrator_step m spec wind params type dt).1.ndir = spec.ndir ∧
      (integrator_step m spec wind params type dt).1.dir = spec.dir ∧
      (integrator_step m spec wind params type dt).1.dtheta = spec.dtheta := by
  cases type <;> exact ⟨rfl, rfl, rfl⟩

omit [IsStrictOrderedRing R] in
theorem Spectrum.OnCircle.integrator_step (hspec : spec.OnCircle m) (type : IntegratorType) :
    (integrator_step m spec wind params type dt).1.OnCircle m := by
  obtain ⟨hndir, hdir, hdtheta⟩ := integrator_step_grid (m := m) wind params dt spec type
  constructor
  · rw [hdir, hdtheta]
    exact hspec.dir_eq
  · rw [hndir, hdtheta]
    exact hspec.dtheta_eq

variable [FloorRing R]

/-- A turn of the loop, turned: the spectra are, and the times are not. -/
def Course.rotate (k : ℕ) (c : Course R) : Course R :=
  ⟨c.spec.rotate k, c.t, c.outputs.map fun o => (o.1, o.2.rotate k)⟩

theorem turn_rotate {c : Course R} (hspec : c.spec.OnCircle m) (hm : m.Circular) :
    turn m (wind.rotate (k * c.spec.dtheta)) params dt (c.rotate k) =
      (turn m wind params dt c).rotate k := by
  have hdt : ∀ (spec : Spectrum R) (wind : WindForcing R),
      (integrator_step m spec wind params .EULER_FORWARD dt).2 = dt := fun _ _ => rfl
  simp only [turn, Course.rotate, integrator_step_rotate wind params k dt hspec hm, hdt]
  by_cases hpasses : fmod (c.t + dt) output_interval < dt
  · simp only [if_pos hpasses, List.map_append]
    rfl
  · simp only [if_neg hpasses]

theorem duration_loop_rotate (duration : R) (fuel : ℕ) {c : Course R} (hspec : c.spec.OnCircle m)
    (hm : m.Circular) :
    duration_loop m (wind.rotate (k * c.spec.dtheta)) params dt duration fuel (c.rotate k) =
      (duration_loop m wind params dt duration fuel c).map (Course.rotate k) := by
  induction fuel generalizing c with
  | zero => rfl
  | succ fuel ih =>
      obtain ⟨_, _, hdtheta⟩ := integrator_step_grid (m := m) wind params dt c.spec .EULER_FORWARD
      have hnext : (turn m wind params dt c).spec.OnCircle m :=
        hspec.integrator_step wind params dt .EULER_FORWARD
      have hsame : (turn m wind params dt c).spec.dtheta = c.spec.dtheta := hdtheta
      have ht : (c.rotate k).t = c.t := rfl
      simp only [duration_loop, ht]
      split
      · rw [turn_rotate wind params k dt hspec hm, ← hsame]
        exact ih hnext
      · rfl

end Run

theorem circular_real : Libm.real.Circular where
  cos_sub := Real.cos_sub
  sin_sub := Real.sin_sub
  sq_add_sq x := by
    have h := Real.cos_sq_add_sin_sq x
    rwa [sq, sq] at h
  cos_period x q := by
    norm_num [Libm.real]
  sin_period x q := by
    norm_num [Libm.real]

/-- In real numbers, turning the initial sea and the wind by any number of bins turns every spectrum
that the test writes, so that its times, peak frequencies and wave heights stay as they are. -/
theorem duration_test_isotropic (nfreq : ℤ) (ndir : ℕ) (f_min : ℝ) (energy : ℕ → ℕ → ℝ)
    (wind : WindForcing ℝ) (params : ST6Params ℝ) (duration : ℝ) (fuel k : ℕ) :
    let spec := created nfreq ndir f_min energy
    let test := fun wind spec => run_duration_limited_test Libm.real wind params spec duration fuel
    let reported := fun (o : ℝ × Spectrum ℝ) => (o.1, o.2.peak_freq, spectrum_Hs Libm.real o.2)
    test (wind.rotate (k * spec.dtheta)) (spec.rotate k) =
        (test wind spec).map (List.map fun o => (o.1, o.2.rotate k)) ∧
      (test (wind.rotate (k * spec.dtheta)) (spec.rotate k)).map (List.map reported) =
        (test wind spec).map (List.map reported) := by
  intro spec test reported
  have hspec : spec.OnCircle Libm.real := ⟨fun _ => rfl, rfl⟩
  have hloop := duration_loop_rotate wind params k
    (compute_adaptive_dt spec time_step_control_default) duration fuel
    (c := ⟨spec, 0.0, []⟩) hspec circular_real
  have hturned : test (wind.rotate (k * spec.dtheta)) (spec.rotate k) =
      (test wind spec).map (List.map fun o => (o.1, o.2.rotate k)) := by
    change (duration_loop Libm.real (wind.rotate (k * spec.dtheta)) params
      (compute_adaptive_dt spec time_step_control_default) duration fuel
      (Course.rotate k ⟨spec, 0.0, []⟩)).map _ = _
    rw [hloop, Option.map_map]
    simp only [test, run_duration_limited_test, Option.map_map]
    rfl
  refine ⟨hturned, ?_⟩
  rw [hturned, Option.map_map]
  congr 1
  funext outputs
  rw [Function.comp_apply, List.map_map]
  congr 1
  funext o
  simp only [Function.comp_apply, reported, rotate_Hs]
  rfl

end OtusCProg.PointWaveModel
