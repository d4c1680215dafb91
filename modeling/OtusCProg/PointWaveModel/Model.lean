import Mathlib.Algebra.BigOperators.Intervals
import Mathlib.Algebra.Order.Field.Basic
import Mathlib.Algebra.Order.Ring.Unbundled.Rat

/-!
# The wave model of `point_wave_model`

`spectrum.c`, `source_terms.c` and `integrator.c` in the arithmetic of an
ordered field, without rounding, over the functions of `math.h` that they
call. An array is a function of its index. `apply_stress_constraint2_in` takes
which of its allocations succeed; everywhere else memory is assumed to be
available. `pow` with a whole exponent is a power of the field.
-/

namespace OtusCProg.PointWaveModel
open Finset

/-- `M_PI` and the functions of `math.h`. -/
structure Libm (R : Type*) where
  M_PI : R
  sqrt : R → R
  exp : R → R
  log : R → R
  cos : R → R
  sin : R → R
  tanh : R → R
  pow : R → R → R
  ceil : R → ℤ

structure Spectrum (R : Type*) where
  nfreq : ℕ
  ndir : ℕ
  freq : ℕ → R
  dir : ℕ → R
  energy : ℕ → ℕ → R
  dsii : ℕ → R
  dtheta : R
  peak_freq : R

structure WindForcing (R : Type*) where
  u10 : R
  dir : R
  rho_air : R
  rho_water : R

structure ST6Params (R : Type*) where
  sin6ws : R
  a1 : R
  a2 : R
  L : R
  M : R
  Bnt : R
  norm_type : ℤ
  z0 : R

inductive IntegratorType where
  | EULER_FORWARD
  | RK4

section Numbers
variable {R : Type*} [Field R]

def G : R := 9.81
def VON_KARMAN : R := 0.41
def FLT_MIN : R := 1.0e-38
def XFR : R := 1.1

end Numbers

variable {R : Type*} [Field R] [LinearOrder R] (m : Libm R)

/-- The loop that looks for the largest of `x 0, …, x (n - 1)`, from `init` on. -/
def largest (init : R) (x : ℕ → R) (n : ℕ) : R :=
  (List.range n).foldl (fun maxE i => if maxE < x i then x i else maxE) init

/-- The widths of the frequency bins of a grid of `nk` frequencies. -/
def bandwidth (freq : ℕ → R) (nk i : ℕ) : R :=
  if i = 0 then 0.5 * (freq 1 - freq 0)
  else if i = nk - 1 then 0.5 * (freq i - freq (i - 1))
  else 0.5 * (freq (i + 1) - freq (i - 1))

def spectrum_create (nfreq : ℤ) (ndir : ℕ) (f_min : R) : Spectrum R :=
  let nk := (if nfreq < 2 then 2 else nfreq).toNat
  let freq := fun i => f_min * XFR ^ i
  let dtheta := 2.0 * m.M_PI / ndir
  { nfreq := nk
    ndir := ndir
    freq := freq
    dir := fun j => -m.M_PI + j * dtheta
    energy := fun _ _ => 0
    dsii := bandwidth freq nk
    dtheta := dtheta
    peak_freq := f_min }

/-- The sum of a row of `energy`. -/
def Spectrum.sum_dir (spec : Spectrum R) (i : ℕ) : R := ∑ j ∈ range spec.ndir, spec.energy i j

def spectrum_Hs (spec : Spectrum R) : R :=
  let E_total := ∑ i ∈ range spec.nfreq, spec.sum_dir i * spec.dtheta * spec.dsii i
  4.0 * m.sqrt E_total

def spectrum_update_peak (spec : Spectrum R) : Spectrum R :=
  let peak := (List.range spec.nfreq).foldl (fun (max_E, f_peak) i =>
    let E_omni := spec.sum_dir i * spec.dtheta
    if max_E < E_omni then (E_omni, spec.freq i) else (max_E, f_peak)) ((0.0 : R), spec.freq 0)
  { spec with peak_freq := peak.2 }

def phase_speed (f : R) : R := G / (2.0 * m.M_PI * f)

def friction_velocity (u10 z0 : R) : R := u10 * VON_KARMAN / m.log (10.0 / z0)

def integrate_stress (S_arr cinv dsii : ℕ → R) (nk10 : ℕ) (rho_water g : R) : R :=
  (∑ i ∈ range nk10, S_arr i * cinv i * dsii i) * rho_water * g

def norm_stress_excess (S_in_x S_in_y cinv dsii : ℕ → R) (nk10 : ℕ)
    (rho_water g tau_v_x tau_v_y tau_tot : R) : R :=
  let tau_wx := integrate_stress S_in_x cinv dsii nk10 rho_water g
  let tau_wy := integrate_stress S_in_y cinv dsii nk10 rho_water g
  let tau_x := tau_v_x + tau_wx
  let tau_y := tau_v_y + tau_wy
  let tau_norm := m.sqrt (tau_x * tau_x + tau_y * tau_y)
  (tau_norm - tau_tot) / tau_tot

section Constraint
variable (spec : Spectrum R) (wind : WindForcing R) (params : ST6Params R)

/-- The variables of `apply_stress_constraint2` that its search reads. -/
structure Stress (R : Type*) where
  nk10 : ℕ
  S_x10 : ℕ → R
  S_y10 : ℕ → R
  cinv10 : ℕ → R
  dsii10 : ℕ → R
  ucinv10 : ℕ → R
  rho_water : R
  g : R
  tau_v_x : R
  tau_v_y : R
  tau_tot : R

/-- A component of the input on the grid up to 10 Hz, behind the last frequency as `f ^ (-2)`. -/
def extrapolate (nk : ℕ) (freq10 S : ℕ → R) (i : ℕ) : R :=
  if i < nk then S i
  else
    let ratio := freq10 (nk - 1) / freq10 i
    let ratio2 := ratio * ratio
    S (nk - 1) * ratio2

/-- The part of `apply_stress_constraint2` in front of the stresses. -/
def initial_stress (dS_in : ℕ → ℕ → R) : Stress R :=
  let ustar := friction_velocity m wind.u10 params.z0
  let g := 9.81
  let nk := spec.nfreq
  let S_x := fun i => (∑ j ∈ range spec.ndir, dS_in i j * m.cos (spec.dir j)) * spec.dtheta
  let S_y := fun i => (∑ j ∈ range spec.ndir, dS_in i j * m.sin (spec.dir j)) * spec.dtheta
  let nk10 := (max (m.ceil (m.log (10.0 / spec.freq 0) / m.log XFR) + 1) nk).toNat
  let freq10 := fun i => spec.freq 0 * XFR ^ i
  let cinv10 := fun i => 1.0 / (g / (2.0 * m.M_PI * freq10 i))
  let uproxy := params.sin6ws * ustar
  let tau_tot := ustar * ustar * wind.rho_air
  let cv := max (-5e-5 * wind.u10 + 1.1e-3) 0.0
  let tau_v := min (cv * wind.u10 * wind.u10 * wind.rho_air) (0.95 * tau_tot)
  { nk10 := nk10
    S_x10 := extrapolate nk freq10 S_x
    S_y10 := extrapolate nk freq10 S_y
    cinv10 := cinv10
    dsii10 := bandwidth freq10 nk10
    ucinv10 := fun i => 1.0 - uproxy * cinv10 i
    rho_water := wind.rho_water
    g := g
    tau_v_x := tau_v * m.cos wind.dir
    tau_v_y := tau_v * m.sin wind.dir
    tau_tot := tau_tot }

/-- `norm_stress_excess` for the input reduced by `lfact10`. -/
def Stress.excess (t : Stress R) (lfact10 : ℕ → R) : R :=
  norm_stress_excess m (fun i => t.S_x10 i * lfact10 i) (fun i => t.S_y10 i * lfact10 i) t.cinv10
    t.dsii10 t.nk10 t.rho_water t.g t.tau_v_x t.tau_v_y t.tau_tot

/-- The variables of the search for `Rtau`. -/
structure Search (R : Type*) where
  Rtau : R
  dRtau : R
  sign_old : ℤ
  overshot : Bool
  lfact10 : ℕ → R

/-- One turn of the search, and whether it ends there. -/
def search_turn (t : Stress R) (s : Search R) : Search R × Bool :=
  let lfact10 := fun i => min (m.exp (t.ucinv10 i * s.Rtau)) 1.0
  let err := t.excess m lfact10
  let sign_new : ℤ := if 0 < err then 1 else -1
  let overshot := s.overshot || sign_new != s.sign_old
  let dRtau := if overshot then max (0.5 * (1.0 + s.dRtau)) 1.0001 else s.dRtau
  (⟨s.Rtau * dRtau ^ sign_new, dRtau, sign_new, overshot, lfact10⟩, |err| < 1.5e-4)

/-- Which allocations of `apply_stress_constraint2` succeed: the three arrays of sums, the eight of the
grid up to 10 Hz, and the two of a turn of the search, by the number of turns behind it. -/
structure Memory where
  sums : Bool
  grid : Bool
  turn : ℕ → Bool

def Memory.available : Memory := ⟨true, true, fun _ => true⟩

/-- At most `iters` turns. One whose arrays are refused leaves its factors and is the last one. -/
def search_in (turn : ℕ → Bool) (t : Stress R) : ℕ → Search R → Search R
  | 0, s => s
  | iters + 1, s =>
      if turn iters then
        let (s, found) := search_turn m t s
        if found then s else search_in turn t iters s
      else { s with lfact10 := fun i => min (m.exp (t.ucinv10 i * s.Rtau)) 1.0 }

def search : Stress R → ℕ → Search R → Search R := search_in m fun _ => true

/-- The input that `apply_stress_constraint2` leaves in `dS_in`. -/
def apply_stress_constraint2_in (mem : Memory) (dS_in : ℕ → ℕ → R) : ℕ → ℕ → R :=
  if mem.sums && mem.grid then
    let t := initial_stress m spec wind params dS_in
    let err_init := norm_stress_excess m t.S_x10 t.S_y10 t.cinv10 t.dsii10 t.nk10 t.rho_water t.g
      t.tau_v_x t.tau_v_y t.tau_tot
    if 0 < err_init then
      let s := search_in m mem.turn t 80
        ⟨err_init / 90.0, 2.0, if 0 < err_init then 1 else -1, false, fun _ => 1.0⟩
      fun i j => dS_in i j * s.lfact10 i
    else dS_in
  else dS_in

def apply_stress_constraint2 : (ℕ → ℕ → R) → ℕ → ℕ → R :=
  apply_stress_constraint2_in m spec wind params .available

/-- What the loops of `source_term_wind_input` put into one bin. -/
def wind_input (i j : ℕ) : R :=
  let rho_ratio := wind.rho_air / wind.rho_water
  let u_star := friction_velocity m wind.u10 params.z0
  let u_scaled := u_star * params.sin6ws
  let f := spec.freq i
  let sigma := 2.0 * m.M_PI * f
  let c := phase_speed m f
  let k := sigma * sigma / G
  let Cg := 0.5 * c
  if c < 0.1 then 0.0
  else
    let maxE := largest (-1.0) (spec.energy i) spec.ndir
    if maxE ≤ FLT_MIN then 0.0
    else
      let A_f_int := ∑ j ∈ range spec.ndir, spec.energy i j / maxE * spec.dtheta
      let A := 1.0 / A_f_int
      let E_omni := spec.sum_dir i * spec.dtheta
      let Bn := 1.0 / (2.0 * m.M_PI) * E_omni * k * k * k * Cg
      let Bn_prime := A * Bn
      let sqrtBn := max (m.sqrt Bn_prime) 1e-10
      let cos_diff := m.cos (spec.dir j - wind.dir)
      if cos_diff ≤ FLT_MIN then 0.0
      else
        let arg := u_scaled / c * cos_diff - 1.0
        let W := if 0.0 < arg then arg * arg else 0.0
        let shelter := 2.8 - (1.0 + m.tanh (10.0 * sqrtBn * W - 11.0))
        let gamma := shelter * sqrtBn * W
        let Bterm := gamma * sigma * rho_ratio
        Bterm * spec.energy i j

def source_term_wind_input_in (mem : Memory) : ℕ → ℕ → R :=
  apply_stress_constraint2_in m spec wind params mem (wind_input m spec wind params)

def source_term_wind_input : ℕ → ℕ → R := source_term_wind_input_in m spec wind params .available

end Constraint

section Dissipation
variable (spec : Spectrum R) (params : ST6Params R)

/-- `E_T` of `source_term_dissipation`. -/
def threshold (i : ℕ) : R :=
  let g := 9.81
  let omega := 2.0 * m.M_PI * spec.freq i
  let k := omega * omega / g
  let Cg := 0.5 * g / omega
  2.0 * m.M_PI * params.Bnt / (Cg * k * k * k)

/-- `ratio` of `source_term_dissipation`. -/
def ratio (i : ℕ) : R :=
  let E_omni := fun i => spec.sum_dir i * spec.dtheta
  let E_T := threshold m spec params i
  let eps := 1e-5 * largest 0.0 E_omni spec.nfreq
  let Delta := max (E_omni i - E_T) 0.0
  if params.norm_type = 0 then
    if eps < E_omni i then Delta / E_omni i else 0.0
  else
    if 0.0 < E_T then Delta / E_T else 0.0

/-- `accum` of `source_term_dissipation`. -/
def accum : ℕ → R
  | 0 => m.pow (ratio m spec params 0) params.M * spec.dsii 0
  | i + 1 => accum i + m.pow (ratio m spec params (i + 1)) params.M * spec.dsii (i + 1)

def source_term_dissipation (i j : ℕ) : R :=
  let T1_coef := params.a1 * spec.freq i * m.pow (max (ratio m spec params i) 0.0) params.L
  let T2_coef := params.a2 * accum m spec params i
  let E := spec.energy i j
  let T1 := T1_coef * E
  let T2 := T2_coef * E;
  -(T1 + T2)

end Dissipation

section Step
variable (spec : Spectrum R) (wind : WindForcing R) (params : ST6Params R)

def source_term_total (i j : ℕ) : R :=
  source_term_wind_input m spec wind params i j + source_term_dissipation m spec params i j

def euler_step (dt : R) : Spectrum R :=
  { spec with energy := fun i j => max (spec.energy i j + source_term_total m spec wind params i j * dt) 0.0 }

/-- The spectrum that `integrator_step` leaves, and its result. -/
def integrator_step (type : IntegratorType) (dt : R) : Spectrum R × R :=
  let spec :=
    match type with
    | .EULER_FORWARD => euler_step m spec wind params dt
    | .RK4 => euler_step m spec wind params dt
  (spectrum_update_peak spec, dt)

/-- The spectrum behind `n` calls of `integrator_step`. -/
def run (type : IntegratorType) (dt : R) (n : ℕ) : Spectrum R :=
  (fun spec => (integrator_step m spec wind params type dt).1)^[n] spec

end Step

end OtusCProg.PointWaveModel
