import OtusCProg.Library.FactorSearch
import OtusCProg.PointWaveModel.OneDirection

/-!
# The search for the stress constraint

The search has 80 turns. It doubles `Rtau` from its first value, a ninetieth of
the excess, or comes down from it, and makes its steps smaller from the first
change of sign on. It meets the target where the excess changes its sign once,
within the reach of these steps, and does not fall through the whole target on
one smallest step. From a first value that is far above the change it cannot come
down in time.
-/

namespace OtusCProg.PointWaveModel
open Finset Library

section Search
variable {R : Type*} [Field R] [LinearOrder R] {m : Libm R} {t : Stress R} {s : Search R}

/-- The factors that `apply_stress_constraint2` finds. -/
def found_factors (m : Libm R) (spec : Spectrum R) (wind : WindForcing R) (params : ST6Params R)
    (dS_in : ℕ → ℕ → R) : ℕ → R :=
  let t := initial_stress m spec wind params dS_in
  if 0 < t.err_init m then (search m t 80 (Search.first (t.err_init m))).lfact10 else fun _ => 1.0

/-- The `Rtau` of turn `k`, as long as no turn ends the search. -/
def tried (m : Libm R) (t : Stress R) (k : ℕ) : R :=
  ((Search.next m t)^[k] (Search.first (t.err_init m))).Rtau

/-- A search with a turn that meets the target ends with the factors of such a turn. -/
theorem search_found {n : ℕ}
    (h : ∃ k < n, |t.err m ((Search.next m t)^[k] s).Rtau| < 1.5e-4) :
    ∃ Rtau, |t.err m Rtau| < 1.5e-4 ∧ (search m t n s).lfact10 = t.factors m Rtau := by
  induction n generalizing s with
  | zero =>
      obtain ⟨k, hk, _⟩ := h
      exact absurd hk (Nat.not_lt_zero k)
  | succ n ih =>
      rw [search_succ]
      split
      · rename_i htarget
        exact ⟨s.Rtau, htarget, rfl⟩
      · rename_i hmissed
        obtain ⟨k, hk, htarget⟩ := h
        cases k with
        | zero => exact absurd htarget hmissed
        | succ k => exact ih ⟨k, Nat.lt_of_succ_lt_succ hk, htarget⟩

/-- A search whose turns miss the target up to the last one ends with the factors of that one. -/
theorem search_exhausted {n : ℕ}
    (h : ∀ k < n, ¬|t.err m ((Search.next m t)^[k] s).Rtau| < 1.5e-4) :
    (search m t (n + 1) s).lfact10 = t.factors m ((Search.next m t)^[n] s).Rtau := by
  induction n generalizing s with
  | zero =>
      rw [search_succ]
      split <;> rfl
  | succ n ih =>
      have hfirst : ¬|t.err m s.Rtau| < 1.5e-4 := h 0 n.succ_pos
      rw [search_succ, if_neg hfirst]
      exact ih fun k hk => h (k + 1) (Nat.succ_lt_succ hk)

/-- The factors that are left meet the target exactly where a turn does, the last one at least at its
edge. -/
theorem excess_search_iff :
    |t.excess m (search m t 80 (Search.first (t.err_init m))).lfact10| ≤ 1.5e-4 ↔
      (∃ k < 79, |t.err m (tried m t k)| < 1.5e-4) ∨ |t.err m (tried m t 79)| ≤ 1.5e-4 := by
  by_cases h : ∃ k < 79, |t.err m (tried m t k)| < 1.5e-4
  · obtain ⟨k, hk, htarget⟩ := h
    obtain ⟨Rtau, hRtau, hfactors⟩ := search_found (n := 80) ⟨k, hk.trans (by decide), htarget⟩
    rw [hfactors]
    exact ⟨fun _ => Or.inl ⟨k, hk, htarget⟩, fun _ => hRtau.le⟩
  · have hmissed : ∀ k < 79, ¬|t.err m (tried m t k)| < 1.5e-4 := fun k hk htarget =>
      h ⟨k, hk, htarget⟩
    rw [search_exhausted (n := 79) hmissed]
    exact ⟨Or.inr, fun hmet => hmet.resolve_left h⟩

variable {start : R} {n k : ℕ}

/-- A turn moves `Rtau` by the step that it has made smaller. -/
theorem next_Rtau : (s.next m t).Rtau = move (t.err m) s.Rtau (s.next m t).dRtau := by
  unfold move
  split
  · rename_i hpos
    have hup : sign_new (t.err m s.Rtau) = 1 := if_pos hpos
    simp only [Search.next, hup, zpow_one]
  · rename_i hneg
    have hdown : sign_new (t.err m s.Rtau) = -1 := if_neg hneg
    simp only [Search.next, hdown, zpow_neg_one, div_eq_mul_inv]

/-- Behind the first change of sign the step goes half the way to 1. -/
theorem next_dRtau (h : s.overshot_new (t.err m s.Rtau) = true) :
    (s.next m t).dRtau = halved 1.0001 s.dRtau := by
  simp only [Search.next, h, dRtau_new, if_true]
  rfl

/-- While `Rtau` is doubled, nothing else changes. -/
structure Search.Doubling (start : R) (k : ℕ) (s : Search R) : Prop where
  Rtau : s.Rtau = start * 2 ^ k
  dRtau : s.dRtau = 2
  sign_old : s.sign_old = 1
  overshot : s.overshot = false

/-- A search that has only gone down, with the steps it has made. -/
structure Search.Falling (start : R) (n : ℕ) (s : Search R) : Prop where
  Rtau : s.Rtau = start / descent 1.0001 n
  dRtau : s.dRtau = (halved 1.0001)^[n] 2
  overshot : s.overshot = true ∨ s.sign_old = 1

/-- From the first change of sign on a point on the other side is within one step, and the steps
become smaller. -/
structure Search.Narrowing (f : R → R) (n : ℕ) (s : Search R) : Prop where
  Rtau_pos : 0 < s.Rtau
  dRtau : s.dRtau = (halved 1.0001)^[n] 2
  turned : s.overshot_new (f s.Rtau) = true
  straddled : Straddled f 1.5e-4 s.Rtau s.dRtau

theorem Search.Doubling.next (h : s.Doubling start k) (hpos : 0 < t.err m s.Rtau) :
    (s.next m t).Doubling start (k + 1) := by
  have hup : sign_new (t.err m s.Rtau) = 1 := if_pos hpos
  have hsame : s.overshot_new (t.err m s.Rtau) = false := by
    rw [Search.overshot_new, hup, h.sign_old, h.overshot]
    rfl
  have hstep : (s.next m t).dRtau = 2 := by
    simp only [Search.next, hsame, dRtau_new, Bool.false_eq_true, if_false, h.dRtau]
  refine ⟨?_, hstep, hup, hsame⟩
  rw [next_Rtau, move, if_pos hpos, hstep, h.Rtau, pow_succ, mul_assoc]

/-- The first change of sign behind doublings. -/
theorem Search.Doubling.turned (h : s.Doubling start k) (hneg : t.err m s.Rtau ≤ 0) :
    s.overshot_new (t.err m s.Rtau) = true := by
  have hdown : sign_new (t.err m s.Rtau) = -1 := if_neg (not_lt.mpr hneg)
  rw [Search.overshot_new, hdown, h.sign_old, h.overshot]
  rfl

/-- A turn that goes down is the first one or comes behind a change of sign. -/
theorem Search.Falling.turned (h : s.Falling start n) (hneg : t.err m s.Rtau ≤ 0) :
    s.overshot_new (t.err m s.Rtau) = true := by
  have hdown : sign_new (t.err m s.Rtau) = -1 := if_neg (not_lt.mpr hneg)
  rw [Search.overshot_new, hdown]
  rcases h.overshot with hover | hfirst
  · rw [hover, Bool.true_or]
  · rw [hfirst]
    exact Bool.or_true _

theorem Search.Falling.next (h : s.Falling start n) (hneg : t.err m s.Rtau ≤ 0) :
    (s.next m t).Falling start (n + 1) := by
  have hturned := h.turned hneg
  have hstep : (s.next m t).dRtau = (halved 1.0001)^[n + 1] 2 := by
    rw [Function.iterate_succ_apply', ← h.dRtau]
    exact next_dRtau hturned
  refine ⟨?_, hstep, Or.inl hturned⟩
  rw [next_Rtau, move, if_neg (not_lt.mpr hneg), hstep, h.Rtau, div_div, descent]

variable [IsStrictOrderedRing R]

theorem apply_stress_constraint2_found (spec : Spectrum R) (wind : WindForcing R)
    (params : ST6Params R) (dS_in : ℕ → ℕ → R) (i j : ℕ) :
    apply_stress_constraint2 m spec wind params dS_in i j =
      dS_in i j * found_factors m spec wind params dS_in i := by
  rw [apply_stress_constraint2_eq]
  dsimp only [found_factors]
  split
  · rfl
  · norm_num

theorem Search.Doubling.first {err_init : R} (h : 0 < err_init) :
    (Search.first err_init).Doubling (err_init / 90.0) 0 where
  Rtau := by rw [pow_zero, mul_one]; rfl
  dRtau := by norm_num [Search.first]
  sign_old := if_pos h
  overshot := rfl

theorem Search.Falling.first {err_init : R} (h : 0 < err_init) :
    (Search.first err_init).Falling (err_init / 90.0) 0 where
  Rtau := by rw [descent, div_one]; rfl
  dRtau := by norm_num [Search.first]
  overshot := Or.inr (if_pos h)

theorem Search.Narrowing.next (h : s.Narrowing (t.err m) n) (hf : ChangesOnce (t.err m))
    (hmissed : 1.5e-4 ≤ |t.err m s.Rtau|) : (s.next m t).Narrowing (t.err m) (n + 1) := by
  have hstep : (s.next m t).dRtau = halved 1.0001 s.dRtau := next_dRtau h.turned
  have hnonneg : 0 ≤ s.dRtau := by
    rw [h.dRtau, halved_iterate (by norm_num) (by norm_num)]
    exact le_max_of_le_right (by norm_num)
  have hone : 1 < (s.next m t).dRtau := by
    rw [hstep]
    exact lt_max_of_lt_right (by norm_num)
  refine ⟨?_, ?_, ?_, ?_⟩
  · rw [next_Rtau]
    exact move_pos h.Rtau_pos (one_pos.trans hone)
  · rw [hstep, h.dRtau, Function.iterate_succ_apply']
  · have hover : (s.next m t).overshot = true := h.turned
    rw [Search.overshot_new, hover, Bool.true_or]
  · rw [next_Rtau]
    apply h.straddled.next hf h.Rtau_pos hmissed hone
    rw [hstep]
    exact le_halved_mul_self hnonneg

/-- The excess, as a function of `Rtau`, changes its sign once, does not fall from one end of the
target to the other within the smallest step, and comes into the target or past it at one of 65
doublings of the first `Rtau` or of 79 steps down from it. -/
structure Findable (f : R → R) (start : R) : Prop where
  once : ChangesOnce f
  flat : ∀ x y, 0 < x → x < y → y ≤ x * 1.0001 → 1.5e-4 ≤ f x → -1.5e-4 < f y
  above : 0 < f start → ∃ k ≤ 65, f (start * 2 ^ k) < 1.5e-4
  below : f start ≤ 0 → ∃ n ≤ 79, -1.5e-4 < f (start / descent 1.0001 n)

section Turns
variable {err_init : R}

/-- The first `k` turns double `Rtau` while the excess is positive. -/
theorem doubling_iterate (herr : 0 < err_init)
    (hpos : ∀ i < k, 0 < t.err m (err_init / 90.0 * 2 ^ i)) :
    ((Search.next m t)^[k] (Search.first err_init)).Doubling (err_init / 90.0) k := by
  induction k with
  | zero => exact Search.Doubling.first herr
  | succ k ih =>
      have hdouble := ih fun i hi => hpos i (Nat.lt_succ_of_lt hi)
      rw [Function.iterate_succ_apply']
      apply hdouble.next
      rw [hdouble.Rtau]
      exact hpos k (Nat.lt_succ_self k)

/-- The first `n` turns go down while the excess is not positive. -/
theorem falling_iterate (herr : 0 < err_init)
    (hneg : ∀ i < n, t.err m (err_init / 90.0 / descent 1.0001 i) ≤ 0) :
    ((Search.next m t)^[n] (Search.first err_init)).Falling (err_init / 90.0) n := by
  induction n with
  | zero => exact Search.Falling.first herr
  | succ n ih =>
      have hfall := ih fun i hi => hneg i (Nat.lt_succ_of_lt hi)
      rw [Function.iterate_succ_apply']
      apply hfall.next
      rw [hfall.Rtau]
      exact hneg n (Nat.lt_succ_self n)

/-- All the turns of a search miss the target. -/
def Misses (m : Libm R) (t : Stress R) (err_init : R) : Prop :=
  ∀ k < 80, 1.5e-4 ≤ |t.err m ((Search.next m t)^[k] (Search.first err_init)).Rtau|

/-- From a positive excess a search that misses turns at one of 65 doublings. -/
theorem exists_turn_above (herr : 0 < err_init) (hmissed : Misses m t err_init)
    (hpos : 0 < t.err m (err_init / 90.0))
    (hreach : ∃ k ≤ 65, t.err m (err_init / 90.0 * 2 ^ k) < 1.5e-4) :
    ∃ k ≤ 65, ((Search.next m t)^[k] (Search.first err_init)).Narrowing (t.err m) 0 := by
  obtain ⟨last, hlast, hbelow⟩ := hreach
  have hexists : ∃ k, t.err m (err_init / 90.0 * 2 ^ k) < 1.5e-4 := ⟨last, hbelow⟩
  have hle : Nat.find hexists ≤ 65 := (Nat.find_min' hexists hbelow).trans hlast
  have hearlier : ∀ i < Nat.find hexists, 1.5e-4 ≤ t.err m (err_init / 90.0 * 2 ^ i) := fun i hi =>
    not_lt.mp (Nat.find_min hexists hi)
  have hfirst : t.err m (err_init / 90.0 * 2 ^ Nat.find hexists) < 1.5e-4 := Nat.find_spec hexists
  generalize Nat.find hexists = k at hle hearlier hfirst
  have htol : (0 : R) < 1.5e-4 := by norm_num
  have hdouble : ((Search.next m t)^[k] (Search.first err_init)).Doubling (err_init / 90.0) k :=
    doubling_iterate herr fun i hi => htol.trans_le (hearlier i hi)
  have hstart : 0 < err_init / 90.0 := div_pos herr (by norm_num)
  have hmiss := hmissed k (by omega)
  rw [hdouble.Rtau] at hmiss
  have hneg : t.err m (err_init / 90.0 * 2 ^ k) ≤ 0 := by
    by_contra hup
    rw [abs_of_pos (not_le.mp hup)] at hmiss
    exact absurd hfirst (not_lt.mpr hmiss)
  cases k with
  | zero =>
      rw [pow_zero, mul_one] at hneg
      exact absurd hpos (not_lt.mpr hneg)
  | succ k =>
      have hbefore := hearlier k k.lt_succ_self
      have hx : 0 < err_init / 90.0 * 2 ^ k := mul_pos hstart (pow_pos two_pos k)
      have hdoubled : err_init / 90.0 * 2 ^ (k + 1) = err_init / 90.0 * 2 ^ k * 2 := by
        rw [pow_succ, mul_assoc]
      refine ⟨k + 1, hle, ?_, ?_, ?_, ?_⟩
      · rw [hdouble.Rtau]
        exact mul_pos hstart (pow_pos two_pos _)
      · exact hdouble.dRtau
      · apply hdouble.turned
        rw [hdouble.Rtau]
        exact hneg
      · rw [hdouble.Rtau, hdouble.dRtau]
        refine ⟨err_init / 90.0 * 2 ^ k, hx, hbefore.trans (le_abs_self _), Or.inr ⟨hneg, ?_, ?_, ?_⟩⟩
        · exact htol.trans_le hbefore
        · rw [hdoubled]
          exact lt_mul_of_one_lt_right hx one_lt_two
        · exact hdoubled.le

/-- From an excess that is not positive a search that misses turns at one of 79 steps down. -/
theorem exists_turn_below (herr : 0 < err_init) (hmissed : Misses m t err_init)
    (hneg : t.err m (err_init / 90.0) ≤ 0)
    (hreach : ∃ n ≤ 79, -1.5e-4 < t.err m (err_init / 90.0 / descent 1.0001 n)) :
    ∃ n ≤ 79, ((Search.next m t)^[n] (Search.first err_init)).Narrowing (t.err m) n := by
  obtain ⟨last, hlast, habove⟩ := hreach
  have hexists : ∃ n, -1.5e-4 < t.err m (err_init / 90.0 / descent 1.0001 n) := ⟨last, habove⟩
  have hle : Nat.find hexists ≤ 79 := (Nat.find_min' hexists habove).trans hlast
  have hearlier : ∀ i < Nat.find hexists, t.err m (err_init / 90.0 / descent 1.0001 i) ≤ -1.5e-4 :=
    fun i hi => not_lt.mp (Nat.find_min hexists hi)
  have hfirst : -1.5e-4 < t.err m (err_init / 90.0 / descent 1.0001 (Nat.find hexists)) :=
    Nat.find_spec hexists
  generalize Nat.find hexists = n at hle hearlier hfirst
  have htol : (-1.5e-4 : R) ≤ 0 := by norm_num
  have hfall : ((Search.next m t)^[n] (Search.first err_init)).Falling (err_init / 90.0) n :=
    falling_iterate herr fun i hi => (hearlier i hi).trans htol
  have hstart : 0 < err_init / 90.0 := div_pos herr (by norm_num)
  have hdescent : ∀ n, 0 < descent (1.0001 : R) n := descent_pos (by norm_num) (by norm_num)
  have hmiss := hmissed n (by omega)
  rw [hfall.Rtau] at hmiss
  have hpos : 0 < t.err m (err_init / 90.0 / descent 1.0001 n) := by
    by_contra hdown
    rw [abs_of_nonpos (not_lt.mp hdown)] at hmiss
    linarith
  cases n with
  | zero =>
      rw [descent, div_one] at hpos
      exact absurd hpos (not_lt.mpr hneg)
  | succ n =>
      have hbefore := hearlier n n.lt_succ_self
      have hstep : 1 < (halved (1.0001 : R))^[n + 1] 2 := by
        rw [halved_iterate (by norm_num) (by norm_num)]
        exact lt_max_of_lt_right (by norm_num)
      have hx : 0 < err_init / 90.0 / descent 1.0001 (n + 1) := div_pos hstart (hdescent (n + 1))
      have hback : err_init / 90.0 / descent 1.0001 (n + 1) * (halved 1.0001)^[n + 1] 2 =
          err_init / 90.0 / descent 1.0001 n := by
        rw [descent, ← div_div, div_mul_cancel₀ _ (one_pos.trans hstep).ne']
      refine ⟨n + 1, hle, ?_, hfall.dRtau, ?_, ?_⟩
      · rw [hfall.Rtau]
        exact hx
      · have hprevious : ((Search.next m t)^[n] (Search.first err_init)).Falling (err_init / 90.0) n :=
          falling_iterate herr fun i hi => (hearlier i (Nat.lt_succ_of_lt hi)).trans htol
        have hover : ((Search.next m t)^[n + 1] (Search.first err_init)).overshot = true := by
          rw [Function.iterate_succ_apply']
          apply hprevious.turned
          rw [hprevious.Rtau]
          exact hbefore.trans htol
        rw [Search.overshot_new, hover, Bool.true_or]
      · rw [hfall.Rtau, hfall.dRtau]
        refine ⟨err_init / 90.0 / descent 1.0001 n, div_pos hstart (hdescent n), ?_,
          Or.inl ⟨hpos, hbefore.trans htol, ?_, hback.ge⟩⟩
        · rw [abs_of_nonpos (hbefore.trans htol)]
          linarith
        · rw [← hback]
          exact lt_mul_of_one_lt_right hx hstep

theorem narrowing_iterate (hmissed : Misses m t err_init) (hf : ChangesOnce (t.err m))
    (h : ((Search.next m t)^[k] (Search.first err_init)).Narrowing (t.err m) n) {i : ℕ}
    (hi : k + i < 80) :
    ((Search.next m t)^[k + i] (Search.first err_init)).Narrowing (t.err m) (n + i) := by
  induction i with
  | zero => exact h
  | succ i ih =>
      have hnarrow := ih (by omega)
      rw [← Nat.add_assoc k, Function.iterate_succ_apply']
      exact hnarrow.next hf (hmissed (k + i) (by omega))

/-- One of the 80 turns meets the target: 14 turns behind the first change of sign, or at once if that
comes later, the steps are the smallest. -/
theorem exists_target (herr : 0 < err_init) (h : Findable (t.err m) (err_init / 90.0)) :
    ∃ k < 80, |t.err m ((Search.next m t)^[k] (Search.first err_init)).Rtau| < 1.5e-4 := by
  by_contra hnone
  have hmissed : Misses m t err_init := fun k hk => not_lt.mp fun htarget => hnone ⟨k, hk, htarget⟩
  have hturn : ∃ n k, k + (14 - n) < 80 ∧
      ((Search.next m t)^[k] (Search.first err_init)).Narrowing (t.err m) n := by
    rcases lt_or_ge 0 (t.err m (err_init / 90.0)) with hpos | hneg
    · obtain ⟨k, hk, hnarrow⟩ := exists_turn_above herr hmissed hpos (h.above hpos)
      exact ⟨0, k, by omega, hnarrow⟩
    · obtain ⟨n, hn, hnarrow⟩ := exists_turn_below herr hmissed hneg (h.below hneg)
      exact ⟨n, n, by omega, hnarrow⟩
  obtain ⟨n, k, hk, hnarrow⟩ := hturn
  have hlast := narrowing_iterate hmissed h.once hnarrow hk
  have hleast : ((Search.next m t)^[k + (14 - n)] (Search.first err_init)).dRtau = 1.0001 := by
    rw [hlast.dRtau, halved_iterate (by norm_num) (by norm_num)]
    apply max_eq_right
    have hpow : (1 / 2 : R) ^ (n + (14 - n)) ≤ (1 / 2) ^ 14 :=
      pow_le_pow_of_le_one (by norm_num) (by norm_num) (by omega)
    norm_num at hpow ⊢
    linarith
  have hstraddled := hlast.straddled
  rw [hleast] at hstraddled
  have htarget := hstraddled.meets hlast.Rtau_pos h.flat
  exact absurd htarget (not_lt.mpr (hmissed _ hk))

end Turns

end Search

section Far
variable {t : Stress ℝ} {s : Search ℝ} {start : ℝ} {n : ℕ}

/-- The steps down add up to less than a factor 3. -/
theorem descent_le (hn : n ≤ 80) : descent (1.0001 : ℝ) n ≤ 3 := by
  have hbound : ∀ n, descent (1.0001 : ℝ) n ≤ Real.exp (1 - (1 / 2) ^ n + 1e-4 * n) := by
    intro n
    induction n with
    | zero => norm_num [descent]
    | succ n ih =>
        have hhalf : (0 : ℝ) ≤ (1 / 2) ^ (n + 1) := by positivity
        have hstep : (halved (1.0001 : ℝ))^[n + 1] 2 ≤ Real.exp ((1 / 2) ^ (n + 1) + 1e-4) := by
          rw [halved_iterate (by norm_num) (by norm_num)]
          apply le_trans _ (Real.add_one_le_exp _)
          norm_num
          constructor <;> linarith
        have hnonneg : (0 : ℝ) ≤ (halved 1.0001)^[n + 1] 2 := by
          rw [halved_iterate (by norm_num) (by norm_num)]
          exact le_max_of_le_right (by norm_num)
        have hsum : 1 - (1 / 2) ^ (n + 1) + 1e-4 * ((n + 1 : ℕ) : ℝ) =
            1 - (1 / 2) ^ n + 1e-4 * n + ((1 / 2) ^ (n + 1) + 1e-4) := by
          rw [pow_succ]
          push_cast
          ring
        rw [hsum, Real.exp_add, descent]
        exact mul_le_mul ih hstep hnonneg (Real.exp_pos _).le
  have hhalf : (0 : ℝ) ≤ (1 / 2) ^ n := by positivity
  have hcast : (n : ℝ) ≤ 80 := by exact_mod_cast hn
  have hsmall : Real.exp 0.008 ≤ 1 / (1 - 0.008) :=
    Real.exp_bound_div_one_sub_of_interval (by norm_num) (by norm_num)
  calc
    descent (1.0001 : ℝ) n ≤ Real.exp (1 - (1 / 2) ^ n + 1e-4 * n) := hbound n
    _ ≤ Real.exp (1 + 0.008) := by
      apply Real.exp_le_exp.mpr
      norm_num
      linarith
    _ = Real.exp 1 * Real.exp 0.008 := Real.exp_add ..
    _ ≤ 2.7182818286 * (1 / (1 - 0.008)) :=
      mul_le_mul Real.exp_one_lt_d9.le hsmall (Real.exp_pos _).le (by norm_num)
    _ ≤ 3 := by norm_num

/-- In 80 turns `Rtau` does not fall to a third of where it began. -/
theorem Search.Falling.third (h : s.Falling start n) (hstart : 0 < start) (hn : n ≤ 80) :
    start / 3 ≤ s.Rtau := by
  rw [h.Rtau]
  exact div_le_div_of_nonneg_left hstart.le (descent_pos (by norm_num) (by norm_num) n) (descent_le hn)

/-- Where the excess is too far below zero down to a third of the first `Rtau`, all turns miss the
target. -/
theorem search_missed (h : s.Falling start n) (hstart : 0 < start) {k : ℕ} (hk : n + (k + 1) ≤ 80)
    (hfar : ∀ Rtau, start / 3 ≤ Rtau → t.err Libm.real Rtau < -1.5e-4) :
    ∃ Rtau, t.err Libm.real Rtau < -1.5e-4 ∧
      (search Libm.real t (k + 1) s).lfact10 = t.factors Libm.real Rtau := by
  have hmissed : t.err Libm.real s.Rtau < -1.5e-4 := hfar _ (h.third hstart (by omega))
  have hneg : t.err Libm.real s.Rtau ≤ 0 := hmissed.le.trans (by norm_num)
  induction k generalizing s n with
  | zero =>
      refine ⟨s.Rtau, hmissed, ?_⟩
      rw [search_succ]
      split <;> rfl
  | succ k ih =>
      rw [search_succ]
      split
      · exact ⟨s.Rtau, hmissed, rfl⟩
      · have hnext := h.next hneg
        have hmissed' : t.err Libm.real (s.next Libm.real t).Rtau < -1.5e-4 :=
          hfar _ (hnext.third hstart (by omega))
        exact ih hnext (by omega) hmissed' (hmissed'.le.trans (by norm_num))

end Far

/-! ## Where the target is missed, and where it is met -/

variable {spec : Spectrum ℝ} {wind : WindForcing ℝ} {params : ST6Params ℝ} {dS_in : ℕ → ℕ → ℝ} {y : ℝ}

/-- Down to a third of the first `Rtau` of a large tension the excess is near -1. -/
theorem strained_err_far (hy : 1 / 4 ≤ y) (hlarge : 1000000 ≤ tension y) {Rtau : ℝ}
    (hRtau : (tension y - 1) / 90.0 / 3 ≤ Rtau) :
    (strained y).err Libm.real Rtau < -1.5e-4 := by
  have hthird : (tension y - 1) / 270 ≤ Rtau := by
    refine le_trans (le_of_eq ?_) hRtau
    norm_num
    ring
  have hpos : 0 ≤ Rtau := le_trans (by linarith) hthird
  have hquadratic : 1 + Rtau + Rtau ^ 2 / 2 ≤ Real.exp Rtau := Real.quadratic_le_exp_of_nonneg hpos
  have hsquare : ((tension y - 1) / 270) ^ 2 ≤ Rtau ^ 2 :=
    pow_le_pow_left₀ (by linarith) hthird 2
  have hle : tension y * 2 ≤ Real.exp Rtau := by nlinarith
  have hsmall : tension y * Real.exp (-Rtau) ≤ 1 / 2 := by
    rw [Real.exp_neg, ← div_eq_mul_inv, div_le_iff₀ (Real.exp_pos _)]
    linarith
  rw [strained_err hy hpos]
  norm_num
  linarith

/-- The first `Rtau` of a sea with the energy `saturated 1000`, about 1.4e10, is so far above the root
that 80 turns do not come down to it. -/
theorem constraint_misses_target :
    Windy gale st6_params_default ∧ (∀ i j, 0 ≤ (sea 1000).energy i j) ∧
      0 < (strained 1000).err_init Libm.real ∧
      ¬|(strained 1000).excess Libm.real (found_factors Libm.real (sea 1000) gale st6_params_default
        (wind_input Libm.real (sea 1000) gale st6_params_default))| ≤ 1.5e-4 := by
  have hy : (1 / 4 : ℝ) ≤ 1000 := by norm_num
  have hlarge : 1000000 ≤ tension 1000 := by
    have hbound := (tension_bounds (by norm_num : (0 : ℝ) ≤ 1000)).1
    have hpi := Real.pi_gt_three
    linarith
  have herr : 0 < (strained 1000).err_init Libm.real := by
    rw [strained_err_init hy]
    linarith
  refine ⟨gale_windy, sea_energy_nonneg hy, herr, ?_⟩
  have hfar : ∀ Rtau, (strained 1000).err_init Libm.real / 90.0 / 3 ≤ Rtau →
      (strained 1000).err Libm.real Rtau < -1.5e-4 := by
    intro Rtau hRtau
    rw [strained_err_init hy] at hRtau
    exact strained_err_far hy hlarge hRtau
  have hstart : 0 < (strained 1000).err_init Libm.real / 90.0 := div_pos herr (by norm_num)
  obtain ⟨Rtau, hmissed, hfactors⟩ :=
    search_missed (k := 79) (Search.Falling.first herr) hstart (by norm_num) hfar
  have hfound : found_factors Libm.real (sea 1000) gale st6_params_default
      (wind_input Libm.real (sea 1000) gale st6_params_default) =
        (strained 1000).factors Libm.real Rtau := (if_pos herr).trans hfactors
  rw [hfound]
  intro htarget
  have hlow := (abs_le.mp htarget).1
  exact absurd hmissed (not_lt.mpr hlow)

/-- The exponential does not fall through the whole target on the smallest step below 2. -/
theorem exp_flat {x y root : ℝ} (hsmall : root ≤ 2) (hstep : y ≤ x * 1.0001)
    (hfar : 1.5e-4 ≤ Real.exp (root - x) - 1) : -1.5e-4 < Real.exp (root - y) - 1 := by
  have hbelow : x < 2 := by
    have hpos : 1 < Real.exp (root - x) := by
      norm_num at hfar
      linarith
    rw [Real.one_lt_exp_iff, sub_pos] at hpos
    linarith
  have hgap : y - x ≤ 2e-4 := by
    norm_num at hstep ⊢
    linarith
  have hsplit : Real.exp (root - y) = Real.exp (root - x) * Real.exp (-(y - x)) := by
    rw [← Real.exp_add]
    congr 1
    ring
  have hfall : 1 - 2e-4 ≤ Real.exp (-(y - x)) := by
    have hexp := Real.add_one_le_exp (-(y - x))
    linarith
  have hprod : (1 + 1.5e-4) * (1 - 2e-4) ≤ Real.exp (root - x) * Real.exp (-(y - x)) := by
    apply mul_le_mul _ hfall (by norm_num) (Real.exp_pos _).le
    linarith
  rw [hsplit]
  norm_num at hprod ⊢
  linarith

/-- For a moderate tension the search finds the root, which is its logarithm. -/
theorem strained_findable (hy : 1 / 4 ≤ y) (hlower : 3 / 2 ≤ tension y) (hupper : tension y ≤ 7.3) :
    Findable ((strained y).err Libm.real) ((tension y - 1) / 90.0) := by
  have hpos : 0 < tension y := by linarith
  have hsmall : Real.log (tension y) ≤ 2 := by
    rw [Real.log_le_iff_le_exp hpos]
    calc
      tension y ≤ 7.3 := hupper
      _ ≤ 2.7182818283 ^ 2 := by norm_num
      _ ≤ Real.exp 1 ^ 2 := pow_le_pow_left₀ (by norm_num) Real.exp_one_gt_d9.le 2
      _ = Real.exp 2 := by
        rw [← Real.exp_nat_mul]
        norm_num
  have hvalue : ∀ x, 0 ≤ x → (strained y).err Libm.real x = Real.exp (Real.log (tension y) - x) - 1 := by
    intro x hx
    rw [strained_err hy hx, sub_eq_add_neg (Real.log _), Real.exp_add, Real.exp_log hpos]
  have hstart : 0 ≤ (tension y - 1) / 90.0 := div_nonneg (by linarith) (by norm_num)
  constructor
  · intro x x' hx hle hpos'
    rw [hvalue _ (hx.le.trans hle), sub_pos, Real.one_lt_exp_iff, sub_pos] at hpos'
    rw [hvalue _ hx.le, sub_pos, Real.one_lt_exp_iff, sub_pos]
    exact hle.trans_lt hpos'
  · intro x x' hx hlt hstep hfar
    rw [hvalue _ hx.le] at hfar
    rw [hvalue _ (hx.trans hlt).le]
    exact exp_flat hsmall hstep hfar
  · intro _
    refine ⟨65, le_rfl, ?_⟩
    have hlog := Real.log_le_sub_one_of_pos hpos
    have hpast : Real.log (tension y) ≤ (tension y - 1) / 90.0 * 2 ^ 65 := by
      norm_num
      linarith
    have hexp : Real.exp (Real.log (tension y) - (tension y - 1) / 90.0 * 2 ^ 65) ≤ 1 :=
      Real.exp_le_one_iff.mpr (sub_nonpos.mpr hpast)
    rw [hvalue _ (mul_nonneg hstart (by norm_num))]
    calc
      _ ≤ (1 : ℝ) - 1 := sub_le_sub_right hexp 1
      _ < 1.5e-4 := by norm_num
  · intro hneg
    have hlog := Real.one_sub_inv_le_log_of_pos hpos
    have hinv : (tension y)⁻¹ ≤ (3 / 2)⁻¹ := inv_anti₀ (by norm_num) hlower
    have hbelow : (tension y - 1) / 90.0 < Real.log (tension y) := by
      norm_num at hupper hinv ⊢
      linarith
    rw [hvalue _ hstart, sub_nonpos, Real.exp_le_one_iff, sub_nonpos] at hneg
    exact absurd hbelow (not_lt.mpr hneg)

/-- The excess that is left meets the target exactly where one of the turns does, and it does so where
the search can find the change of sign. -/
theorem constraint_meets_target
    (herr : 0 < (initial_stress Libm.real spec wind params dS_in).err_init Libm.real) :
    let t := initial_stress Libm.real spec wind params dS_in
    let found := found_factors Libm.real spec wind params dS_in
    (∀ i j, apply_stress_constraint2 Libm.real spec wind params dS_in i j = dS_in i j * found i) ∧
      (|t.excess Libm.real found| ≤ 1.5e-4 ↔
        (∃ k < 79, |t.err Libm.real (tried Libm.real t k)| < 1.5e-4) ∨
          |t.err Libm.real (tried Libm.real t 79)| ≤ 1.5e-4) ∧
      (Findable (t.err Libm.real) (t.err_init Libm.real / 90.0) →
        |t.excess Libm.real found| ≤ 1.5e-4) := by
  intro t found
  have hfound : found = (search Libm.real t 80 (Search.first (t.err_init Libm.real))).lfact10 :=
    if_pos herr
  refine ⟨apply_stress_constraint2_found spec wind params dS_in, ?_, ?_⟩
  · rw [hfound]
    exact excess_search_iff
  · intro hfind
    obtain ⟨Rtau, htarget, hfactors⟩ := search_found (exists_target herr hfind)
    rw [hfound, hfactors]
    exact htarget.le

/-- A sea that is a good deal lower. -/
theorem constraint_meets_target_low :
    0 < (strained (1 / 4)).err_init Libm.real ∧
      |(strained (1 / 4)).excess Libm.real (found_factors Libm.real (sea (1 / 4)) gale
        st6_params_default (wind_input Libm.real (sea (1 / 4)) gale st6_params_default))| ≤
          1.5e-4 := by
  have hbounds := tension_bounds (by norm_num : (0 : ℝ) ≤ 1 / 4)
  have hlower : 3 / 2 ≤ tension (1 / 4) := by
    have hpi := Real.pi_gt_three
    linarith
  have hupper : tension (1 / 4) ≤ 7.3 := by
    have hpi := Real.pi_lt_d2
    norm_num at hpi ⊢
    linarith
  have herr : (strained (1 / 4)).err_init Libm.real = tension (1 / 4) - 1 :=
    strained_err_init le_rfl
  have hpos : 0 < (strained (1 / 4)).err_init Libm.real := by
    rw [herr]
    linarith
  have hfind := strained_findable le_rfl hlower hupper
  rw [← herr] at hfind
  exact ⟨hpos, (constraint_meets_target hpos).2.2 hfind⟩

end OtusCProg.PointWaveModel
