import Bldc.Drive.Utils
import Bldc.Foundation.Arctan
import Bldc.Foundation.Machine
import Bldc.Foundation.Orbit
import Mathlib.Analysis.SpecialFunctions.Complex.Arg
import Mathlib.Analysis.SpecialFunctions.Trigonometric.Bounds

/-!
# The flux observer

The observer integrates the voltages to the flux of the motor and pulls what is left without
the inductance towards a circle. The angle of the rotor is the direction of that vector.
-/

namespace Bldc.Foc

open Utils Foundation

section Model

variable {K : Type} [Field K] [LinearOrder K]

/-- `utils_fast_atan2`. -/
def fastAtan2 (y x : K) : K :=
  let absY := |y| + 1e-10
  let angle :=
    if x ≥ 0 then
      let r := (x - absY) / (x + absY)
      (0.1963 * (r * r) - 0.9817) * r + mPi / 4.0
    else
      let r := (x + absY) / (absY - x)
      (0.1963 * (r * r) - 0.9817) * r + 3.0 * mPi / 4.0
  if y < 0 then -angle else angle

/-- What `observer_update` reads of `mc_configuration`. -/
structure ObserverConfiguration (K : Type) where
  focMotorL : K
  focMotorR : K
  focObserverGain : K
  focMotorFluxLinkage : K

/-- The voltages and the currents in one control period. -/
structure ObserverSample (K : Type) where
  vAlpha : K
  vBeta : K
  iAlpha : K
  iBeta : K

/-- `m_observer_x1`, `m_observer_x2` and `m_phase_now_observer`. -/
structure Observer (K : Type) where
  x1 : K
  x2 : K
  phase : K

namespace ObserverConfiguration

variable (conf : ObserverConfiguration K)

/-- `L` and `R` in `observer_update`. -/
def l : K := 3.0 / 2.0 * conf.focMotorL

def r : K := 3.0 / 2.0 * conf.focMotorR

end ObserverConfiguration

/-- `observer_update`. -/
def observerUpdate (conf : ObserverConfiguration K) (dt : K) (s : Observer K)
    (sample : ObserverSample K) : Observer K :=
  let gamma := conf.focObserverGain
  let linkage := conf.focMotorFluxLinkage
  let lia := conf.l * sample.iAlpha
  let lib := conf.l * sample.iBeta
  let k1 := linkage * linkage - ((s.x1 - lia) * (s.x1 - lia) + (s.x2 - lib) * (s.x2 - lib))
  let x1Dot := -conf.r * sample.iAlpha + sample.vAlpha + gamma / 2.0 * (s.x1 - lia) * k1
  let x2Dot := -conf.r * sample.iBeta + sample.vBeta + gamma / 2.0 * (s.x2 - lib) * k1
  let x1 := s.x1 + x1Dot * dt
  let x2 := s.x2 + x2Dot * dt
  let x1 := if |x1| > 1e20 then 0 else x1
  let x2 := if |x2| > 1e20 then 0 else x2
  ⟨x1, x2, fastAtan2 (x2 - conf.l * sample.iBeta) (x1 - conf.l * sample.iAlpha)⟩

/-- The observer, once in each control period. -/
def observer (conf : ObserverConfiguration K) (dt : K) :
    Machine (Observer K) (ObserverSample K) Empty where
  step s sample := (observerUpdate conf dt s sample, [])

/-- The observer after the first `n` of these samples. -/
def Observer.after (conf : ObserverConfiguration K) (dt : K) (s : Observer K)
    (samples : Nat → ObserverSample K) (n : Nat) : Observer K :=
  ((observer conf dt).run s ((List.range n).map samples)).1

/-! ## The motor -/

/-- The flux of the magnets. -/
@[ext]
structure Flux (K : Type) where
  alpha : K
  beta : K

/-- The voltages that are not lost to the resistance are the change of the flux, which is that of
the magnets and that of the inductance. -/
structure Drives (conf : ObserverConfiguration K) (dt : K) (samples : Nat → ObserverSample K)
    (flux : Nat → Flux K) : Prop where
  linkage (n : Nat) :
    (flux n).alpha ^ 2 + (flux n).beta ^ 2 = conf.focMotorFluxLinkage ^ 2
  alpha (n : Nat) : (flux (n + 1)).alpha + conf.l * (samples (n + 1)).iAlpha =
    (flux n).alpha + conf.l * (samples n).iAlpha +
      (-conf.r * (samples n).iAlpha + (samples n).vAlpha) * dt
  beta (n : Nat) : (flux (n + 1)).beta + conf.l * (samples (n + 1)).iBeta =
    (flux n).beta + conf.l * (samples n).iBeta +
      (-conf.r * (samples n).iBeta + (samples n).vBeta) * dt
  -- the flux is far below the bound of the observer
  bounded (n : Nat) : |conf.focMotorFluxLinkage| + |conf.focMotorFluxLinkage| +
    (|conf.l * (samples n).iAlpha| + |conf.l * (samples n).iBeta|) ≤ 1e20

def Flux.turn (cos sin : K) (flux : Flux K) : Flux K :=
  ⟨cos * flux.alpha - sin * flux.beta, sin * flux.alpha + cos * flux.beta⟩

/-- The rotor turns by the same angle in each period. -/
def Turns (cos sin : K) (flux : Nat → Flux K) : Prop :=
  ∀ n, flux (n + 1) = (flux n).turn cos sin

/-- The vector that the observer draws to the circle. -/
def Observer.vector (conf : ObserverConfiguration K) (s : Observer K) (sample : ObserverSample K) :
    Flux K :=
  ⟨s.x1 - conf.l * sample.iAlpha, s.x2 - conf.l * sample.iBeta⟩

/-- How far two vectors are from each other, squared. -/
def Flux.distSq (flux vector : Flux K) : K :=
  (vector.alpha - flux.alpha) ^ 2 + (vector.beta - flux.beta) ^ 2

/-- The vector with this offset from the flux, in units of the flux and along it. -/
def Flux.displaced (flux : Flux K) (e : Offset K) : Flux K where
  alpha := flux.alpha * (1 + e.along) - flux.beta * e.across
  beta := flux.beta * (1 + e.along) + flux.alpha * e.across

/-- The vector, when the flux goes from the one to the other and takes it along. -/
def Flux.carried (flux flux' vector : Flux K) : Flux K :=
  ⟨vector.alpha + (flux'.alpha - flux.alpha), vector.beta + (flux'.beta - flux.beta)⟩

/-- The flux with the change of the currents, which the observer has not seen yet when it takes
the angle. -/
def Flux.late (conf : ObserverConfiguration K) (flux : Flux K) (sample sample' : ObserverSample K) :
    Flux K :=
  ⟨flux.alpha + conf.l * (sample'.iAlpha - sample.iAlpha),
    flux.beta + conf.l * (sample'.iBeta - sample.iBeta)⟩

/-- How strongly the observer draws the vector to the circle. -/
def ObserverConfiguration.pull (conf : ObserverConfiguration K) (dt : K) : K :=
  conf.focObserverGain / 2.0 * dt * conf.focMotorFluxLinkage ^ 2

/-- The observer as one that draws to a circle, from which the rotor is seen. -/
def ObserverConfiguration.draw (conf : ObserverConfiguration K) (dt cos sin : K) : Draw K :=
  ⟨conf.pull dt, cos, sin⟩

/-- The values of the default configuration. -/
def usualObserver : ObserverConfiguration K := ⟨0.000007, 0.015, 90000000.0, 0.00245⟩

/-- The voltages of a motor without currents. -/
def coasting (dt : K) (flux : Nat → Flux K) (n : Nat) : ObserverSample K where
  vAlpha := ((flux (n + 1)).alpha - (flux n).alpha) / dt
  vBeta := ((flux (n + 1)).beta - (flux n).beta) / dt
  iAlpha := 0
  iBeta := 0

/-- The flux of a rotor that turns by this angle in each period. -/
def turningFlux (cos sin linkage : K) (n : Nat) : Flux K := (Flux.turn cos sin)^[n] ⟨linkage, 0⟩

def quickRotor : Nat → Flux K := turningFlux 0.8 0.6 0.00245

def quickMotor : Nat → ObserverSample K := coasting 0.00005 quickRotor

end Model

def Flux.toComplex (flux : Flux ℝ) : ℂ := ⟨flux.alpha, flux.beta⟩

/-! ## The arcus tangens -/

/-- The gap of the cubic in `utils_fast_atan2`. -/
noncomputable abbrev gap : ℝ → ℝ := arctanGap 0.9817 0.1963

theorem gap_first {r : ℝ} (hr : 0 ≤ r) (hle : r ≤ 0.3) : -0.006 ≤ gap r ∧ gap r ≤ 0.006 := by
  have hup : gap r - gap 0 ≤ 0.0183 * (r - 0) := by
    apply arctanGap_sub_le hr
    intro x hx hxr
    have hsq : x ^ 2 ≤ 0.09 := by nlinarith
    nlinarith [sq_nonneg x]
  have hdown : -0.02 * (r - 0) ≤ gap r - gap 0 := by
    apply le_arctanGap_sub hr
    intro x hx hxr
    have hsq : x ^ 2 ≤ 0.09 := by nlinarith
    nlinarith [sq_nonneg x, sq_nonneg (x ^ 2)]
  have hzero : gap 0 = 0 := arctanGap_zero _ _
  rw [hzero] at hup hdown
  constructor <;> linarith

/-- In the middle the cubic falls behind. -/
theorem gap_antitone {p q : ℝ} (hp : 0.3 ≤ p) (hpq : p ≤ q) (hq : q ≤ 0.785) : gap q ≤ gap p := by
  have hdown : gap q - gap p ≤ 0 * (q - p) := by
    apply arctanGap_sub_le hpq
    intro x hx hxq
    have hlo : 0.09 ≤ x ^ 2 := by nlinarith
    have hhi : x ^ 2 ≤ 0.616225 := by nlinarith
    nlinarith [mul_nonneg (sub_nonneg.2 hlo) (sub_nonneg.2 hhi)]
  linarith

/-- Then it catches up. -/
theorem gap_last {p q : ℝ} (hp : 0.785 ≤ p) (hpq : p ≤ q) : gap p - 0.001 * (q - p) ≤ gap q := by
  have hup : -0.001 * (q - p) ≤ gap q - gap p := by
    apply le_arctanGap_sub hpq
    intro x hx hxq
    have hlo : 0.616225 ≤ x ^ 2 := by nlinarith
    nlinarith
  linarith

theorem gap_one : gap 1 ≤ 0 := by
  have hpi := Real.pi_lt_d4
  unfold gap arctanGap
  rw [Real.arctan_one]
  norm_num
  linarith

/-- Where the cubic is off the most. -/
theorem gap_lowest : -0.01077 ≤ gap 0.785 := by
  have hpi := Real.pi_gt_d4
  have hsmall : Real.arctan (43 / 357) ≤ 43 / 357 := by
    have hspread := abs_arctan_sub_le (43 / 357) 0
    rw [Real.arctan_zero, sub_zero, sub_zero, abs_of_nonneg (by norm_num : (0 : ℝ) ≤ 43 / 357)]
      at hspread
    exact (le_abs_self _).trans hspread
  have hreflect := arctan_reflect (show (-1 : ℝ) < 0.785 by norm_num)
  have hratio : ((1 : ℝ) - 0.785) / (1 + 0.785) = 43 / 357 := by norm_num
  rw [hratio] at hreflect
  unfold gap arctanGap
  rw [hreflect]
  norm_num
  linarith

theorem abs_gap_le {r : ℝ} (h : |r| ≤ 1) : |gap r| ≤ 0.01099 := by
  have hpositive {r : ℝ} (hr : 0 ≤ r) (hle : r ≤ 1) : |gap r| ≤ 0.01099 := by
    rw [abs_le]
    rcases le_total r 0.3 with hfirst | hfirst
    · rcases gap_first hr hfirst with ⟨hlo, hhi⟩
      constructor <;> linarith
    · rcases le_total r 0.785 with hmiddle | hmiddle
      · have hlo := gap_antitone hfirst hmiddle le_rfl
        have hhi := gap_antitone le_rfl hfirst hmiddle
        have hstart := (gap_first (by norm_num) (le_refl (0.3 : ℝ))).2
        have hlowest := gap_lowest
        constructor <;> linarith
      · have hlo := gap_last le_rfl hmiddle
        have hhi := gap_last hmiddle hle
        have hlowest := gap_lowest
        have hend := gap_one
        constructor <;> linarith
  rcases le_total 0 r with hr | hr
  · exact hpositive hr (le_of_abs_le h)
  · have hflip : gap (-r) = -gap r := arctanGap_neg _ _ r
    have hneg := hpositive (neg_nonneg.2 hr) (by linarith [neg_le_of_abs_le h])
    rw [hflip, abs_neg] at hneg
    exact hneg

/-! ## Angles -/

/-- The ratio from which the angle in the first quadrant is found. -/
theorem arctan_ratio {x y : ℝ} (hx : 0 ≤ x) (hy : 0 ≤ y) (hne : 0 < x + y) :
    Real.arctan ((x - y) / (x + y)) = Real.pi / 4 - Complex.arg ⟨x, y⟩ := by
  set z : ℂ := ⟨x, y⟩ with hz
  have hnorm : 0 < ‖z‖ := by
    rw [norm_pos_iff]
    intro hzero
    have hre : x = 0 := congrArg Complex.re hzero
    have him : y = 0 := congrArg Complex.im hzero
    linarith
  have hcos : ‖z‖ * Real.cos z.arg = x := Complex.norm_mul_cos_arg z
  have hsin : ‖z‖ * Real.sin z.arg = y := Complex.norm_mul_sin_arg z
  have hlo : 0 ≤ z.arg := Complex.arg_nonneg_iff.2 hy
  have hhi : z.arg ≤ Real.pi / 2 :=
    (le_abs_self _).trans (Complex.abs_arg_le_pi_div_two_iff.2 hx)
  have hpi := Real.pi_pos
  have htan : Real.tan (Real.pi / 4 - z.arg) = (x - y) / (x + y) := by
    have hroot : (√2 / 2 : ℝ) * ‖z‖⁻¹ ≠ 0 := by positivity
    have hx' : Real.cos z.arg = ‖z‖⁻¹ * x := by
      rw [← hcos, inv_mul_cancel_left₀ hnorm.ne']
    have hy' : Real.sin z.arg = ‖z‖⁻¹ * y := by
      rw [← hsin, inv_mul_cancel_left₀ hnorm.ne']
    have hnum : Real.sin (Real.pi / 4 - z.arg) = √2 / 2 * ‖z‖⁻¹ * (x - y) := by
      rw [Real.sin_sub, Real.sin_pi_div_four, Real.cos_pi_div_four, hx', hy']
      ring
    have hden : Real.cos (Real.pi / 4 - z.arg) = √2 / 2 * ‖z‖⁻¹ * (x + y) := by
      rw [Real.cos_sub, Real.sin_pi_div_four, Real.cos_pi_div_four, hx', hy']
      ring
    rw [Real.tan_eq_sin_div_cos, hnum, hden, mul_div_mul_left _ _ hroot]
  rw [← htan]
  exact Real.arctan_tan (by linarith) (by linarith)

/-- The kludge against a division by zero turns the ratio a little. -/
theorem abs_ratio_sub_le {x y δ : ℝ} (hx : 0 ≤ x) (hy : 0 ≤ y) (hδ : 0 ≤ δ) (hne : 0 < x + y) :
    |(x - (y + δ)) / (x + (y + δ)) - (x - y) / (x + y)| ≤ 2 * δ / (x + y) := by
  have hsum : 0 < x + (y + δ) := by linarith
  have hdiff : (x - (y + δ)) / (x + (y + δ)) - (x - y) / (x + y) =
      -(2 * δ / (x + y) * (x / (x + (y + δ)))) := by
    field_simp
    ring
  have hpart : x / (x + (y + δ)) ≤ 1 := (div_le_one hsum).2 (by linarith)
  rw [hdiff, abs_neg, abs_of_nonneg (by positivity)]
  exact mul_le_of_le_one_right (by positivity) hpart

theorem norm_le_sum {x y : ℝ} (hx : 0 ≤ x) (hy : 0 ≤ y) : ‖(⟨x, y⟩ : ℂ)‖ ≤ x + y := by
  have hnorm := Complex.norm_le_abs_re_add_abs_im ⟨x, y⟩
  rwa [abs_of_nonneg hx, abs_of_nonneg hy] at hnorm

theorem abs_mPi_sub_le : |(mPi : ℝ) - Real.pi| ≤ 0.000001 := by
  have hlo := Real.pi_gt_d20
  have hhi := Real.pi_lt_d20
  unfold mPi
  rw [abs_le]
  constructor <;> linarith

/-- In the first quadrant. -/
theorem fastAtan2_first {x y : ℝ} (hx : 0 ≤ x) (hy : 0 ≤ y) (hne : 0 < x + y) :
    |fastAtan2 y x - Complex.arg ⟨x, y⟩| ≤ 0.010995 + 2e-10 / ‖(⟨x, y⟩ : ℂ)‖ := by
  have hnorm : 0 < ‖(⟨x, y⟩ : ℂ)‖ := by
    rw [norm_pos_iff]
    intro hzero
    have hre : x = 0 := congrArg Complex.re hzero
    have him : y = 0 := congrArg Complex.im hzero
    linarith
  obtain ⟨r, hr⟩ : ∃ r, (x - (y + 1e-10)) / (x + (y + 1e-10)) = r := ⟨_, rfl⟩
  have hangle : fastAtan2 y x = mPi / 4 + gap r - Real.arctan r := by
    unfold fastAtan2 gap arctanGap
    rw [abs_of_nonneg hy, if_neg (not_lt.2 hy), if_pos hx]
    dsimp only
    rw [hr]
    norm_num
    ring
  have hsum : 0 < x + (y + 1e-10) := by linarith
  have hle : |r| ≤ 1 := by
    rw [← hr, abs_div, abs_of_pos hsum, div_le_one hsum, abs_le]
    constructor <;> linarith
  have hturn : |Real.arctan r - Real.arctan ((x - y) / (x + y))| ≤ 2e-10 / ‖(⟨x, y⟩ : ℂ)‖ := by
    calc |Real.arctan r - Real.arctan ((x - y) / (x + y))|
        ≤ |r - (x - y) / (x + y)| := abs_arctan_sub_le _ _
      _ ≤ 2 * 1e-10 / (x + y) := by
          rw [← hr]
          exact abs_ratio_sub_le hx hy (by norm_num) hne
      _ ≤ 2 * 1e-10 / ‖(⟨x, y⟩ : ℂ)‖ :=
          div_le_div_of_nonneg_left (by norm_num) hnorm (norm_le_sum hx hy)
      _ = 2e-10 / ‖(⟨x, y⟩ : ℂ)‖ := by norm_num
  have hgap := abs_le.1 (abs_gap_le hle)
  have hpi := abs_le.1 abs_mPi_sub_le
  have hturn' := abs_le.1 hturn
  rw [arctan_ratio hx hy hne] at hturn'
  rw [hangle, abs_le]
  constructor <;> linarith

/-- Behind the axis the angle is what is left of half a turn. -/
theorem fastAtan2_neg_left {x y : ℝ} (hx : 0 < x) (hy : 0 ≤ y) :
    fastAtan2 y (-x) = mPi - fastAtan2 y x := by
  have hr : (-x + (y + 1e-10)) / (y + 1e-10 - -x) = -((x - (y + 1e-10)) / (x + (y + 1e-10))) := by
    rw [← neg_div]
    congr 1 <;> ring
  unfold fastAtan2
  rw [abs_of_nonneg hy, if_neg (not_lt.2 hy), if_neg (not_lt.2 hy), if_pos hx.le,
    if_neg (by linarith)]
  dsimp only
  rw [hr]
  norm_num
  ring

theorem arg_neg_left {x y : ℝ} (hx : 0 < x) (hy : 0 ≤ y) :
    Complex.arg ⟨-x, y⟩ = Real.pi - Complex.arg ⟨x, y⟩ := by
  have hnorm : ‖(⟨-x, y⟩ : ℂ)‖ = ‖(⟨x, y⟩ : ℂ)‖ := by
    simp [Complex.norm_def, Complex.normSq_apply]
  have hneg : (-x : ℝ) < 0 := by linarith
  rw [Complex.arg_of_re_neg_of_im_nonneg hneg hy, Complex.arg_of_re_nonneg hx.le, hnorm]
  simp [neg_div, Real.arcsin_neg]
  ring

/-- Below the axis it is turned round. -/
theorem fastAtan2_neg_right {x y : ℝ} (hy : 0 < y) : fastAtan2 (-y) x = -fastAtan2 y x := by
  unfold fastAtan2
  rw [abs_neg, if_pos (neg_lt_zero.2 hy), if_neg (not_lt.2 hy.le)]

theorem arg_neg_right {x y : ℝ} (hy : 0 < y) : Complex.arg ⟨x, -y⟩ = -Complex.arg ⟨x, y⟩ := by
  have hne : Complex.arg ⟨x, y⟩ ≠ Real.pi := fun heq => hy.ne' (Complex.arg_eq_pi_iff.1 heq).2
  have hconj := Complex.arg_conj ⟨x, y⟩
  rwa [if_neg hne] at hconj

theorem fastAtan2_upper {x y : ℝ} (hy : 0 ≤ y) (hne : (⟨x, y⟩ : ℂ) ≠ 0) :
    |fastAtan2 y x - Complex.arg ⟨x, y⟩| ≤ 0.011 + 2e-10 / ‖(⟨x, y⟩ : ℂ)‖ := by
  rcases le_or_gt 0 x with hx | hx
  · have hsum : 0 < x + y := by
      by_contra hnot
      apply hne
      apply Complex.ext <;> simp <;> linarith
    linarith [fastAtan2_first hx hy hsum]
  · obtain ⟨x, rfl⟩ : ∃ x', x = -x' := ⟨-x, (neg_neg x).symm⟩
    have hpos : 0 < x := neg_lt_zero.1 hx
    have hnorm : ‖(⟨-x, y⟩ : ℂ)‖ = ‖(⟨x, y⟩ : ℂ)‖ := by
      simp [Complex.norm_def, Complex.normSq_apply]
    have hfirst := abs_le.1 (fastAtan2_first hpos.le hy (by linarith))
    have hpi := abs_le.1 abs_mPi_sub_le
    rw [fastAtan2_neg_left hpos hy, arg_neg_left hpos hy, hnorm, abs_le]
    constructor <;> linarith

/-- In all of them. -/
theorem fastAtan2_arg {x y : ℝ} (hne : (⟨x, y⟩ : ℂ) ≠ 0) :
    |fastAtan2 y x - Complex.arg ⟨x, y⟩| ≤ 0.011 + 2e-10 / ‖(⟨x, y⟩ : ℂ)‖ := by
  rcases le_or_gt 0 y with hy | hy
  · exact fastAtan2_upper hy hne
  · obtain ⟨y, rfl⟩ : ∃ y', y = -y' := ⟨-y, (neg_neg y).symm⟩
    have hpos : 0 < y := neg_lt_zero.1 hy
    have hnorm : ‖(⟨x, -y⟩ : ℂ)‖ = ‖(⟨x, y⟩ : ℂ)‖ := by
      simp [Complex.norm_def, Complex.normSq_apply]
    have hflip : (⟨x, y⟩ : ℂ) ≠ 0 := by
      rw [← norm_pos_iff, ← hnorm, norm_pos_iff]
      exact hne
    have hbound := fastAtan2_upper hpos.le hflip
    rw [fastAtan2_neg_right hpos, arg_neg_right hpos, hnorm, ← neg_sub', abs_neg]
    exact hbound

/-- `utils_fast_atan2` gives the direction of every vector: one of the same length with this angle
is not further away than 1.1 percent of the length. -/
theorem fastAtan2_direction (x y : ℝ) :
    ‖(⟨x, y⟩ : ℂ) - ‖(⟨x, y⟩ : ℂ)‖ * Complex.exp (Complex.I * fastAtan2 y x)‖ ≤
      0.011 * ‖(⟨x, y⟩ : ℂ)‖ + 2e-10 := by
  by_cases hzero : (⟨x, y⟩ : ℂ) = 0
  · rw [hzero]
    norm_num
  · have hbound := fastAtan2_arg hzero
    generalize fastAtan2 y x = angle at hbound ⊢
    generalize (⟨x, y⟩ : ℂ) = z at hzero hbound ⊢
    have hnorm : 0 < ‖z‖ := norm_pos_iff.2 hzero
    have hturn : z - ‖z‖ * Complex.exp (Complex.I * angle) =
        -(z * (Complex.exp (Complex.I * ((angle - z.arg : ℝ) : ℂ)) - 1)) := by
      have hangle : Complex.I * (angle : ℂ) =
          z.arg * Complex.I + Complex.I * ((angle - z.arg : ℝ) : ℂ) := by
        push_cast
        ring
      rw [hangle, Complex.exp_add, ← mul_assoc, Complex.norm_mul_exp_arg_mul_I]
      ring
    calc ‖z - ‖z‖ * Complex.exp (Complex.I * angle)‖
        = ‖z‖ * ‖Complex.exp (Complex.I * ((angle - z.arg : ℝ) : ℂ)) - 1‖ := by
          rw [hturn, norm_neg, norm_mul]
      _ ≤ ‖z‖ * |angle - z.arg| :=
          mul_le_mul_of_nonneg_left Real.norm_exp_I_mul_ofReal_sub_one_le hnorm.le
      _ ≤ ‖z‖ * (0.011 + 2e-10 / ‖z‖) := mul_le_mul_of_nonneg_left hbound hnorm.le
      _ = 0.011 * ‖z‖ + 2e-10 := by
          field_simp

/-! ## The observer and the motor -/

section Proof

variable {K : Type} [Field K] [LinearOrder K] [IsStrictOrderedRing K]
  {conf : ObserverConfiguration K} {dt cos sin : K} {samples : Nat → ObserverSample K}
  {flux : Nat → Flux K} {s : Observer K}

omit [IsStrictOrderedRing K] in
theorem Observer.after_succ (n : Nat) :
    s.after conf dt samples (n + 1) =
      observerUpdate conf dt (s.after conf dt samples n) (samples n) := by
  rw [Observer.after, List.range_succ, List.map_append, Machine.run_append]
  rfl

omit [LinearOrder K] [IsStrictOrderedRing K] in
/-- Every vector has an offset. -/
theorem Flux.exists_displaced {flux : Flux K} (hne : flux.alpha ^ 2 + flux.beta ^ 2 ≠ 0)
    (vector : Flux K) : ∃ e, vector = flux.displaced e := by
  refine ⟨⟨(flux.alpha * vector.alpha + flux.beta * vector.beta) /
      (flux.alpha ^ 2 + flux.beta ^ 2) - 1,
    (flux.alpha * vector.beta - flux.beta * vector.alpha) /
      (flux.alpha ^ 2 + flux.beta ^ 2)⟩, ?_⟩
  unfold displaced
  ext
  · dsimp only
    field_simp
    ring
  · dsimp only
    field_simp
    ring

omit [LinearOrder K] [IsStrictOrderedRing K] in
theorem Flux.distSq_displaced (flux : Flux K) (e : Offset K) :
    flux.distSq (flux.displaced e) = (flux.alpha ^ 2 + flux.beta ^ 2) * e.sq := by
  unfold distSq displaced Offset.sq
  ring

/-- A vector that is close to the flux is no longer than twice the linkage. -/
theorem Flux.abs_displaced_le {flux : Flux K} {linkage : K} {e : Offset K}
    (hflux : flux.alpha ^ 2 + flux.beta ^ 2 = linkage ^ 2) (hsmall : 4 * e.sq ≤ 1) :
    |(flux.displaced e).alpha| ≤ |linkage| + |linkage| ∧
      |(flux.displaced e).beta| ≤ |linkage| + |linkage| := by
  have hsplit : (flux.displaced e).alpha ^ 2 + (flux.displaced e).beta ^ 2 =
      linkage ^ 2 * ((1 + e.along) ^ 2 + e.across ^ 2) := by
    rw [← hflux]
    unfold displaced
    ring
  have hfactor : (1 + e.along) ^ 2 + e.across ^ 2 ≤ 4 := by
    unfold Offset.sq at hsmall
    nlinarith [sq_nonneg (1 - e.along), sq_nonneg e.across]
  have htotal : (flux.displaced e).alpha ^ 2 + (flux.displaced e).beta ^ 2 ≤
      (|linkage| + |linkage|) ^ 2 := by
    have hscaled := mul_le_mul_of_nonneg_left hfactor (sq_nonneg linkage)
    have habs : (|linkage| + |linkage|) ^ 2 = linkage ^ 2 * 4 := by
      rw [← sq_abs linkage]
      ring
    linarith
  have hnonneg : 0 ≤ |linkage| + |linkage| := by positivity
  constructor
  · exact abs_le_of_sq_le_sq (by linarith [sq_nonneg (flux.displaced e).beta]) hnonneg
  · exact abs_le_of_sq_le_sq (by linarith [sq_nonneg (flux.displaced e).alpha]) hnonneg

/-- The observer goes with the motor and draws its vector to the circle, and there it is not
reset. -/
theorem vector_observerUpdate (hdrives : Drives conf dt samples flux) {n : Nat} {e : Offset K}
    {vector : Flux K} (hvector : s.vector conf (samples n) = (flux n).displaced e)
    (hcarried : (flux n).carried (flux (n + 1)) ((flux n).displaced (e.drawn (conf.pull dt))) =
      vector)
    (halpha : |vector.alpha| ≤ |conf.focMotorFluxLinkage| + |conf.focMotorFluxLinkage|)
    (hbeta : |vector.beta| ≤ |conf.focMotorFluxLinkage| + |conf.focMotorFluxLinkage|) :
    (observerUpdate conf dt s (samples n)).vector conf (samples (n + 1)) = vector := by
  have hx1 : s.x1 - conf.l * (samples n).iAlpha = ((flux n).displaced e).alpha :=
    congrArg Flux.alpha hvector
  have hx2 : s.x2 - conf.l * (samples n).iBeta = ((flux n).displaced e).beta :=
    congrArg Flux.beta hvector
  have hlength : conf.focMotorFluxLinkage * conf.focMotorFluxLinkage -
      (((flux n).displaced e).alpha * ((flux n).displaced e).alpha +
        ((flux n).displaced e).beta * ((flux n).displaced e).beta) =
      -(conf.focMotorFluxLinkage ^ 2 * e.excess) := by
    unfold Flux.displaced Offset.excess Offset.sq
    linear_combination -((1 + e.along) ^ 2 + e.across ^ 2) * hdrives.linkage n
  obtain ⟨gain, hgain⟩ : ∃ gain, conf.focObserverGain / 2.0 = gain := ⟨_, rfl⟩
  have hnext1 : s.x1 + (-conf.r * (samples n).iAlpha + (samples n).vAlpha +
      gain * ((flux n).displaced e).alpha * -(conf.focMotorFluxLinkage ^ 2 * e.excess)) * dt =
      vector.alpha + conf.l * (samples (n + 1)).iAlpha := by
    rw [← hcarried]
    simp only [Flux.carried, Flux.displaced, Offset.drawn, ObserverConfiguration.pull,
      hgain] at hx1 ⊢
    linear_combination hx1 - hdrives.alpha n
  have hnext2 : s.x2 + (-conf.r * (samples n).iBeta + (samples n).vBeta +
      gain * ((flux n).displaced e).beta * -(conf.focMotorFluxLinkage ^ 2 * e.excess)) * dt =
      vector.beta + conf.l * (samples (n + 1)).iBeta := by
    rw [← hcarried]
    simp only [Flux.carried, Flux.displaced, Offset.drawn, ObserverConfiguration.pull,
      hgain] at hx2 ⊢
    linear_combination hx2 - hdrives.beta n
  have hbounded := hdrives.bounded (n + 1)
  have hkeep1 : ¬|vector.alpha + conf.l * (samples (n + 1)).iAlpha| > 1e20 := by
    apply not_lt.2
    linarith [abs_add_le vector.alpha (conf.l * (samples (n + 1)).iAlpha),
      abs_nonneg (conf.l * (samples (n + 1)).iBeta)]
  have hkeep2 : ¬|vector.beta + conf.l * (samples (n + 1)).iBeta| > 1e20 := by
    apply not_lt.2
    linarith [abs_add_le vector.beta (conf.l * (samples (n + 1)).iBeta),
      abs_nonneg (conf.l * (samples (n + 1)).iAlpha)]
  unfold Observer.vector observerUpdate
  dsimp only
  rw [hx1, hx2, hlength, hgain, hnext1, hnext2, if_neg hkeep1, if_neg hkeep2]
  ext <;> simp

omit [LinearOrder K] [IsStrictOrderedRing K] in
/-- Seen from a flux that has turned, the vector is turned back. -/
theorem Flux.carried_turn {d : Draw K} (hcircle : d.cos ^ 2 + d.sin ^ 2 = 1) (flux : Flux K)
    (e : Offset K) :
    flux.carried (flux.turn d.cos d.sin) (flux.displaced (e.drawn d.pull)) =
      (flux.turn d.cos d.sin).displaced (d.next e) := by
  unfold carried turn displaced Draw.next Draw.turnBack
  generalize e.drawn d.pull = e'
  ext
  · dsimp only
    linear_combination -(flux.alpha * e'.along - flux.beta * e'.across) * hcircle
  · dsimp only
    linear_combination -(flux.beta * e'.along + flux.alpha * e'.across) * hcircle

/-- A vector that starts close to the flux of a rotor that turns steadily is drawn as in the
plane of that rotor. -/
theorem vector_after (hdrives : Drives conf dt samples flux) (hturns : Turns cos sin flux)
    (hcircle : cos ^ 2 + sin ^ 2 = 1) {e : Offset K}
    (hsmall : ∀ n, 4 * ((conf.draw dt cos sin).next^[n] e).sq ≤ 1)
    (hstart : s.vector conf (samples 0) = (flux 0).displaced e) (n : Nat) :
    (s.after conf dt samples n).vector conf (samples n) =
      (flux n).displaced ((conf.draw dt cos sin).next^[n] e) := by
  induction n with
  | zero => exact hstart
  | succ n ih =>
      have hcarried : (flux n).carried (flux (n + 1)) ((flux n).displaced
          (((conf.draw dt cos sin).next^[n] e).drawn (conf.pull dt))) =
            (flux (n + 1)).displaced ((conf.draw dt cos sin).next^[n + 1] e) := by
        rw [hturns n, Function.iterate_succ_apply']
        exact Flux.carried_turn (d := conf.draw dt cos sin) hcircle (flux n) _
      rcases Flux.abs_displaced_le (hdrives.linkage (n + 1)) (hsmall (n + 1)) with ⟨halpha, hbeta⟩
      rw [Observer.after_succ]
      exact vector_observerUpdate hdrives ih hcarried halpha hbeta

omit [LinearOrder K] [IsStrictOrderedRing K] in
theorem turningFlux_linkage {linkage : K} (hcircle : cos ^ 2 + sin ^ 2 = 1) (n : Nat) :
    (turningFlux cos sin linkage n).alpha ^ 2 + (turningFlux cos sin linkage n).beta ^ 2 =
      linkage ^ 2 := by
  induction n with
  | zero => simp [turningFlux]
  | succ n ih =>
      unfold turningFlux at ih ⊢
      rw [Function.iterate_succ_apply', ← ih]
      generalize (Flux.turn cos sin)^[n] ⟨linkage, 0⟩ = flux
      unfold Flux.turn
      linear_combination (flux.alpha ^ 2 + flux.beta ^ 2) * hcircle

omit [LinearOrder K] [IsStrictOrderedRing K] in
theorem turns_turningFlux (cos sin linkage : K) : Turns cos sin (turningFlux cos sin linkage) :=
  fun n => Function.iterate_succ_apply' (Flux.turn cos sin) n _

/-- Voltages that drive a motor without currents. -/
theorem drives_coasting (hdt : dt ≠ 0)
    (hlinkage : ∀ n, (flux n).alpha ^ 2 + (flux n).beta ^ 2 = conf.focMotorFluxLinkage ^ 2)
    (hbounded : |conf.focMotorFluxLinkage| + |conf.focMotorFluxLinkage| ≤ 1e20) :
    Drives conf dt (coasting dt flux) flux := by
  constructor
  · exact hlinkage
  · intro n
    simp [coasting, hdt]
  · intro n
    simp [coasting, hdt]
  · intro n
    simpa [coasting] using hbounded

theorem drives_quickMotor :
    Drives (usualObserver : ObserverConfiguration K) 0.00005 quickMotor quickRotor := by
  apply drives_coasting (by norm_num)
  · exact turningFlux_linkage (by norm_num)
  · norm_num [usualObserver]

/-- The observer finds the flux of a rotor that turns steadily, at any speed but those where
a period is a multiple of a right angle: from a start that is close enough the distance dies out
geometrically. -/
theorem observer_converges (hdrives : Drives conf dt samples flux) (hturns : Turns cos sin flux)
    (hcircle : cos ^ 2 + sin ^ 2 = 1) (hturn : cos * sin ≠ 0) (hpos : 0 < conf.pull dt)
    (hle : 4 * conf.pull dt ≤ 1)
    (hclose : 243000 * (flux 0).distSq (s.vector conf (samples 0)) ≤
      (cos * sin) ^ 4 * conf.focMotorFluxLinkage ^ 2) (n : Nat) :
    (flux n).distSq ((s.after conf dt samples n).vector conf (samples n)) ≤
      3 * (1 - conf.pull dt * (cos * sin) ^ 2 / 54) ^ n *
        (flux 0).distSq (s.vector conf (samples 0)) := by
  have hlinkage : 0 < conf.focMotorFluxLinkage ^ 2 := by
    apply sq_pos_of_ne_zero
    intro hzero
    unfold ObserverConfiguration.pull at hpos
    simp [hzero] at hpos
  have hne : (flux 0).alpha ^ 2 + (flux 0).beta ^ 2 ≠ 0 := by
    rw [hdrives.linkage]
    exact hlinkage.ne'
  rcases Flux.exists_displaced hne (s.vector conf (samples 0)) with ⟨e, he⟩
  have hdist (n : Nat) (e : Offset K) : (flux n).distSq ((flux n).displaced e) =
      conf.focMotorFluxLinkage ^ 2 * e.sq := by
    rw [Flux.distSq_displaced, hdrives.linkage]
  have hnear : 243000 * e.sq ≤ (cos * sin) ^ 4 := by
    rw [he, hdist] at hclose
    have hscaled : conf.focMotorFluxLinkage ^ 2 * (243000 * e.sq) ≤
        conf.focMotorFluxLinkage ^ 2 * (cos * sin) ^ 4 := by linarith
    exact le_of_mul_le_mul_left hscaled hlinkage
  have hrun (n : Nat) : 4 * ((conf.draw dt cos sin).next^[n] e).sq ≤ 1 ∧
      ((conf.draw dt cos sin).next^[n] e).sq ≤
        3 * (1 - conf.pull dt * (cos * sin) ^ 2 / 54) ^ n * e.sq :=
    Draw.sq_iterate_le (d := conf.draw dt cos sin) hpos hle hcircle hturn hnear n
  rw [vector_after hdrives hturns hcircle (fun n => (hrun n).1) he n, he, hdist, hdist]
  have hscaled := mul_le_mul_of_nonneg_left (hrun n).2 hlinkage.le
  linarith

theorem observer_converges_quick :
    (quickRotor 100).distSq (((⟨0.0024501, 0, 0⟩ : Observer Rat).after usualObserver 0.00005
        quickMotor 100).vector usualObserver (quickMotor 100)) ≤
      3 * (1 - usualObserver.pull 0.00005 * (0.8 * 0.6) ^ 2 / 54) ^ 100 *
        (quickRotor 0).distSq
          ((⟨0.0024501, 0, 0⟩ : Observer Rat).vector usualObserver (quickMotor 0)) := by
  apply observer_converges drives_quickMotor (turns_turningFlux _ _ _)
  · norm_num
  · norm_num
  · norm_num [ObserverConfiguration.pull, usualObserver]
  · norm_num [ObserverConfiguration.pull, usualObserver]
  · norm_num [quickRotor, quickMotor, turningFlux, Flux.distSq, Observer.vector, coasting,
      usualObserver]

omit [LinearOrder K] [IsStrictOrderedRing K] in
@[simp] theorem drawn_zero (pull : K) : (⟨0, 0⟩ : Offset K).drawn pull = ⟨0, 0⟩ := by
  ext <;> simp [Offset.drawn, Offset.excess, Offset.sq]

omit [LinearOrder K] [IsStrictOrderedRing K] in
@[simp] theorem Flux.displaced_zero (flux : Flux K) : flux.displaced ⟨0, 0⟩ = flux := by
  ext <;> simp [displaced]

omit [LinearOrder K] [IsStrictOrderedRing K] in
@[simp] theorem Flux.carried_self (flux flux' : Flux K) : flux.carried flux' flux = flux' := by
  ext <;> simp [carried]

/-- From the true flux on, the observer has the flux of any motor. -/
theorem vector_after_exact (hdrives : Drives conf dt samples flux)
    (hstart : s.vector conf (samples 0) = flux 0) (n : Nat) :
    (s.after conf dt samples n).vector conf (samples n) = flux n := by
  induction n with
  | zero => exact hstart
  | succ n ih =>
      have hzero : 4 * (⟨0, 0⟩ : Offset K).sq ≤ 1 := by simp [Offset.sq]
      have hbound := Flux.abs_displaced_le (hdrives.linkage (n + 1)) hzero
      rw [Flux.displaced_zero] at hbound
      rw [Observer.after_succ]
      apply vector_observerUpdate hdrives (e := ⟨0, 0⟩) _ _ hbound.1 hbound.2
      · simpa using ih
      · simp

end Proof

/-- From the true flux on, `m_phase_now_observer` is the direction of the flux of any motor, but
for the change of the currents and the error of the arcus tangens. -/
theorem observer_phase {conf : ObserverConfiguration ℝ} {dt : ℝ} {samples : Nat → ObserverSample ℝ}
    {flux : Nat → Flux ℝ} {s : Observer ℝ} (hdrives : Drives conf dt samples flux)
    (hstart : s.vector conf (samples 0) = flux 0) (n : Nat)
    (hne : ((flux (n + 1)).late conf (samples n) (samples (n + 1))).toComplex ≠ 0) :
    |(s.after conf dt samples (n + 1)).phase -
        Complex.arg ((flux (n + 1)).late conf (samples n) (samples (n + 1))).toComplex| ≤
      0.011 + 2e-10 / ‖((flux (n + 1)).late conf (samples n) (samples (n + 1))).toComplex‖ := by
  have hvector := vector_after_exact hdrives hstart (n + 1)
  have hlate : (s.after conf dt samples (n + 1)).vector conf (samples n) =
      (flux (n + 1)).late conf (samples n) (samples (n + 1)) := by
    rw [← hvector]
    unfold Observer.vector Flux.late
    ext <;> ring
  rw [← hlate] at hne ⊢
  rw [Observer.after_succ] at hne ⊢
  exact fastAtan2_arg hne

theorem observer_phase_quick :
    |((⟨0.00245, 0, 0⟩ : Observer ℝ).after usualObserver 0.00005 quickMotor 1).phase -
        Complex.arg ((quickRotor 1).late usualObserver (quickMotor 0) (quickMotor 1)).toComplex| ≤
      0.011 + 2e-10 /
        ‖((quickRotor 1).late usualObserver (quickMotor 0) (quickMotor 1)).toComplex‖ := by
  apply observer_phase drives_quickMotor
  · simp [Observer.vector, quickMotor, quickRotor, coasting, turningFlux]
  · intro hzero
    have hre := congrArg Complex.re hzero
    norm_num [Flux.toComplex, Flux.late, quickMotor, quickRotor, coasting, turningFlux,
      Flux.turn] at hre

end Bldc.Foc
