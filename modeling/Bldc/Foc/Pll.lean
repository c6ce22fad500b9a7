import Bldc.Drive.Utils
import Bldc.Foundation.Machine
import Bldc.Foundation.Tracking
import Mathlib.Data.Rat.Floor
import Mathlib.Tactic.LinearCombination

/-!
# The phase-locked loop of the FOC driver

`pll_run` follows the phase of the rotor and finds its speed. It locks on to a rotor that turns
steadily: while the errors are small enough at the start, the phase error never reaches half a
turn, and both errors fall geometrically.
-/

namespace Bldc.Foc

open Foundation Utils

/-- What `pll_run` reads of `mc_configuration`. -/
structure PllConfiguration (K : Type) where
  focPllKp : K
  focPllKi : K

/-- `*phase_var` and `*speed_var`. -/
structure Pll (K : Type) where
  phaseVar : K
  speedVar : K

section Model

variable {K : Type} [Field K] [LinearOrder K] [FloorRing K]

/-- `pll_run`. -/
def pllRun (conf : PllConfiguration K) (phase dt : K) (s : Pll K) : Pll K :=
  let deltaTheta := normAngleRad (phase - s.phaseVar)
  { phaseVar := normAngleRad (s.phaseVar + (s.speedVar + conf.focPllKp * deltaTheta) * dt)
    speedVar := s.speedVar + conf.focPllKi * deltaTheta * dt }

/-- The loop, once in each control period. -/
def pll (conf : PllConfiguration K) (dt : K) : Machine (Pll K) K Empty where
  step s phase := (pllRun conf phase dt s, [])

/-- The loop after the first `n` of these phases. -/
def Pll.after (conf : PllConfiguration K) (dt : K) (s : Pll K) (phases : Nat → K) (n : Nat) :
    Pll K :=
  ((pll conf dt).run s ((List.range n).map phases)).1

/-- The phases of a rotor that turns steadily, each of them with any number of turns. -/
def Steady (speed dt : K) (phases : Nat → K) : Prop :=
  ∀ n, ∃ turns : Int, phases (n + 1) = phases n + speed * dt + 2.0 * mPi * turns

/-- The loop as one that tracks the phase, in steps of a control period. -/
def PllConfiguration.gains (conf : PllConfiguration K) (dt : K) : Gains K where
  position := conf.focPllKp * dt
  speed := conf.focPllKi * dt * dt

/-- How far the loop is behind. -/
def Pll.lag (s : Pll K) (speed dt phase : K) : Lag K where
  position := normAngleRad (phase - s.phaseVar)
  speed := (speed - s.speedVar) * dt

end Model

section Proof

variable {K : Type} [Field K] [LinearOrder K] [FloorRing K] [IsStrictOrderedRing K]

/-- A step of the loop is one of the tracking loop, while the errors are small. -/
theorem lag_pllRun {conf : PllConfiguration K} {dt speed phase phase' : K} {s : Pll K}
    {turns : Int} (hphase : phase' = phase + speed * dt + 2.0 * mPi * turns)
    (hsmall : |((conf.gains dt).next (s.lag speed dt phase)).position| < mPi) :
    (pllRun conf phase dt s).lag speed dt phase' =
      (conf.gains dt).next (s.lag speed dt phase) := by
  have hpi := mPi_pos (K := K)
  obtain ⟨delta, hdelta⟩ := reduce_turns mPi (2 * mPi) (phase - s.phaseVar)
  obtain ⟨wrapped, hwrapped⟩ := reduce_turns mPi (2 * mPi)
    (s.phaseVar + (s.speedVar + conf.focPllKp * normAngleRad (phase - s.phaseVar)) * dt)
  rw [← normAngleRad_eq] at hdelta hwrapped
  have htwo : (2.0 : K) = 2 := by norm_num
  have hposition : normAngleRad (phase' - (pllRun conf phase dt s).phaseVar) =
      ((conf.gains dt).next (s.lag speed dt phase)).position := by
    have hturns : ((conf.gains dt).next (s.lag speed dt phase)).position =
        phase' - (pllRun conf phase dt s).phaseVar +
          2 * mPi * ((delta + wrapped - turns : Int) : K) := by
      simp only [Gains.next, Pll.lag, PllConfiguration.gains, pllRun]
      rw [hwrapped, hphase, htwo]
      push_cast
      linear_combination hdelta
    rw [normAngleRad_eq]
    exact reduce_eq (mul_pos two_pos hpi) (two_mul mPi) hsmall hturns
  have hspeed : (speed - (pllRun conf phase dt s).speedVar) * dt =
      ((conf.gains dt).next (s.lag speed dt phase)).speed := by
    simp only [Gains.next, Pll.lag, PllConfiguration.gains, pllRun]
    ring
  exact congrArg₂ Lag.mk hposition hspeed

/-- The lag of a loop that can lock on: half a turn is out of reach. -/
def Captured (conf : PllConfiguration K) (dt speed phase : K) (s : Pll K) : Prop :=
  (1 + (conf.gains dt).speed) * (conf.gains dt).energy (s.lag speed dt phase) < mPi ^ 2

variable {conf : PllConfiguration K} {dt speed : K} {phases : Nat → K} {s : Pll K}

omit [IsStrictOrderedRing K] in
theorem Pll.after_succ (n : Nat) :
    s.after conf dt phases (n + 1) = pllRun conf (phases n) dt (s.after conf dt phases n) := by
  rw [Pll.after, List.range_succ, List.map_append, Machine.run_append]
  rfl

/-- From a captured state on, every step is one of the tracking loop. -/
theorem lag_after (h : (conf.gains dt).Damped) (hsteady : Steady speed dt phases)
    (hcaptured : Captured conf dt speed (phases 0) s) (n : Nat) :
    (s.after conf dt phases n).lag speed dt (phases n) =
        (conf.gains dt).next^[n] (s.lag speed dt (phases 0)) ∧
      (conf.gains dt).energy ((conf.gains dt).next^[n] (s.lag speed dt (phases 0))) ≤
        (1 - (conf.gains dt).rate) ^ n * (conf.gains dt).energy (s.lag speed dt (phases 0)) := by
  have hfall : 0 ≤ 1 - (conf.gains dt).rate := sub_nonneg.2 h.rate_le_one
  induction n with
  | zero => exact ⟨rfl, by rw [pow_zero, one_mul]; rfl⟩
  | succ n ih =>
      obtain ⟨hlag, henergy⟩ := ih
      obtain ⟨turns, hturns⟩ := hsteady n
      have hnext : (conf.gains dt).energy
          ((conf.gains dt).next^[n + 1] (s.lag speed dt (phases 0))) ≤
            (1 - (conf.gains dt).rate) ^ (n + 1) *
              (conf.gains dt).energy (s.lag speed dt (phases 0)) := by
        rw [Function.iterate_succ_apply', pow_succ', mul_assoc]
        exact (h.energy_next_le _).trans (mul_le_mul_of_nonneg_left henergy hfall)
      refine ⟨?_, hnext⟩
      rw [Pll.after_succ, Function.iterate_succ_apply', ← hlag]
      refine lag_pllRun hturns (abs_lt_of_sq_lt_sq ?_ mPi_pos.le)
      have hle := h.position_sq_le ((conf.gains dt).next^[n + 1] (s.lag speed dt (phases 0)))
      have hpow : (1 - (conf.gains dt).rate) ^ (n + 1) ≤ 1 :=
        pow_le_one₀ hfall (sub_le_self 1 h.rate_pos.le)
      have hstart : (conf.gains dt).energy
          ((conf.gains dt).next^[n + 1] (s.lag speed dt (phases 0))) ≤
            (conf.gains dt).energy (s.lag speed dt (phases 0)) :=
        hnext.trans (mul_le_of_le_one_left (h.energy_nonneg _) hpow)
      have hspeed := h.speed
      rw [hlag, ← Function.iterate_succ_apply' (conf.gains dt).next n]
      refine hle.trans_lt ((mul_le_mul_of_nonneg_left hstart ?_).trans_lt hcaptured)
      linarith

/-- The loop locks on to a steady rotor: from a captured state on, the squares of the phase
error and of the speed error fall geometrically, at a rate that the gains determine. -/
theorem pll_locks (hdt : 0 < dt) (h : (conf.gains dt).Damped) :
    ∃ rate : K, 0 < rate ∧ rate ≤ 1 ∧
      ∀ (speed : K) (phases : Nat → K) (s : Pll K), Steady speed dt phases →
        Captured conf dt speed (phases 0) s → ∀ n,
          angleDifferenceRad (phases n) (s.after conf dt phases n).phaseVar ^ 2 ≤
              (1 - rate) ^ n * mPi ^ 2 ∧
            (speed - (s.after conf dt phases n).speedVar) ^ 2 ≤
              (1 - rate) ^ n * (conf.focPllKi * mPi ^ 2) := by
  refine ⟨_, h.rate_pos, h.rate_le_one, ?_⟩
  intro speed phases s hsteady hcaptured n
  obtain ⟨hlag, henergy⟩ := lag_after h hsteady hcaptured n
  rw [← hlag] at henergy
  have hspeed := h.speed
  have hfall : 0 ≤ (1 - (conf.gains dt).rate) ^ n := pow_nonneg (sub_nonneg.2 h.rate_le_one) n
  have hstart : (conf.gains dt).energy (s.lag speed dt (phases 0)) ≤ mPi ^ 2 :=
    (le_mul_of_one_le_left (h.energy_nonneg _) (by linarith)).trans hcaptured.le
  constructor
  · have hposition := h.position_sq_le ((s.after conf dt phases n).lag speed dt (phases n))
    calc angleDifferenceRad (phases n) (s.after conf dt phases n).phaseVar ^ 2
        ≤ (1 + (conf.gains dt).speed) * ((1 - (conf.gains dt).rate) ^ n *
            (conf.gains dt).energy (s.lag speed dt (phases 0))) :=
          hposition.trans (mul_le_mul_of_nonneg_left henergy (by linarith))
      _ = (1 - (conf.gains dt).rate) ^ n * ((1 + (conf.gains dt).speed) *
            (conf.gains dt).energy (s.lag speed dt (phases 0))) := by ring
      _ ≤ (1 - (conf.gains dt).rate) ^ n * mPi ^ 2 :=
          mul_le_mul_of_nonneg_left hcaptured.le hfall
  · have hlagSpeed := h.speed_sq_le ((s.after conf dt phases n).lag speed dt (phases n))
    have hpos : 0 < dt * dt := mul_pos hdt hdt
    have hki : 0 ≤ conf.focPllKi * (dt * dt) := by
      rw [← mul_assoc]
      exact hspeed.le
    refine le_of_mul_le_mul_right ?_ hpos
    calc (speed - (s.after conf dt phases n).speedVar) ^ 2 * (dt * dt)
        = ((s.after conf dt phases n).lag speed dt (phases n)).speed ^ 2 := by
          simp only [Pll.lag]
          ring
      _ ≤ conf.focPllKi * (dt * dt) * ((1 - (conf.gains dt).rate) ^ n * mPi ^ 2) := by
          rw [← mul_assoc conf.focPllKi]
          refine hlagSpeed.trans (mul_le_mul_of_nonneg_left ?_ hspeed.le)
          exact henergy.trans (mul_le_mul_of_nonneg_left hstart hfall)
      _ = (1 - (conf.gains dt).rate) ^ n * (conf.focPllKi * mPi ^ 2) * (dt * dt) := by ring

/-- The usual gains, at ten kilohertz. -/
def usualPll : PllConfiguration Rat := ⟨2000, 40000⟩

theorem damped_usualPll : (usualPll.gains (1 / 10000)).Damped := by
  constructor <;> norm_num [usualPll, PllConfiguration.gains, Gains.damping]

/-- It locks on to a rotor with 100 radians in a second, from rest. -/
theorem pll_locks_usual :
    Steady (100 : Rat) (1 / 10000) (fun n => n / 100) ∧
      Captured usualPll (1 / 10000) 100 0 ⟨0, 0⟩ ∧
      ∃ rate : Rat, 0 < rate ∧ rate ≤ 1 ∧
        ∀ (speed : Rat) (phases : Nat → Rat) (s : Pll Rat), Steady speed (1 / 10000) phases →
          Captured usualPll (1 / 10000) speed (phases 0) s → ∀ n,
            angleDifferenceRad (phases n) (s.after usualPll (1 / 10000) phases n).phaseVar ^ 2 ≤
                (1 - rate) ^ n * mPi ^ 2 ∧
              (speed - (s.after usualPll (1 / 10000) phases n).speedVar) ^ 2 ≤
                (1 - rate) ^ n * (usualPll.focPllKi * mPi ^ 2) := by
  have hdt : (0 : Rat) < 1 / 10000 := by norm_num
  refine ⟨fun n => ⟨0, ?_⟩, ?_, pll_locks hdt damped_usualPll⟩
  · dsimp only
    rw [Int.cast_zero, mul_zero, add_zero, Nat.cast_add_one]
    norm_num [add_div]
  · unfold Captured
    decide +kernel

end Proof

end Bldc.Foc
