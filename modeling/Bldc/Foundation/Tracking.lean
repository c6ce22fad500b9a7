import Mathlib.Algebra.Order.Field.Basic
import Mathlib.Tactic.FieldSimp
import Mathlib.Tactic.Linarith
import Mathlib.Tactic.NormNum
import Mathlib.Tactic.Positivity
import Mathlib.Tactic.Ring

/-!
# Loops that track a position and its speed

In each step a tracking loop corrects its position by one part of the position error and its
speed by another. A quadratic form of the two errors falls by a fixed factor in each step, so
that the loop locks on to anything that moves steadily.
-/

namespace Bldc.Foundation

variable {K : Type} [Field K] [LinearOrder K]

/-- The parts of the position error that correct the position and the speed in each step. -/
structure Gains (K : Type) where
  position : K
  speed : K

/-- The errors of position and speed. The speed is counted per step. -/
structure Lag (K : Type) where
  position : K
  speed : K

namespace Gains

variable (g : Gains K)

/-- The errors one step later, behind something that moves steadily. -/
def next (lag : Lag K) : Lag K where
  position := (1 - g.position) * lag.position + lag.speed
  speed := lag.speed - g.speed * lag.position

/-- The quadratic form that falls. -/
def energy (lag : Lag K) : K := (lag.position - lag.speed) ^ 2 + lag.speed ^ 2 / g.speed

/-- How much of the position error each step takes out of the energy. -/
def damping : K :=
  g.position + g.position - (g.speed + g.speed + g.speed) - (g.position - g.speed) ^ 2

/-- The part of the energy that each step takes out at least. -/
def rate : K := min (g.damping / (1 + 1)) (1 / (1 + 1 + 1 / g.speed))

/-- The correction of the speed is small beside the one of the position. -/
structure Damped : Prop where
  speed : 0 < g.speed
  damping : 0 < g.damping

variable {g}

omit [LinearOrder K] in
theorem energy_next (hspeed : g.speed ≠ 0) (lag : Lag K) :
    g.energy (g.next lag) =
      g.energy lag - (g.damping * lag.position ^ 2 + lag.speed ^ 2) := by
  unfold energy next damping
  field_simp
  ring

variable [IsStrictOrderedRing K]

theorem Damped.energy_nonneg (h : g.Damped) (lag : Lag K) : 0 ≤ g.energy lag :=
  add_nonneg (sq_nonneg _) (div_nonneg (sq_nonneg _) h.speed.le)

theorem Damped.rate_pos (h : g.Damped) : 0 < g.rate := by
  have hspeed := h.speed
  have hdamping := h.damping
  exact lt_min (by positivity) (by positivity)

theorem Damped.rate_le_one (h : g.Damped) : g.rate ≤ 1 := by
  have hpart : 0 < 1 / g.speed := one_div_pos.2 h.speed
  refine (min_le_right _ _).trans ((div_le_one (by positivity)).2 ?_)
  linarith

/-- What a step takes out of the energy is a part of it. -/
theorem Damped.rate_mul_energy_le (h : g.Damped) (lag : Lag K) :
    g.rate * g.energy lag ≤ g.damping * lag.position ^ 2 + lag.speed ^ 2 := by
  have hspeed := h.speed
  have hposition : g.rate * (lag.position ^ 2 + lag.position ^ 2) ≤
      g.damping * lag.position ^ 2 := by
    have hle : g.rate * (1 + 1) ≤ g.damping := by
      rw [← le_div_iff₀ (by positivity)]
      exact min_le_left _ _
    have hmul := mul_le_mul_of_nonneg_right hle (sq_nonneg lag.position)
    linarith
  have hspeedPart : g.rate * ((1 + 1 + 1 / g.speed) * lag.speed ^ 2) ≤ lag.speed ^ 2 := by
    have hle : g.rate * (1 + 1 + 1 / g.speed) ≤ 1 := by
      rw [← le_div_iff₀ (by positivity)]
      exact min_le_right _ _
    have hmul := mul_le_mul_of_nonneg_right hle (sq_nonneg lag.speed)
    linarith
  have hsplit : g.energy lag ≤
      (lag.position ^ 2 + lag.position ^ 2) + (1 + 1 + 1 / g.speed) * lag.speed ^ 2 := by
    have hsq := sq_nonneg (lag.position + lag.speed)
    have hdiv : lag.speed ^ 2 / g.speed = 1 / g.speed * lag.speed ^ 2 := by ring
    rw [energy, hdiv]
    linarith
  calc g.rate * g.energy lag
      ≤ g.rate * ((lag.position ^ 2 + lag.position ^ 2) +
          (1 + 1 + 1 / g.speed) * lag.speed ^ 2) :=
        mul_le_mul_of_nonneg_left hsplit h.rate_pos.le
    _ ≤ g.damping * lag.position ^ 2 + lag.speed ^ 2 := by
        rw [mul_add]
        exact add_le_add hposition hspeedPart

theorem Damped.energy_next_le (h : g.Damped) (lag : Lag K) :
    g.energy (g.next lag) ≤ (1 - g.rate) * g.energy lag := by
  have hle := h.rate_mul_energy_le lag
  rw [energy_next h.speed.ne', sub_mul, one_mul]
  linarith

theorem Damped.speed_sq_le (h : g.Damped) (lag : Lag K) :
    lag.speed ^ 2 ≤ g.speed * g.energy lag := by
  have hspeed := h.speed
  have hsplit : g.speed * g.energy lag =
      g.speed * (lag.position - lag.speed) ^ 2 + lag.speed ^ 2 := by
    unfold energy
    field_simp
  rw [hsplit]
  exact le_add_of_nonneg_left (mul_nonneg hspeed.le (sq_nonneg _))

theorem Damped.position_sq_le (h : g.Damped) (lag : Lag K) :
    lag.position ^ 2 ≤ (1 + g.speed) * g.energy lag := by
  have hspeed := h.speed
  have hsplit : (1 + g.speed) * g.energy lag - lag.position ^ 2 =
      g.speed * (lag.position - lag.speed - lag.speed / g.speed) ^ 2 := by
    unfold energy
    field_simp
    ring
  have hnonneg := mul_nonneg hspeed.le (sq_nonneg (lag.position - lag.speed - lag.speed / g.speed))
  linarith

end Gains

end Bldc.Foundation
