import Bldc.Foundation.Limiter
import Bldc.Foundation.Turn
import Mathlib.Tactic.NormNum
import Mathlib.Tactic.Ring

/-!
# Numerical helpers

The functions of `utils.c` that the control laws are made of, over any ordered field. A
square root comes from outside: over the reals it is the exact one.
-/

namespace Bldc.Utils

open Foundation

variable {K : Type} [Field K] [LinearOrder K]

/-- `SIGN`. -/
def sign (x : K) : K := if x < 0 then -1 else 1

/-- `UTILS_LP_FAST`: the new value of the filter. -/
def lpFast (value sample filterConstant : K) : K := value - filterConstant * (value - sample)

/-- `utils_truncate_number`. -/
def truncateNumber (number min max : K) : K :=
  if number > max then max else if number < min then min else number

/-- `utils_step_towards`. -/
def stepTowards (value goal step : K) : K :=
  if value < goal then if value + step < goal then value + step else goal
  else if value > goal then if value - step > goal then value - step else goal
  else value

/-- `utils_map`. -/
def map (x inMin inMax outMin outMax : K) : K :=
  (x - inMin) * (outMax - outMin) / (inMax - inMin) + outMin

/-- `utils_saturate_vector_2d`, with `sqrtf`. -/
def saturateVector2d (sqrtf : K → K) (x y max : K) : K × K :=
  let mag := sqrtf (x * x + y * y)
  let mag := if mag < 1e-10 then 1e-10 else mag
  if mag > |max| then (x * (|max| / mag), y * (|max| / mag)) else (x, y)

/-- `M_PI`. -/
def mPi : K := 3.14159265358979323846

/-- `utils_norm_angle_rad`, with the number of turns its loops take. -/
def normAngleRad [FloorRing K] (angle : K) : K :=
  if angle < -mPi then angle + 2 * mPi * ⌈(-mPi - angle) / (2 * mPi)⌉
  else if angle > mPi then angle - 2 * mPi * ⌈(angle - mPi) / (2 * mPi)⌉
  else angle

/-- `utils_angle_difference_rad`. -/
def angleDifferenceRad [FloorRing K] (angle1 angle2 : K) : K := normAngleRad (angle1 - angle2)

/-- The sine of `utils_fast_sincos_better` for an angle from `-M_PI` to `M_PI`. -/
def fastSin (angle : K) : K :=
  let sin := if angle < 0 then 1.27323954 * angle + 0.405284735 * angle * angle
    else 1.27323954 * angle - 0.405284735 * angle * angle
  if sin < 0 then 0.225 * (sin * -sin - sin) + sin
  else 0.225 * (sin * sin - sin) + sin

/-- `utils_fast_sincos_better`: the sine and the cosine. -/
def fastSincosBetter [FloorRing K] (angle : K) : K × K :=
  let angle := normAngleRad angle
  let quarter := angle + mPi / 2
  (fastSin angle, fastSin (if quarter > mPi then quarter - 2 * mPi else quarter))

omit [Field K] in
theorem truncateNumber_eq (number min max : K) :
    truncateNumber number min max = clamp min max number := rfl

theorem stepTowards_eq (value goal step : K) :
    stepTowards value goal step = towards goal step value := rfl

section Saturation

variable [IsStrictOrderedRing K] {sqrtf : K → K}

/-- The factor by which `utils_saturate_vector_2d` shortens a vector. -/
theorem saturateVector2d_eq (x y max : K) : ∃ factor, 0 ≤ factor ∧ factor ≤ 1 ∧
    saturateVector2d sqrtf x y max = (x * factor, y * factor) := by
  obtain ⟨mag, hmag⟩ : ∃ mag, (if sqrtf (x * x + y * y) < 1e-10 then 1e-10
      else sqrtf (x * x + y * y)) = mag := ⟨_, rfl⟩
  have hpos : 0 < mag := by
    rw [← hmag]
    split
    next => norm_num
    next h => exact lt_of_lt_of_le (by norm_num) (not_lt.1 h)
  unfold saturateVector2d
  simp only [hmag]
  split
  next h => exact ⟨|max| / mag, div_nonneg (abs_nonneg _) hpos.le, (div_le_one hpos).2 h.le, rfl⟩
  next => exact ⟨1, zero_le_one, le_rfl, by rw [mul_one, mul_one]⟩

/-- With an exact square root the length becomes the smaller one of the two, but for vectors
and bounds that are both tiny. -/
theorem saturateVector2d_sq (hsqrt : ∀ x, 0 ≤ x → 0 ≤ sqrtf x ∧ sqrtf x ^ 2 = x) {x y max : K}
    (hmax : 0 ≤ max) :
    (saturateVector2d sqrtf x y max).1 ^ 2 + (saturateVector2d sqrtf x y max).2 ^ 2 =
        (min (sqrtf (x * x + y * y)) max) ^ 2 ∨
      sqrtf (x * x + y * y) < 1e-10 ∧ max < 1e-10 ∧
        (saturateVector2d sqrtf x y max).1 ^ 2 + (saturateVector2d sqrtf x y max).2 ^ 2 ≤
          max ^ 2 := by
  obtain ⟨hnonneg, hsq⟩ := hsqrt (x * x + y * y)
    (add_nonneg (mul_self_nonneg x) (mul_self_nonneg y))
  unfold saturateVector2d
  generalize sqrtf (x * x + y * y) = mag at hnonneg hsq ⊢
  have hscale (bound : K) :
      (x * (max / bound)) ^ 2 + (y * (max / bound)) ^ 2 = (mag * (max / bound)) ^ 2 := by
    rw [mul_pow, mul_pow, mul_pow, hsq]
    ring
  simp only [abs_of_nonneg hmax]
  by_cases htiny : mag < 1e-10
  · rw [if_pos htiny]
    split
    next hlt =>
      refine .inr ⟨htiny, hlt, ?_⟩
      have hle : mag * (max / (1e-10)) ≤ max := by
        rw [mul_div_assoc', div_le_iff₀ (by norm_num), mul_comm]
        exact mul_le_mul_of_nonneg_left htiny.le hmax
      rw [hscale]
      exact pow_le_pow_left₀ (mul_nonneg hnonneg (div_nonneg hmax (by norm_num))) hle 2
    next hle =>
      rw [min_eq_left (htiny.le.trans (not_lt.1 hle)), hsq]
      exact .inl (by ring)
  · rw [if_neg htiny]
    split
    next hlt =>
      have hpos : 0 < mag := lt_of_lt_of_le (by norm_num) (not_lt.1 htiny)
      rw [min_eq_right hlt.le, hscale, mul_div_cancel₀ _ hpos.ne']
      exact .inl rfl
    next hle =>
      rw [min_eq_left (not_lt.1 hle), hsq]
      exact .inl (by ring)

theorem saturateVector2d_sq_le (hsqrt : ∀ x, 0 ≤ x → 0 ≤ sqrtf x ∧ sqrtf x ^ 2 = x)
    {x y max : K} (hmax : 0 ≤ max) :
    (saturateVector2d sqrtf x y max).1 ^ 2 + (saturateVector2d sqrtf x y max).2 ^ 2 ≤
      max ^ 2 := by
  have hnonneg := (hsqrt (x * x + y * y) (add_nonneg (mul_self_nonneg x) (mul_self_nonneg y))).1
  obtain h | ⟨-, -, h⟩ := saturateVector2d_sq hsqrt (x := x) (y := y) hmax
  · rw [h]
    exact pow_le_pow_left₀ (le_min hnonneg hmax) (min_le_right _ _) 2
  · exact h

end Saturation

section Angle

variable [IsStrictOrderedRing K]

theorem mPi_pos : (0 : K) < mPi := by norm_num [mPi]

variable [FloorRing K]

omit [IsStrictOrderedRing K] in
theorem normAngleRad_eq (angle : K) : normAngleRad angle = reduce mPi (2 * mPi) angle := rfl

theorem normAngleRad_mem (angle : K) :
    -mPi ≤ normAngleRad angle ∧ normAngleRad angle ≤ mPi := by
  have hpi := mPi_pos (K := K)
  exact reduce_mem (mul_pos two_pos hpi) (two_mul mPi).le angle

end Angle

end Bldc.Utils
