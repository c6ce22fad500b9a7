import Bldc.Drive.Utils
import Mathlib.Data.Rat.Floor

/-!
# Reducing angles

The loops of `utils_norm_angle_rad`, `utils_angle_difference` and `utils_angle_difference_rad`,
which take one turn after another. They end for every angle, and what they return is what the
control laws reckon with.
-/

namespace Bldc.Utils

open Foundation

variable {K : Type} [Field K] [LinearOrder K]

/-- `utils_norm_angle_rad` with its loops, for any `M_PI`. -/
def normAngleRadLoops (pi : K) (fuel : Nat) (angle : K) : Option K :=
  turnLoops pi (2.0 * pi) fuel angle

/-- `utils_angle_difference`, in degrees. -/
def angleDifferenceLoops (fuel : Nat) (angle1 angle2 : K) : Option K :=
  turnLoops 180.0 (2.0 * 180.0) fuel (angle1 - angle2)

/-- `utils_angle_difference_rad` with its loops, for any `M_PI`. -/
def angleDifferenceRadLoops (pi : K) (fuel : Nat) (angle1 angle2 : K) : Option K :=
  turnLoops pi (2.0 * pi) fuel (angle1 - angle2)

/-- The same place on the circle, at most half a turn from zero. -/
structure Reduced (half angle result : K) : Prop where
  low : -half ≤ result
  high : result ≤ half
  turns : ∃ turns : Int, result - angle = turns * (2.0 * half)

section Reduction

variable [IsStrictOrderedRing K] [FloorRing K] {half : K}

omit [FloorRing K] in
theorem turn_eq (half : K) : 2.0 * half = half + half := by
  rw [← two_mul]
  norm_num

theorem returns_reduced (hhalf : 0 < half) (angle : K) :
    ∃ result, Returns (fun fuel => turnLoops half (2.0 * half) fuel angle) result ∧
      Returns (fun fuel => turnLoops half (2.0 * half) fuel (-angle)) (-result) ∧
      Reduced half angle result := by
  have hfits := turn_eq half
  have hturn : 0 < 2.0 * half := hfits ▸ add_pos hhalf hhalf
  refine ⟨reduce half (2.0 * half) angle, returns_turnLoops hturn hfits.le angle, ?_, ?_⟩
  · rw [← reduce_neg hhalf]
    exact returns_turnLoops hturn hfits.le (-angle)
  · obtain ⟨hlow, hhigh⟩ := reduce_mem hturn hfits.le angle
    obtain ⟨turns, hturns⟩ := reduce_turns half (2.0 * half) angle
    exact ⟨hlow, hhigh, turns, by rw [hturns, add_sub_cancel_left, mul_comm]⟩

/-- The loops end for all angles. What they leave is in range and at the same place of the
circle, and the differences of two angles in one order and in the other are opposite. -/
theorem angleLoops_reduce {pi : K} (hpi : 0 < pi) :
    (∀ angle : K, ∃ result, Returns (fun fuel => normAngleRadLoops pi fuel angle) result ∧
      Reduced pi angle result) ∧
    (∀ angle1 angle2 : K, ∃ result,
      Returns (fun fuel => angleDifferenceLoops fuel angle1 angle2) result ∧
      Returns (fun fuel => angleDifferenceLoops fuel angle2 angle1) (-result) ∧
      Reduced 180.0 (angle1 - angle2) result) ∧
    (∀ angle1 angle2 : K, ∃ result,
      Returns (fun fuel => angleDifferenceRadLoops pi fuel angle1 angle2) result ∧
      Returns (fun fuel => angleDifferenceRadLoops pi fuel angle2 angle1) (-result) ∧
      Reduced pi (angle1 - angle2) result) := by
  refine ⟨fun angle => ?_, fun angle1 angle2 => ?_, fun angle1 angle2 => ?_⟩
  · obtain ⟨result, hreturns, -, hreduced⟩ := returns_reduced hpi angle
    exact ⟨result, hreturns, hreduced⟩
  · have hboth := returns_reduced (show (0 : K) < 180.0 by norm_num) (angle1 - angle2)
    rwa [neg_sub] at hboth
  · have hboth := returns_reduced hpi (angle1 - angle2)
    rwa [neg_sub] at hboth

theorem angleLoops_reduce_rat :
    (0 : Rat) < 22 / 7 ∧ ∃ result, Returns (fun fuel =>
      angleDifferenceRadLoops (22 / 7 : Rat) fuel 100 (-100)) result ∧
      Reduced (22 / 7) (100 - -100) result :=
  have hpi : (0 : Rat) < 22 / 7 := by norm_num
  have ⟨result, hreturns, _, hreduced⟩ := (angleLoops_reduce hpi).2.2 100 (-100)
  ⟨hpi, result, hreturns, hreduced⟩

/-- The loops return the angle that the control laws are stated with. -/
theorem returns_normAngleRad (angle : K) :
    Returns (fun fuel => normAngleRadLoops mPi fuel angle) (normAngleRad angle) := by
  have hfits := turn_eq (mPi : K)
  have hturn : (0 : K) < 2.0 * mPi := hfits ▸ add_pos mPi_pos mPi_pos
  rw [normAngleRad_eq, two_mul, ← hfits]
  exact returns_turnLoops hturn hfits.le angle

theorem returns_angleDifferenceRad (angle1 angle2 : K) :
    Returns (fun fuel => angleDifferenceRadLoops mPi fuel angle1 angle2)
      (angleDifferenceRad angle1 angle2) := returns_normAngleRad (angle1 - angle2)

end Reduction

end Bldc.Utils
