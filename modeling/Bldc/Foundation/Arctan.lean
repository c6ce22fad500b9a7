import Mathlib.Analysis.Calculus.Deriv.MeanValue
import Mathlib.Analysis.SpecialFunctions.Trigonometric.ArctanDeriv
import Mathlib.Analysis.Real.Pi.Bounds
import Mathlib.Topology.Algebra.Module.ModuleTopology

/-!
# Cubics for the arcus tangens

A cubic stands in for the arcus tangens. Where the slopes of the two are close the distance
between them changes little, and over a few pieces this bounds it.
-/

namespace Bldc.Foundation

open Real

/-- What a cubic leaves of the arcus tangens. -/
noncomputable def arctanGap (a b r : ℝ) : ℝ := arctan r - (a * r - b * r ^ 3)

variable {a b c p q : ℝ}

@[simp] theorem arctanGap_zero (a b : ℝ) : arctanGap a b 0 = 0 := by simp [arctanGap]

theorem arctanGap_neg (a b r : ℝ) : arctanGap a b (-r) = -arctanGap a b r := by
  unfold arctanGap
  rw [arctan_neg]
  ring

theorem hasDerivAt_arctanGap (a b r : ℝ) :
    HasDerivAt (arctanGap a b) (1 / (1 + r ^ 2) - (a - 3 * b * r ^ 2)) r := by
  have hcubic : HasDerivAt (fun r : ℝ => a * r - b * r ^ 3) (a * 1 - b * (3 * r ^ 2)) r :=
    ((hasDerivAt_id r).const_mul a).sub ((hasDerivAt_pow 3 r).const_mul b)
  refine ((hasDerivAt_arctan r).sub hcubic).congr_deriv ?_
  ring

theorem deriv_arctanGap (a b r : ℝ) :
    deriv (arctanGap a b) r = 1 / (1 + r ^ 2) - (a - 3 * b * r ^ 2) :=
  (hasDerivAt_arctanGap a b r).deriv

theorem differentiable_arctanGap (a b : ℝ) : Differentiable ℝ (arctanGap a b) :=
  fun r => (hasDerivAt_arctanGap a b r).differentiableAt

/-- The gap grows no faster than the slopes differ. -/
theorem arctanGap_sub_le (hpq : p ≤ q)
    (h : ∀ r, p ≤ r → r ≤ q → 1 ≤ (a - 3 * b * r ^ 2 + c) * (1 + r ^ 2)) :
    arctanGap a b q - arctanGap a b p ≤ c * (q - p) := by
  apply (convex_Icc p q).image_sub_le_mul_sub_of_deriv_le
    (differentiable_arctanGap a b).continuous.continuousOn
    (differentiable_arctanGap a b).differentiableOn _ p (Set.left_mem_Icc.2 hpq) q
    (Set.right_mem_Icc.2 hpq) hpq
  intro r hr
  have hmem := interior_subset hr
  have hpos : 0 < 1 + r ^ 2 := by positivity
  have hslope : 1 / (1 + r ^ 2) ≤ a - 3 * b * r ^ 2 + c :=
    (div_le_iff₀ hpos).2 (h r hmem.1 hmem.2)
  rw [deriv_arctanGap]
  linarith

theorem le_arctanGap_sub (hpq : p ≤ q)
    (h : ∀ r, p ≤ r → r ≤ q → (a - 3 * b * r ^ 2 + c) * (1 + r ^ 2) ≤ 1) :
    c * (q - p) ≤ arctanGap a b q - arctanGap a b p := by
  apply (convex_Icc p q).mul_sub_le_image_sub_of_le_deriv
    (differentiable_arctanGap a b).continuous.continuousOn
    (differentiable_arctanGap a b).differentiableOn _ p (Set.left_mem_Icc.2 hpq) q
    (Set.right_mem_Icc.2 hpq) hpq
  intro r hr
  have hmem := interior_subset hr
  have hpos : 0 < 1 + r ^ 2 := by positivity
  have hslope : a - 3 * b * r ^ 2 + c ≤ 1 / (1 + r ^ 2) :=
    (le_div_iff₀ hpos).2 (h r hmem.1 hmem.2)
  rw [deriv_arctanGap]
  linarith

/-- The arcus tangens spreads nothing. -/
theorem abs_arctan_sub_le (r r' : ℝ) : |arctan r - arctan r'| ≤ |r - r'| := by
  have hbound : ∀ x ∈ (Set.univ : Set ℝ), ‖deriv arctan x‖ ≤ 1 := by
    intro x _
    rw [Real.deriv_arctan, Real.norm_of_nonneg (by positivity)]
    apply div_le_one_of_le₀ _ (by positivity)
    nlinarith [sq_nonneg x]
  have hlip := convex_univ.norm_image_sub_le_of_norm_deriv_le
    (fun x _ => differentiable_arctan x) hbound (Set.mem_univ r') (Set.mem_univ r)
  simpa using hlip

/-- A quarter of a right angle, turned back. -/
theorem arctan_reflect {r : ℝ} (h : -1 < r) : arctan r = π / 4 - arctan ((1 - r) / (1 + r)) := by
  have hpos : 0 < 1 + r := by linarith
  have hlt : r * ((1 - r) / (1 + r)) < 1 := by
    rw [mul_div_assoc', div_lt_one hpos]
    nlinarith [sq_nonneg r]
  have hsum : (r + (1 - r) / (1 + r)) / (1 - r * ((1 - r) / (1 + r))) = 1 := by
    have hne : 1 + r ≠ 0 := hpos.ne'
    have hden : 1 - r * ((1 - r) / (1 + r)) = (1 + r ^ 2) / (1 + r) := by
      field_simp
      ring
    have hnum : r + (1 - r) / (1 + r) = (1 + r ^ 2) / (1 + r) := by
      field_simp
      ring
    rw [hden, hnum, div_self]
    positivity
  have hadd := arctan_add hlt
  rw [hsum, arctan_one] at hadd
  linarith

end Bldc.Foundation
