import Bldc.Drive.Utils
import Mathlib.Tactic.Linarith
import Mathlib.Tactic.Positivity
import Mathlib.Tactic.Ring

/-!
# The approximated rotation

The squares of the sine and the cosine of `utils_fast_sincos_better` do not add up to
one. Both functions are parabolas with a correction; the sum of their squares is largest
halfway between the axes, where a rotation lengthens a vector by one part in a thousand.
-/

namespace Bldc.Foc

open Utils

variable {K : Type} [Field K] [LinearOrder K]

/-- What a rotation does to the square of the length. -/
def gain [FloorRing K] (phase : K) : K :=
  (fastSincosBetter phase).1 ^ 2 + (fastSincosBetter phase).2 ^ 2

/-- The first approximation of the sine. -/
def parabola (angle : K) : K := 1.27323954 * angle - 0.405284735 * angle ^ 2

/-- The correction of the first approximation. -/
def correction (y : K) : K := 31 / 40 * y + 9 / 40 * y ^ 2

variable [IsStrictOrderedRing K]

theorem correction_mono {x y : K} (hx : 0 ≤ x) (hxy : x ≤ y) : correction x ≤ correction y := by
  have hsq : x ^ 2 ≤ y ^ 2 := pow_le_pow_left₀ hx hxy 2
  unfold correction
  linarith

theorem correction_nonneg {y : K} (h : 0 ≤ y) : 0 ≤ correction y := by
  unfold correction
  positivity

theorem abs_correction (y : K) :
    |if y < 0 then 0.225 * (y * -y - y) + y else 0.225 * (y * y - y) + y| =
      correction |y| := by
  split
  next hneg =>
    have hvalue : 0.225 * (y * -y - y) + y = -correction (-y) := by
      unfold correction
      ring
    rw [hvalue, abs_neg, abs_of_nonneg (correction_nonneg (neg_nonneg.2 hneg.le)), abs_of_neg hneg]
  next hneg =>
    have hnonneg := not_lt.1 hneg
    have hvalue : 0.225 * (y * y - y) + y = correction y := by
      unfold correction
      ring
    rw [hvalue, abs_of_nonneg (correction_nonneg hnonneg), abs_of_nonneg hnonneg]

theorem abs_fastSin (angle : K) : |fastSin angle| = correction |parabola (|angle|)| := by
  unfold fastSin
  rw [abs_correction]
  congr 1
  split
  next hneg =>
    have hvalue : 1.27323954 * angle + 0.405284735 * angle * angle =
        -parabola (|angle|) := by
      rw [abs_of_neg hneg]
      unfold parabola
      ring
    rw [hvalue, abs_neg]
  next hneg =>
    rw [abs_of_nonneg (not_lt.1 hneg)]
    congr 1
    unfold parabola
    ring

/-- Over half a turn the parabola is that through zero, one and zero. -/
theorem abs_parabola_le {part : K} (hnonneg : 0 ≤ part) (hle : part ≤ 1) :
    |parabola (mPi * part)| ≤ 4 * (part * (1 - part)) + 3 / 10 ^ 8 := by
  have hshape : 0 ≤ part * (1 - part) := mul_nonneg hnonneg (sub_nonneg.2 hle)
  have hsq : 0 ≤ part ^ 2 := sq_nonneg part
  have hvalue : parabola (mPi * part) = 4 * (part * (1 - part)) -
      (4 - 1.27323954 * mPi) * part - (0.405284735 * mPi ^ 2 - 4) * part ^ 2 := by
    unfold parabola
    ring
  have hlinear : (0 : K) ≤ 4 - 1.27323954 * mPi ∧
      (4 - 1.27323954 * mPi : K) ≤ 2 / 10 ^ 8 := by
    norm_num [mPi]
  have hsquare : (0 : K) ≤ 0.405284735 * mPi ^ 2 - 4 ∧
      (0.405284735 * mPi ^ 2 - 4 : K) ≤ 1 / 10 ^ 8 := by
    norm_num [mPi]
  have hfirst := mul_nonneg hlinear.1 hnonneg
  have hfirst' : (4 - 1.27323954 * mPi) * part ≤ 2 / 10 ^ 8 :=
    (mul_le_of_le_one_right hlinear.1 hle).trans hlinear.2
  have hsecond := mul_nonneg hsquare.1 hsq
  have hsecond' : (0.405284735 * mPi ^ 2 - 4) * part ^ 2 ≤ 1 / 10 ^ 8 :=
    (mul_le_of_le_one_right hsquare.1 (pow_le_one₀ hnonneg hle)).trans hsquare.2
  rw [hvalue, abs_le]
  constructor <;> linarith

/-- The exact parabolas: the sum of the squares is largest in the middle of a quadrant. -/
theorem correction_sq_add_le {u : K} (hnonneg : 0 ≤ u) (hle : u ≤ 1) :
    correction (u * (2 - u)) ^ 2 + correction (1 - u ^ 2) ^ 2 ≤ 1001998 / 10 ^ 6 := by
  obtain ⟨q, hq⟩ : ∃ q, (u - 1 / 2) ^ 2 = q := ⟨_, rfl⟩
  have hqnonneg : 0 ≤ q := hq ▸ sq_nonneg _
  have hqle : q ≤ 1 / 4 := by nlinarith only [hq, hnonneg, hle]
  have hsum : correction (u * (2 - u)) ^ 2 + correction (1 - u ^ 2) ^ 2 =
      2 * (31 / 40 * (3 / 4 - q) + 9 / 40 * ((3 / 4 - q) ^ 2 + q)) ^ 2 +
        2 * q * (31 / 40 + 9 / 20 * (3 / 4 - q)) ^ 2 := by
    rw [← hq]
    unfold correction
    ring
  rw [hsum]
  nlinarith only [mul_nonneg hqnonneg (sub_nonneg.2 hqle), mul_nonneg hqnonneg hqnonneg,
    mul_nonneg (mul_nonneg hqnonneg hqnonneg) (sub_nonneg.2 hqle),
    mul_nonneg hqnonneg (sq_nonneg (q - 1 / 4))]

theorem correction_add_le {y error : K} (hle : y ≤ 1) (herror : 0 ≤ error)
    (hsmall : error ≤ 1) : correction (y + error) ≤ correction y + 2 * error := by
  have hcross := mul_le_of_le_one_right herror hle
  have hsquare := mul_le_of_le_one_right herror hsmall
  unfold correction
  linarith

theorem correction_le_one {y : K} (hnonneg : 0 ≤ y) (hle : y ≤ 1) : correction y ≤ 1 := by
  have hsq := pow_le_one₀ hnonneg hle (n := 2)
  unfold correction
  linarith

theorem fastSin_sq_le {angle part y : K} (hangle : |angle| = mPi * part) (hnonneg : 0 ≤ part)
    (hle : part ≤ 1) (hy : 4 * (part * (1 - part)) = y) :
    fastSin angle ^ 2 ≤ correction y ^ 2 + 1 / 10 ^ 6 := by
  have hynonneg : 0 ≤ y := by
    rw [← hy]
    exact mul_nonneg zero_le_four (mul_nonneg hnonneg (sub_nonneg.2 hle))
  have hyle : y ≤ 1 := by linarith [sq_nonneg (1 - 2 * part)]
  have hparabola := abs_parabola_le hnonneg hle
  rw [hy] at hparabola
  have habs : |fastSin angle| ≤ correction y + 6 / 10 ^ 8 :=
    calc |fastSin angle| = correction |parabola (mPi * part)| := by rw [abs_fastSin, hangle]
      _ ≤ correction (y + 3 / 10 ^ 8) := correction_mono (abs_nonneg _) hparabola
      _ ≤ correction y + 2 * (3 / 10 ^ 8) := correction_add_le hyle (by norm_num) (by norm_num)
      _ = correction y + 6 / 10 ^ 8 := by norm_num
  calc fastSin angle ^ 2 = |fastSin angle| ^ 2 := (sq_abs _).symm
    _ ≤ (correction y + 6 / 10 ^ 8) ^ 2 := pow_le_pow_left₀ (abs_nonneg _) habs 2
    _ ≤ correction y ^ 2 + 1 / 10 ^ 6 := by linarith [correction_le_one hynonneg hyle]

variable [FloorRing K]

theorem fastSincosBetter_eq {phase part : K} (hpart : normAngleRad phase = mPi * part) :
    fastSincosBetter phase = (fastSin (mPi * part),
      fastSin (mPi * (if 1 / 2 < part then part - 3 / 2 else part + 1 / 2))) := by
  have hpi := mPi_pos (K := K)
  have hquarter : mPi * part + mPi / 2 > mPi ↔ 1 / 2 < part := by
    rw [show mPi * part + mPi / 2 = mPi * (part + 1 / 2) by ring, gt_iff_lt,
      lt_mul_iff_one_lt_right hpi]
    constructor <;> intro h <;> linarith
  unfold fastSincosBetter
  simp only [hpart, hquarter]
  congr 2
  split <;> ring

/-- The angle in its quadrant: how far the sine has gone on from an axis, from zero to one. -/
theorem gain_le_of_quadrant {phase part sinPart cosPart u : K}
    (hpart : normAngleRad phase = mPi * part) (hunonneg : 0 ≤ u) (hule : u ≤ 1)
    (hsin : |part| = sinPart)
    (hcos : |if 1 / 2 < part then part - 3 / 2 else part + 1 / 2| = cosPart)
    (hsinle : sinPart ≤ 1) (hcosle : cosPart ≤ 1)
    (hsinu : 4 * (sinPart * (1 - sinPart)) = u * (2 - u))
    (hcosu : 4 * (cosPart * (1 - cosPart)) = 1 - u ^ 2) : gain phase ≤ 1002 / 1000 := by
  have habs (x : K) : |mPi * x| = mPi * |x| := by rw [abs_mul, abs_of_pos mPi_pos]
  have hfirst : fastSin (mPi * part) ^ 2 ≤ correction (u * (2 - u)) ^ 2 + 1 / 10 ^ 6 :=
    fastSin_sq_le (by rw [habs, hsin]) (hsin ▸ abs_nonneg _) hsinle hsinu
  have hsecond : fastSin (mPi * (if 1 / 2 < part then part - 3 / 2 else part + 1 / 2)) ^ 2 ≤
      correction (1 - u ^ 2) ^ 2 + 1 / 10 ^ 6 :=
    fastSin_sq_le (by rw [habs, hcos]) (hcos ▸ abs_nonneg _) hcosle hcosu
  rw [gain, fastSincosBetter_eq hpart]
  linarith [correction_sq_add_le hunonneg hule]

/-- A rotation lengthens no vector by more than one part in a thousand. -/
theorem gain_le (phase : K) : gain phase ≤ 1002 / 1000 := by
  have hpi := mPi_pos (K := K)
  obtain ⟨part, hpart⟩ : ∃ part, normAngleRad phase = mPi * part :=
    ⟨normAngleRad phase / mPi, (mul_div_cancel₀ _ hpi.ne').symm⟩
  obtain ⟨hlow, hhigh⟩ := normAngleRad_mem phase
  rw [hpart] at hlow hhigh
  have hle : part ≤ 1 := (mul_le_iff_le_one_right hpi).1 hhigh
  have hge : -1 ≤ part := by
    have hneg : mPi * -part ≤ mPi := by linarith
    linarith [(mul_le_iff_le_one_right hpi).1 hneg]
  obtain hneg | hnonneg := lt_or_ge part 0
  · have hhalf : ¬ 1 / 2 < part := by linarith
    obtain hfar | hnear := lt_or_ge part (-1 / 2)
    · exact gain_le_of_quadrant (u := 2 + 2 * part) hpart (by linarith) (by linarith)
        (abs_of_neg hneg) (by rw [if_neg hhalf, abs_of_neg (by linarith)]) (by linarith)
        (by linarith) (by ring) (by ring)
    · exact gain_le_of_quadrant (u := -(2 * part)) hpart (by linarith) (by linarith)
        (abs_of_neg hneg) (by rw [if_neg hhalf, abs_of_nonneg (by linarith)]) (by linarith)
        (by linarith) (by ring) (by ring)
  · obtain hfar | hnear := lt_or_ge (1 / 2) part
    · exact gain_le_of_quadrant (u := 2 - 2 * part) hpart (by linarith) (by linarith)
        (abs_of_nonneg hnonneg) (by rw [if_pos hfar, abs_of_neg (by linarith)]) (by linarith)
        (by linarith) (by ring) (by ring)
    · exact gain_le_of_quadrant (u := 2 * part) hpart (by linarith) (by linarith)
        (abs_of_nonneg hnonneg) (by rw [if_neg (not_lt.2 hnear), abs_of_nonneg (by linarith)])
        (by linarith) (by linarith) (by ring) (by ring)

end Bldc.Foc
