import Bldc.Drive.Utils
import Bldc.Flash.Memory
import Mathlib.Data.Rat.Floor
import Mathlib.Tactic.Linarith
import Mathlib.Tactic.NormNum
import Mathlib.Tactic.Ring

/-!
# Space-vector modulation

`svm` turns a voltage vector into the times at which the three phases switch. The plane is
cut into six sectors, and in each of them two of the six active vectors are on, one after
the other, with the zero vectors around them.
-/

namespace Bldc.Foc

open Flash

variable {K : Type} [Field K] [LinearOrder K]

/-- `ONE_BY_SQRT3`, `TWO_BY_SQRT3` and `SQRT3_BY_2`. -/
def oneBySqrt3 : K := 0.57735026919

def twoBySqrt3 : K := 2.0 * oneBySqrt3

def sqrt3By2 : K := 0.86602540378

inductive Sector where
  | one
  | two
  | three
  | four
  | five
  | six
  deriving DecidableEq, Repr

/-- The choice of the sector in `svm`, by quadrants. -/
def sector (alpha beta : K) : Sector :=
  if beta ≥ 0 then
    if alpha ≥ 0 then if oneBySqrt3 * beta > alpha then .two else .one
    else if -oneBySqrt3 * beta > alpha then .three else .two
  else
    if alpha ≥ 0 then if -oneBySqrt3 * beta > alpha then .five else .six
    else if oneBySqrt3 * beta > alpha then .four else .five

/-- The on-times of the two vectors, in half periods, in the order in which `svm` has them. -/
def onTimes (alpha beta : K) : Sector → K × K
  | .one => (alpha - oneBySqrt3 * beta, twoBySqrt3 * beta)
  | .two => (alpha + oneBySqrt3 * beta, -alpha + oneBySqrt3 * beta)
  | .three => (twoBySqrt3 * beta, -alpha - oneBySqrt3 * beta)
  | .four => (-alpha + oneBySqrt3 * beta, -twoBySqrt3 * beta)
  | .five => (-alpha - oneBySqrt3 * beta, alpha - oneBySqrt3 * beta)
  | .six => (-twoBySqrt3 * beta, alpha + oneBySqrt3 * beta)

/-- `tA`, `tB` and `tC`. -/
structure Timings where
  tA : Word
  tB : Word
  tC : Word
  deriving DecidableEq, Repr

def Timings.lowest (t : Timings) : Nat := min t.tA.toNat (min t.tB.toNat t.tC.toNat)

def Timings.highest (t : Timings) : Nat := max t.tA.toNat (max t.tB.toNat t.tC.toNat)

variable [FloorRing K]

/-- The conversion of a float to a `uint32_t` cuts off what is behind the point. -/
def toUint32 (x : K) : Word := BitVec.ofInt 32 (if x < 0 then ⌈x⌉ else ⌊x⌋)

/-- An on-time in counts. -/
def counts (onTime : K) (pwmHalfPeriod : Word) : Word :=
  toUint32 (onTime * (pwmHalfPeriod.toNat : K))

/-- `svm`. -/
def svm (alpha beta : K) (pwmHalfPeriod : Word) : Timings :=
  let times := onTimes alpha beta (sector alpha beta)
  match sector alpha beta with
  | .one =>
      let t1 := counts times.1 pwmHalfPeriod
      let t2 := counts times.2 pwmHalfPeriod
      let tA := (pwmHalfPeriod - t1 - t2) / 2
      let tB := tA + t1
      ⟨tA, tB, tB + t2⟩
  | .two =>
      let t2 := counts times.1 pwmHalfPeriod
      let t3 := counts times.2 pwmHalfPeriod
      let tB := (pwmHalfPeriod - t2 - t3) / 2
      let tA := tB + t3
      ⟨tA, tB, tA + t2⟩
  | .three =>
      let t3 := counts times.1 pwmHalfPeriod
      let t4 := counts times.2 pwmHalfPeriod
      let tB := (pwmHalfPeriod - t3 - t4) / 2
      let tC := tB + t3
      ⟨tC + t4, tB, tC⟩
  | .four =>
      let t4 := counts times.1 pwmHalfPeriod
      let t5 := counts times.2 pwmHalfPeriod
      let tC := (pwmHalfPeriod - t4 - t5) / 2
      let tB := tC + t5
      ⟨tB + t4, tB, tC⟩
  | .five =>
      let t5 := counts times.1 pwmHalfPeriod
      let t6 := counts times.2 pwmHalfPeriod
      let tC := (pwmHalfPeriod - t5 - t6) / 2
      let tA := tC + t5
      ⟨tA, tA + t6, tC⟩
  | .six =>
      let t6 := counts times.1 pwmHalfPeriod
      let t1 := counts times.2 pwmHalfPeriod
      let tA := (pwmHalfPeriod - t6 - t1) / 2
      let tC := tA + t1
      ⟨tA, tC + t6, tC⟩

/-- The timings are those of the vector, to two counts, and in the middle of the period. -/
structure Exact (alpha beta : K) (pwmHalfPeriod : Word) : Prop where
  nonneg : 0 ≤ (onTimes alpha beta (sector alpha beta)).1 ∧
    0 ≤ (onTimes alpha beta (sector alpha beta)).2
  sum_le : (counts (onTimes alpha beta (sector alpha beta)).1 pwmHalfPeriod).toNat +
    (counts (onTimes alpha beta (sector alpha beta)).2 pwmHalfPeriod).toNat ≤ pwmHalfPeriod.toNat
  tA_le : (svm alpha beta pwmHalfPeriod).tA.toNat ≤ pwmHalfPeriod.toNat
  tB_le : (svm alpha beta pwmHalfPeriod).tB.toNat ≤ pwmHalfPeriod.toNat
  tC_le : (svm alpha beta pwmHalfPeriod).tC.toNat ≤ pwmHalfPeriod.toNat
  lineAB : |((svm alpha beta pwmHalfPeriod).tB.toNat : K) -
    (svm alpha beta pwmHalfPeriod).tA.toNat -
      (alpha - oneBySqrt3 * beta) * pwmHalfPeriod.toNat| < 2
  lineBC : |((svm alpha beta pwmHalfPeriod).tC.toNat : K) -
    (svm alpha beta pwmHalfPeriod).tB.toNat - twoBySqrt3 * beta * pwmHalfPeriod.toNat| < 2
  centred : (svm alpha beta pwmHalfPeriod).lowest + (svm alpha beta pwmHalfPeriod).highest =
      pwmHalfPeriod.toNat ∨
    (svm alpha beta pwmHalfPeriod).lowest + (svm alpha beta pwmHalfPeriod).highest + 1 =
      pwmHalfPeriod.toNat

/-- The timings as numbers: where the two on-times stand in the period. -/
def Sector.timings (start first second : Nat) : Sector → Nat × Nat × Nat
  | .one => (start, start + first, start + first + second)
  | .two => (start + second, start, start + second + first)
  | .three => (start + first + second, start, start + first)
  | .four => (start + second + first, start + second, start)
  | .five => (start + first, start + first + second, start)
  | .six => (start, start + second + first, start + second)

/-- Half of what two on-times leave of the period. -/
theorem toNat_margin {pwmHalfPeriod first second : Word}
    (hsum : first.toNat + second.toNat ≤ pwmHalfPeriod.toNat) :
    ((pwmHalfPeriod - first - second) / 2).toNat =
      (pwmHalfPeriod.toNat - (first.toNat + second.toNat)) / 2 := by
  have htwo : (2 : Word).toNat = 2 := rfl
  rw [BitVec.toNat_udiv, htwo]
  congr 1
  rw [BitVec.toNat_sub, BitVec.toNat_sub]
  omega

/-- On-times that fit the period stand in the middle of it, and no sum of them wraps. -/
theorem svm_timings {alpha beta : K} {pwmHalfPeriod : Word}
    (hperiod : pwmHalfPeriod.toNat < 2 ^ 16)
    (hsum : (counts (onTimes alpha beta (sector alpha beta)).1 pwmHalfPeriod).toNat +
      (counts (onTimes alpha beta (sector alpha beta)).2 pwmHalfPeriod).toNat ≤
        pwmHalfPeriod.toNat) :
    ((svm alpha beta pwmHalfPeriod).tA.toNat, (svm alpha beta pwmHalfPeriod).tB.toNat,
      (svm alpha beta pwmHalfPeriod).tC.toNat) =
    (sector alpha beta).timings
      ((pwmHalfPeriod.toNat -
        ((counts (onTimes alpha beta (sector alpha beta)).1 pwmHalfPeriod).toNat +
          (counts (onTimes alpha beta (sector alpha beta)).2 pwmHalfPeriod).toNat)) / 2)
      (counts (onTimes alpha beta (sector alpha beta)).1 pwmHalfPeriod).toNat
      (counts (onTimes alpha beta (sector alpha beta)).2 pwmHalfPeriod).toNat := by
  have hmargin := toNat_margin hsum
  unfold svm
  revert hmargin hsum
  generalize onTimes alpha beta (sector alpha beta) = times
  intro hsum hmargin
  cases sector alpha beta <;>
    simp only [Sector.timings, BitVec.toNat_add, hmargin, Prod.mk.injEq,
      true_and, and_true] <;>
    omega

theorem timings_centred (place : Sector) {period first second : Nat}
    (hsum : first + second ≤ period) :
    let timings := place.timings ((period - (first + second)) / 2) first second
    (timings.1 ≤ period ∧ timings.2.1 ≤ period ∧ timings.2.2 ≤ period) ∧
      (min timings.1 (min timings.2.1 timings.2.2) +
          max timings.1 (max timings.2.1 timings.2.2) = period ∨
        min timings.1 (min timings.2.1 timings.2.2) +
          max timings.1 (max timings.2.1 timings.2.2) + 1 = period) := by
  cases place <;> simp only [Sector.timings] <;> omega

section Ordered

variable [IsStrictOrderedRing K] {alpha beta : K} {pwmHalfPeriod : Word}

omit [IsStrictOrderedRing K] in
theorem toNat_toUint32 {x : K} (hnonneg : 0 ≤ x) (hlt : x < 2 ^ 32) :
    ((toUint32 x).toNat : K) ≤ x ∧ x < (toUint32 x).toNat + 1 := by
  have hfloor : 0 ≤ ⌊x⌋ := Int.floor_nonneg.2 hnonneg
  have hbound : ⌊x⌋ < 2 ^ 32 := Int.floor_lt.2 (by exact_mod_cast hlt)
  have hint : ((toUint32 x).toNat : Int) = ⌊x⌋ := by
    rw [toUint32, if_neg (not_lt.2 hnonneg), BitVec.toNat_ofInt]
    omega
  have hcast : ((toUint32 x).toNat : K) = (⌊x⌋ : K) := by
    rw [← hint, Int.cast_natCast]
  rw [hcast]
  exact ⟨Int.floor_le x, Int.lt_floor_add_one x⟩

theorem counts_spec (pwmHalfPeriod : Word) {onTime : K} (hnonneg : 0 ≤ onTime) (hle : onTime ≤ 1) :
    ((counts onTime pwmHalfPeriod).toNat : K) ≤ onTime * pwmHalfPeriod.toNat ∧
      onTime * pwmHalfPeriod.toNat < (counts onTime pwmHalfPeriod).toNat + 1 := by
  have hperiod : (0 : K) ≤ pwmHalfPeriod.toNat := Nat.cast_nonneg _
  have hword : (pwmHalfPeriod.toNat : K) < 2 ^ 32 := by exact_mod_cast pwmHalfPeriod.isLt
  exact toNat_toUint32 (mul_nonneg hnonneg hperiod)
    ((mul_le_of_le_one_left hperiod hle).trans_lt hword)

/-- On-times of at most one period together fit the period in counts too. -/
theorem counts_sum_le (pwmHalfPeriod : Word) {first second : K} (hfirst : 0 ≤ first)
    (hsecond : 0 ≤ second) (hsum : first + second ≤ 1) :
    (counts first pwmHalfPeriod).toNat + (counts second pwmHalfPeriod).toNat ≤
      pwmHalfPeriod.toNat := by
  have hperiod : (0 : K) ≤ pwmHalfPeriod.toNat := Nat.cast_nonneg _
  have hcounts : ((counts first pwmHalfPeriod).toNat : K) +
      (counts second pwmHalfPeriod).toNat ≤ pwmHalfPeriod.toNat :=
    calc ((counts first pwmHalfPeriod).toNat : K) + (counts second pwmHalfPeriod).toNat
        ≤ first * pwmHalfPeriod.toNat + second * pwmHalfPeriod.toNat :=
          add_le_add (counts_spec _ hfirst (by linarith)).1
            (counts_spec _ hsecond (by linarith)).1
      _ = (first + second) * pwmHalfPeriod.toNat := (add_mul _ _ _).symm
      _ ≤ pwmHalfPeriod.toNat := mul_le_of_le_one_left hperiod hsum
  exact_mod_cast hcounts

omit [FloorRing K] in
theorem twoBySqrt3_eq : (twoBySqrt3 : K) = 2 * oneBySqrt3 := by norm_num [twoBySqrt3]

omit [FloorRing K] in
/-- In its sector a vector has no negative on-time. -/
theorem onTimes_nonneg (alpha beta : K) :
    0 ≤ (onTimes alpha beta (sector alpha beta)).1 ∧
      0 ≤ (onTimes alpha beta (sector alpha beta)).2 := by
  have hone : (0 : K) < oneBySqrt3 := by norm_num [oneBySqrt3]
  have htwo := twoBySqrt3_eq (K := K)
  have hpos : 0 ≤ beta → 0 ≤ oneBySqrt3 * beta := mul_nonneg hone.le
  have hneg : beta < 0 → oneBySqrt3 * beta < 0 := mul_neg_of_pos_of_neg hone
  unfold sector
  split_ifs <;> simp only [onTimes, htwo] <;> constructor <;> grind

omit [FloorRing K] in
/-- The inscribed circle: the components along the three lines stay below one. -/
theorem abs_line_lt (h : alpha ^ 2 + beta ^ 2 ≤ sqrt3By2 ^ 2) :
    |alpha + oneBySqrt3 * beta| < 1 ∧ |alpha - oneBySqrt3 * beta| < 1 ∧
      |twoBySqrt3 * beta| < 1 := by
  have hunit : (1 + oneBySqrt3 ^ 2) * sqrt3By2 ^ 2 < (1 : K) := by
    norm_num [oneBySqrt3, sqrt3By2]
  have htwo : twoBySqrt3 ^ 2 * sqrt3By2 ^ 2 < (1 : K) := by
    norm_num [twoBySqrt3, oneBySqrt3, sqrt3By2]
  have hscaled : (1 + oneBySqrt3 ^ 2) * (alpha ^ 2 + beta ^ 2) < 1 :=
    (mul_le_mul_of_nonneg_left h (by positivity)).trans_lt hunit
  have hplus := sq_nonneg (oneBySqrt3 * alpha - beta)
  have hminus := sq_nonneg (oneBySqrt3 * alpha + beta)
  refine ⟨?_, ?_, ?_⟩
  · rw [← sq_lt_one_iff_abs_lt_one]
    linarith
  · rw [← sq_lt_one_iff_abs_lt_one]
    linarith
  · rw [← sq_lt_one_iff_abs_lt_one]
    calc (twoBySqrt3 * beta) ^ 2 = twoBySqrt3 ^ 2 * beta ^ 2 := mul_pow _ _ _
      _ ≤ twoBySqrt3 ^ 2 * sqrt3By2 ^ 2 :=
          mul_le_mul_of_nonneg_left (by linarith [sq_nonneg alpha]) (sq_nonneg _)
      _ < 1 := htwo

omit [FloorRing K] in
theorem onTimes_sum_lt (h : alpha ^ 2 + beta ^ 2 ≤ sqrt3By2 ^ 2) :
    (onTimes alpha beta (sector alpha beta)).1 +
      (onTimes alpha beta (sector alpha beta)).2 < 1 := by
  obtain ⟨hplus, hminus, htwo⟩ := abs_line_lt h
  rw [abs_lt] at hplus hminus htwo
  have hdouble := twoBySqrt3_eq (K := K)
  rw [hdouble] at htwo
  cases sector alpha beta <;> simp only [onTimes, hdouble] <;> linarith

omit [FloorRing K] in
/-- Two counts off by less than one each leave every line off by less than two. -/
theorem timings_lines (place : Sector) (margin : Nat) {first second : Nat} {period : K}
    (hfirst : first ≤ (onTimes alpha beta place).1 * period ∧
      (onTimes alpha beta place).1 * period < first + 1)
    (hsecond : second ≤ (onTimes alpha beta place).2 * period ∧
      (onTimes alpha beta place).2 * period < second + 1) :
    |((place.timings margin first second).2.1 : K) - (place.timings margin first second).1 -
        (alpha - oneBySqrt3 * beta) * period| < 2 ∧
      |((place.timings margin first second).2.2 : K) - (place.timings margin first second).2.1 -
        twoBySqrt3 * beta * period| < 2 := by
  have hdouble := twoBySqrt3_eq (K := K)
  rw [abs_lt, abs_lt]
  cases place <;>
    simp only [onTimes, hdouble, Sector.timings, Nat.cast_add] at hfirst hsecond ⊢ <;>
    refine ⟨⟨?_, ?_⟩, ?_, ?_⟩ <;>
    linarith

/-- The on-times of a vector in the circle fit the period. -/
theorem counts_onTimes_le (pwmHalfPeriod : Word) (h : alpha ^ 2 + beta ^ 2 ≤ sqrt3By2 ^ 2) :
    (counts (onTimes alpha beta (sector alpha beta)).1 pwmHalfPeriod).toNat +
      (counts (onTimes alpha beta (sector alpha beta)).2 pwmHalfPeriod).toNat ≤
        pwmHalfPeriod.toNat :=
  counts_sum_le pwmHalfPeriod (onTimes_nonneg alpha beta).1 (onTimes_nonneg alpha beta).2
    (onTimes_sum_lt h).le

/-- No compare value is behind the period. -/
theorem svm_le_period (h : alpha ^ 2 + beta ^ 2 ≤ sqrt3By2 ^ 2)
    (hperiod : pwmHalfPeriod.toNat < 2 ^ 16) :
    (svm alpha beta pwmHalfPeriod).tA.toNat ≤ pwmHalfPeriod.toNat ∧
      (svm alpha beta pwmHalfPeriod).tB.toNat ≤ pwmHalfPeriod.toNat ∧
        (svm alpha beta pwmHalfPeriod).tC.toNat ≤ pwmHalfPeriod.toNat := by
  have hsum := counts_onTimes_le pwmHalfPeriod h
  have hcentred := (timings_centred (sector alpha beta) hsum).1
  rwa [← svm_timings hperiod hsum] at hcentred

theorem svm_exact (hmagnitude : alpha ^ 2 + beta ^ 2 ≤ sqrt3By2 ^ 2)
    (hperiod : pwmHalfPeriod.toNat < 2 ^ 16) : Exact alpha beta pwmHalfPeriod := by
  have hnonneg := onTimes_nonneg alpha beta
  have hlt := onTimes_sum_lt hmagnitude
  have hsum := counts_onTimes_le pwmHalfPeriod hmagnitude
  have htimings := svm_timings hperiod hsum
  obtain ⟨hA, hB, hC⟩ := svm_le_period hmagnitude hperiod
  obtain ⟨hlineAB, hlineBC⟩ := timings_lines (sector alpha beta) _
    (counts_spec pwmHalfPeriod hnonneg.1 (by linarith))
    (counts_spec pwmHalfPeriod hnonneg.2 (by linarith))
  have hcentred := (timings_centred (sector alpha beta) hsum).2
  rw [← htimings] at hlineAB hlineBC hcentred
  exact ⟨hnonneg, hsum, hA, hB, hC, hlineAB, hlineBC, hcentred⟩

end Ordered

/-- On the border between two sectors, at the longest period of the timer. -/
theorem svm_exact_border : Exact (1 / 2 : ℚ) 0 65535 :=
  svm_exact (by norm_num [sqrt3By2]) (by decide)

end Bldc.Foc
