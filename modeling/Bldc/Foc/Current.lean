import Bldc.Foc.Rotation
import Bldc.Foc.Svm
import Mathlib.Analysis.Real.Sqrt

/-!
# The current controller

`control_current` computes a voltage from the current errors, limits it to a circle and
turns it back into the coordinates of the stator. The limit comes before the rotation, so
that whether the modulator gets a vector in its circle depends on the rotation.
-/

namespace Bldc.Foc

open Flash Utils

/-- The sensor modes of `mc_foc_sensor_mode`. -/
inductive SensorMode where
  | sensorless
  | encoder
  | hall
  deriving DecidableEq, Repr

/-- What the control loops read of `mc_configuration`. -/
structure Configuration (K : Type) where
  lMaxDuty : K
  loCurrentMax : K
  loCurrentMin : K
  loInCurrentMax : K
  loInCurrentMin : K
  focCurrentKp : K
  focCurrentKi : K
  focFSw : K
  focDtUs : K
  focSensorMode : SensorMode
  focDutyDowmrampKp : K
  focDutyDowmrampKi : K
  focSlDCurrentDuty : K
  focSlDCurrentFactor : K
  sPidMinErpm : K

/-- `motor_state_t`. -/
structure MotorState (K : Type) where
  idTarget : K
  iqTarget : K
  maxDuty : K
  dutyNow : K
  phase : K
  iAlpha : K
  iBeta : K
  iAbs : K
  iAbsFilter : K
  iBus : K
  vBus : K
  vAlpha : K
  vBeta : K
  modD : K
  modQ : K
  id : K
  iq : K
  idFilter : K
  iqFilter : K
  vd : K
  vq : K

/-- What `control_current` puts out: the vector it gives `svm`, and the compare registers
of the timer. -/
structure Output (K : Type) where
  modAlpha : K
  modBeta : K
  ccr1 : Word
  ccr2 : Word
  ccr3 : Word

variable {K : Type} [Field K] [LinearOrder K] [FloorRing K]

/-- `MCPWM_FOC_I_FILTER_CONST`. -/
def mcpwmFocIFilterConst : K := 0.1

/-- `control_current`, with `sqrtf` and the 16 bits of `TIM1->ARR`. -/
def controlCurrent (sqrtf : K → K) (conf : Configuration K) (stateM : MotorState K) (dt : K)
    (arr : BitVec 16) : MotorState K × Output K :=
  let (s, c) := fastSincosBetter stateM.phase
  let id := c * stateM.iAlpha + s * stateM.iBeta
  let iq := c * stateM.iBeta - s * stateM.iAlpha
  let idFilter := lpFast stateM.idFilter id mcpwmFocIFilterConst
  let iqFilter := lpFast stateM.iqFilter iq mcpwmFocIFilterConst
  let ierrD := stateM.idTarget - id
  let ierrQ := stateM.iqTarget - iq
  let voltageD := stateM.vd + ierrD * conf.focCurrentKp
  let voltageQ := stateM.vq + ierrQ * conf.focCurrentKp
  let vd := stateM.vd + ierrD * (conf.focCurrentKi * dt)
  let vq := stateM.vq + ierrQ * (conf.focCurrentKi * dt)
  let maxDuty := truncateNumber |stateM.maxDuty| 0 conf.lMaxDuty
  let modD := voltageD / (2.0 / 3.0 * stateM.vBus)
  let modQ := voltageQ / (2.0 / 3.0 * stateM.vBus)
  let (modD, modQ) := saturateVector2d sqrtf modD modQ (sqrt3By2 * maxDuty)
  let (vd, vq) := saturateVector2d sqrtf vd vq (2.0 / 3.0 * maxDuty * sqrt3By2 * stateM.vBus)
  let modAlpha := c * modD - s * modQ
  let modBeta := c * modQ + s * modD
  let iaSet := c * stateM.idTarget - s * stateM.iqTarget
  let iBetaSet := c * stateM.iqTarget + s * stateM.idTarget
  let ibSet := -0.5 * iaSet + sqrt3By2 * iBetaSet
  let icSet := -0.5 * iaSet - sqrt3By2 * iBetaSet
  let modAlphaSetSgn := 2.0 / 3.0 * sign iaSet - 1.0 / 3.0 * sign ibSet - 1.0 / 3.0 * sign icSet
  let modBetaSetSgn := oneBySqrt3 * sign ibSet - oneBySqrt3 * sign icSet
  let modCompFact := conf.focDtUs * 1e-6 * conf.focFSw
  let duty := svm (-modAlpha) (-modBeta) (arr.setWidth 32)
  ({ stateM with
      id := id
      iq := iq
      idFilter := idFilter
      iqFilter := iqFilter
      vd := vd
      vq := vq
      modD := modD
      modQ := modQ
      iBus := modD * id + modQ * iq
      iAbs := sqrtf (id * id + iq * iq)
      iAbsFilter := sqrtf (idFilter * idFilter + iqFilter * iqFilter)
      vAlpha := (modAlpha - modAlphaSetSgn * modCompFact) * (2.0 / 3.0) * stateM.vBus
      vBeta := (modBeta - modBetaSetSgn * modCompFact) * (2.0 / 3.0) * stateM.vBus },
    { modAlpha := modAlpha
      modBeta := modBeta
      -- the phases of the power stage are not in the order of the modulator
      ccr1 := duty.tA
      ccr2 := duty.tC
      ccr3 := duty.tB })

/-- What the modulator has to be given, and what then goes to the timer. -/
structure Modulated (output : Output K) (arr : BitVec 16) : Prop where
  magnitude_le : output.modAlpha ^ 2 + output.modBeta ^ 2 ≤ sqrt3By2 ^ 2
  ccr1_le : output.ccr1.toNat ≤ arr.toNat
  ccr2_le : output.ccr2.toNat ≤ arr.toNat
  ccr3_le : output.ccr3.toNat ≤ arr.toNat

/-- The modulation that the current errors ask for, before any limit. -/
def requested (conf : Configuration K) (stateM : MotorState K) : K × K :=
  let (s, c) := fastSincosBetter stateM.phase
  let id := c * stateM.iAlpha + s * stateM.iBeta
  let iq := c * stateM.iBeta - s * stateM.iAlpha
  ((stateM.vd + (stateM.idTarget - id) * conf.focCurrentKp) / (2.0 / 3.0 * stateM.vBus),
    (stateM.vq + (stateM.iqTarget - iq) * conf.focCurrentKp) / (2.0 / 3.0 * stateM.vBus))

/-- The output is the limited request, turned by the phase. -/
theorem controlCurrent_magnitude (sqrtf : K → K) (conf : Configuration K)
    (stateM : MotorState K) (dt : K) (arr : BitVec 16) :
    (controlCurrent sqrtf conf stateM dt arr).2.modAlpha ^ 2 +
        (controlCurrent sqrtf conf stateM dt arr).2.modBeta ^ 2 =
      gain stateM.phase *
        ((saturateVector2d sqrtf (requested conf stateM).1 (requested conf stateM).2
          (sqrt3By2 * truncateNumber |stateM.maxDuty| 0 conf.lMaxDuty)).1 ^ 2 +
        (saturateVector2d sqrtf (requested conf stateM).1 (requested conf stateM).2
          (sqrt3By2 * truncateNumber |stateM.maxDuty| 0 conf.lMaxDuty)).2 ^ 2) := by
  unfold controlCurrent requested gain
  ring

section Ordered

variable [IsStrictOrderedRing K]

/-- A vector in the circle of the modulator is all that the timer needs. -/
theorem controlCurrent_modulated (sqrtf : K → K) (conf : Configuration K)
    (stateM : MotorState K) (dt : K) (arr : BitVec 16)
    (h : (controlCurrent sqrtf conf stateM dt arr).2.modAlpha ^ 2 +
      (controlCurrent sqrtf conf stateM dt arr).2.modBeta ^ 2 ≤ sqrt3By2 ^ 2) :
    Modulated (controlCurrent sqrtf conf stateM dt arr).2 arr := by
  have harr : (arr.setWidth 32 : Word).toNat = arr.toNat := by
    rw [BitVec.toNat_setWidth]
    have := arr.isLt
    omega
  have hneg : (-(controlCurrent sqrtf conf stateM dt arr).2.modAlpha) ^ 2 +
      (-(controlCurrent sqrtf conf stateM dt arr).2.modBeta) ^ 2 ≤ sqrt3By2 ^ 2 := by
    rwa [neg_sq, neg_sq]
  have hperiod : (arr.setWidth 32 : Word).toNat < 2 ^ 16 := harr ▸ arr.isLt
  obtain ⟨hA, hB, hC⟩ := svm_le_period hneg hperiod
  exact ⟨h, harr ▸ hA, harr ▸ hC, harr ▸ hB⟩

omit [FloorRing K] in
theorem truncateNumber_abs (duty most : K) : truncateNumber |duty| 0 most = min |duty| most := by
  unfold truncateNumber
  split
  next h => exact (min_eq_right h.le).symm
  next h => rw [if_neg (not_lt.2 (abs_nonneg duty)), min_eq_left (not_lt.1 h)]

/-- A short vector stays in the circle, however it is turned. -/
theorem gain_mul_le (phase : K) {square : K} (hnonneg : 0 ≤ square)
    (hle : square ≤ (999 / 1000 * sqrt3By2) ^ 2) : gain phase * square ≤ sqrt3By2 ^ 2 :=
  calc gain phase * square ≤ 1002 / 1000 * (999 / 1000 * sqrt3By2) ^ 2 :=
        mul_le_mul (gain_le phase) hle hnonneg (by norm_num)
    _ ≤ sqrt3By2 ^ 2 := by norm_num [sqrt3By2]

end Ordered

theorem sqrt_exact (x : ℝ) (hx : 0 ≤ x) : 0 ≤ Real.sqrt x ∧ Real.sqrt x ^ 2 = x :=
  ⟨Real.sqrt_nonneg x, Real.sq_sqrt hx⟩

theorem limit_nonneg {conf : Configuration ℝ} (hduty : 0 < conf.lMaxDuty)
    (stateM : MotorState ℝ) : 0 ≤ sqrt3By2 * min |stateM.maxDuty| conf.lMaxDuty :=
  mul_nonneg (by norm_num [sqrt3By2]) (le_min (abs_nonneg _) hduty.le)

/-- The modulator gets what it needs when the rotation leaves the limited request in the
circle. -/
theorem controlCurrent_modulated_iff (conf : Configuration ℝ) (stateM : MotorState ℝ) (dt : ℝ)
    (arr : BitVec 16) (hduty : 0 < conf.lMaxDuty) :
    Modulated (controlCurrent Real.sqrt conf stateM dt arr).2 arr ↔
      gain stateM.phase *
        (min (Real.sqrt ((requested conf stateM).1 * (requested conf stateM).1 +
            (requested conf stateM).2 * (requested conf stateM).2))
          (sqrt3By2 * min |stateM.maxDuty| conf.lMaxDuty)) ^ 2 ≤ sqrt3By2 ^ 2 := by
  have hlength := controlCurrent_magnitude Real.sqrt conf stateM dt arr
  rw [truncateNumber_abs] at hlength
  have hmodulated : Modulated (controlCurrent Real.sqrt conf stateM dt arr).2 arr ↔
      (controlCurrent Real.sqrt conf stateM dt arr).2.modAlpha ^ 2 +
        (controlCurrent Real.sqrt conf stateM dt arr).2.modBeta ^ 2 ≤ sqrt3By2 ^ 2 :=
    ⟨fun h => h.magnitude_le, controlCurrent_modulated Real.sqrt conf stateM dt arr⟩
  rw [hmodulated, hlength]
  have hlimit := limit_nonneg hduty stateM
  revert hlimit
  generalize sqrt3By2 * min |stateM.maxDuty| conf.lMaxDuty = limit
  intro hlimit
  obtain h | ⟨-, htiny, hle⟩ := saturateVector2d_sq sqrt_exact (x := (requested conf stateM).1)
    (y := (requested conf stateM).2) hlimit
  · rw [h]
  -- far below the circle both sides hold
  · have hsquare : limit ^ 2 ≤ (999 / 1000 * sqrt3By2) ^ 2 :=
      pow_le_pow_left₀ hlimit (htiny.le.trans (by norm_num [sqrt3By2])) 2
    have hleft := gain_mul_le stateM.phase (by positivity) (hle.trans hsquare)
    have hmin := pow_le_pow_left₀ (le_min (Real.sqrt_nonneg _) hlimit) (min_le_right
      (Real.sqrt ((requested conf stateM).1 * (requested conf stateM).1 +
        (requested conf stateM).2 * (requested conf stateM).2)) limit) 2
    exact iff_of_true hleft (gain_mul_le stateM.phase (sq_nonneg _) (hmin.trans hsquare))

/-- One part in a thousand below full duty the rotation cannot leave the circle. -/
theorem controlCurrent_modulated_of_duty {conf : Configuration ℝ} (hpos : 0 < conf.lMaxDuty)
    (hle : conf.lMaxDuty ≤ 999 / 1000) (stateM : MotorState ℝ) (dt : ℝ) (arr : BitVec 16) :
    Modulated (controlCurrent Real.sqrt conf stateM dt arr).2 arr := by
  apply controlCurrent_modulated
  rw [controlCurrent_magnitude, truncateNumber_abs]
  refine gain_mul_le stateM.phase (by positivity)
    ((saturateVector2d_sq_le sqrt_exact (limit_nonneg hpos stateM)).trans ?_)
  refine pow_le_pow_left₀ (limit_nonneg hpos stateM) ?_ 2
  rw [mul_comm]
  exact mul_le_mul_of_nonneg_right ((min_le_right _ _).trans hle) (by norm_num [sqrt3By2])
section Diagonal

/-- Full duty, with the rest of the configuration as it may be. -/
def fullDuty : Configuration K where
  lMaxDuty := 1
  loCurrentMax := 60.0
  loCurrentMin := -60.0
  loInCurrentMax := 60.0
  loInCurrentMin := -20.0
  focCurrentKp := 0
  focCurrentKi := 0
  focFSw := 20000.0
  focDtUs := 0
  focSensorMode := .sensorless
  focDutyDowmrampKp := 10.0
  focDutyDowmrampKi := 200.0
  focSlDCurrentDuty := 0
  focSlDCurrentFactor := 0
  sPidMinErpm := 900.0

/-- The integrators ask for more than the battery has. -/
def fullRequest (phase : K) : MotorState K where
  idTarget := 0
  iqTarget := 0
  maxDuty := 1
  dutyNow := 0
  phase := phase
  iAlpha := 0
  iBeta := 0
  iAbs := 0
  iAbsFilter := 0
  iBus := 0
  vBus := 1
  vAlpha := 0
  vBeta := 0
  modD := 0
  modQ := 0
  id := 0
  iq := 0
  idFilter := 0
  iqFilter := 0
  vd := 221.0
  vq := -60.0

theorem requested_fullRequest (phase : K) :
    requested fullDuty (fullRequest phase) =
      (221.0 / (2.0 / 3.0 * 1), -60.0 / (2.0 / 3.0 * 1)) := by
  simp only [requested, fullDuty, fullRequest, mul_zero, add_zero]

theorem sqrt_fullRequest : Real.sqrt (221.0 / (2.0 / 3.0 * 1) * (221.0 / (2.0 / 3.0 * 1)) +
    -60.0 / (2.0 / 3.0 * 1) * (-60.0 / (2.0 / 3.0 * 1))) = 687 / 2 := by
  rw [Real.sqrt_eq_iff_mul_self_eq (by norm_num) (by norm_num)]
  norm_num

theorem saturateVector2d_fullRequest : saturateVector2d Real.sqrt (221.0 / (2.0 / 3.0 * 1))
    (-60.0 / (2.0 / 3.0 * 1)) (sqrt3By2 * 1) = (221 / 229 * sqrt3By2, -60 / 229 * sqrt3By2) := by
  unfold saturateVector2d
  rw [sqrt_fullRequest]
  norm_num [sqrt3By2]

/-- Along an axis the rotation shortens. -/
theorem controlCurrent_modulated_axis :
    Modulated (controlCurrent Real.sqrt fullDuty (fullRequest 0) (1 / 10 ^ 4) 8400).2 8400 := by
  have hgain : gain (0 : ℝ) ≤ 1 := by
    norm_num [gain, fastSincosBetter, normAngleRad, fastSin, mPi]
  refine (controlCurrent_modulated_iff fullDuty (fullRequest 0) (1 / 10 ^ 4) 8400
    zero_lt_one).2 ?_
  rw [requested_fullRequest, sqrt_fullRequest]
  norm_num [fullRequest, fullDuty, sqrt3By2] at hgain ⊢
  linarith

theorem sincos_diagonal :
    ∃ s c : ℝ, fastSincosBetter (mPi / 4) = (s, c) ∧
      (70781 / 10 ^ 5 < s ∧ s < 70782 / 10 ^ 5) ∧ 70781 / 10 ^ 5 < c ∧ c < 70782 / 10 ^ 5 := by
  have hnorm : normAngleRad (mPi / 4 : ℝ) = mPi / 4 := by norm_num [normAngleRad, mPi]
  refine ⟨_, _, rfl, ?_⟩
  simp only [hnorm]
  norm_num [fastSin, mPi]

theorem output_diagonal {s c : ℝ} (h : fastSincosBetter (mPi / 4) = (s, c)) (dt : ℝ)
    (arr : BitVec 16) : ∃ modAlpha modBeta,
      modAlpha = (221 * c + 60 * s) / 229 * sqrt3By2 ∧
      modBeta = (221 * s - 60 * c) / 229 * sqrt3By2 ∧
      (controlCurrent Real.sqrt fullDuty (fullRequest (mPi / 4)) dt arr).2 =
        { modAlpha := modAlpha
          modBeta := modBeta
          ccr1 := (svm (-modAlpha) (-modBeta) (arr.setWidth 32)).tA
          ccr2 := (svm (-modAlpha) (-modBeta) (arr.setWidth 32)).tC
          ccr3 := (svm (-modAlpha) (-modBeta) (arr.setWidth 32)).tB } := by
  have hduty : truncateNumber |(1 : ℝ)| 0 1 = 1 := by norm_num [truncateNumber]
  refine ⟨c * (221 / 229 * sqrt3By2) - s * (-60 / 229 * sqrt3By2),
    c * (-60 / 229 * sqrt3By2) + s * (221 / 229 * sqrt3By2), by ring, by ring, ?_⟩
  simp only [controlCurrent, fullDuty, fullRequest, h, hduty, mul_zero, add_zero,
    saturateVector2d_fullRequest]

/-- Beyond the circle, in the fourth sector: the two on-times do not fit the period. -/
theorem svm_wraps {alpha beta : ℝ} {pwmHalfPeriod : Word} (hsector : sector alpha beta = .four)
    (hperiod : pwmHalfPeriod.toNat < 2 ^ 16)
    (hfour : -alpha + oneBySqrt3 * beta ≤ 1) (hfive : -twoBySqrt3 * beta ≤ 1)
    (hsum : pwmHalfPeriod.toNat + 2 ≤ (-alpha + oneBySqrt3 * beta) * pwmHalfPeriod.toNat +
      -twoBySqrt3 * beta * pwmHalfPeriod.toNat) :
    2 ^ 30 ≤ (svm alpha beta pwmHalfPeriod).tC.toNat := by
  have hnonneg := onTimes_nonneg alpha beta
  rw [hsector] at hnonneg
  have hvalue : (svm alpha beta pwmHalfPeriod).tC =
      (pwmHalfPeriod - counts (-alpha + oneBySqrt3 * beta) pwmHalfPeriod -
        counts (-twoBySqrt3 * beta) pwmHalfPeriod) / 2 := by
    simp only [svm, hsector, onTimes]
  rw [hvalue]
  have hfirst := counts_spec pwmHalfPeriod hnonneg.1 hfour
  have hsecond := counts_spec pwmHalfPeriod hnonneg.2 hfive
  simp only [onTimes] at hfirst hsecond
  generalize counts (-alpha + oneBySqrt3 * beta) pwmHalfPeriod = first at hfirst ⊢
  generalize counts (-twoBySqrt3 * beta) pwmHalfPeriod = second at hsecond ⊢
  have hbig : pwmHalfPeriod.toNat < first.toNat + second.toNat := by
    have hcast : (pwmHalfPeriod.toNat : ℝ) < first.toNat + second.toNat := by linarith
    exact_mod_cast hcast
  have hle (time onTime : ℝ) (hone : onTime ≤ 1)
      (htime : time ≤ onTime * pwmHalfPeriod.toNat) : time ≤ pwmHalfPeriod.toNat :=
    htime.trans (mul_le_of_le_one_left (Nat.cast_nonneg _) hone)
  have hfirstle : first.toNat ≤ pwmHalfPeriod.toNat := by
    exact_mod_cast hle _ _ hfour hfirst.1
  have hsecondle : second.toNat ≤ pwmHalfPeriod.toNat := by
    exact_mod_cast hle _ _ hfive hsecond.1
  have htwo : (2 : Word).toNat = 2 := rfl
  rw [BitVec.toNat_udiv, htwo, BitVec.toNat_sub, BitVec.toNat_sub]
  omega

theorem vector_diagonal {s c : ℝ} (hs : 70781 / 10 ^ 5 < s ∧ s < 70782 / 10 ^ 5)
    (hc : 70781 / 10 ^ 5 < c ∧ c < 70782 / 10 ^ 5) :
    (7521 / 10 ^ 4 < (221 * c + 60 * s) / 229 * sqrt3By2 ∧
        (221 * c + 60 * s) / 229 * sqrt3By2 < 7522 / 10 ^ 4) ∧
      4309 / 10 ^ 4 < (221 * s - 60 * c) / 229 * sqrt3By2 ∧
        (221 * s - 60 * c) / 229 * sqrt3By2 < 4310 / 10 ^ 4 := by
  obtain ⟨hs, hs'⟩ := hs
  obtain ⟨hc, hc'⟩ := hc
  norm_num [sqrt3By2] at hs hs' hc hc' ⊢
  refine ⟨⟨?_, ?_⟩, ?_, ?_⟩ <;> linarith

theorem sq_diagonal {s c : ℝ} (hs : 70781 / 10 ^ 5 < s) (hc : 70781 / 10 ^ 5 < c) :
    sqrt3By2 ^ 2 < ((221 * c + 60 * s) / 229 * sqrt3By2) ^ 2 +
      ((221 * s - 60 * c) / 229 * sqrt3By2) ^ 2 := by
  have hside : (0 : ℝ) < sqrt3By2 := by norm_num [sqrt3By2]
  have hs2 : (70781 / 10 ^ 5) ^ 2 < s ^ 2 := pow_lt_pow_left₀ hs (by norm_num) two_ne_zero
  have hc2 : (70781 / 10 ^ 5) ^ 2 < c ^ 2 := pow_lt_pow_left₀ hc (by norm_num) two_ne_zero
  have hone : 1 < s ^ 2 + c ^ 2 := by
    norm_num at hs2 hc2 ⊢
    linarith
  calc sqrt3By2 ^ 2 < (s ^ 2 + c ^ 2) * sqrt3By2 ^ 2 :=
        lt_mul_of_one_lt_left (pow_pos hside 2) hone
    _ = _ := by ring

theorem svm_wraps_diagonal {modAlpha modBeta : ℝ}
    (halpha : 7521 / 10 ^ 4 < modAlpha ∧ modAlpha < 7522 / 10 ^ 4)
    (hbeta : 4309 / 10 ^ 4 < modBeta ∧ modBeta < 4310 / 10 ^ 4) :
    2 ^ 30 ≤ (svm (-modAlpha) (-modBeta) ((8400 : BitVec 16).setWidth 32)).tC.toNat := by
  have hword : ((8400 : BitVec 16).setWidth 32 : Word).toNat = 8400 := by decide
  norm_num at halpha hbeta
  have hsector : sector (-modAlpha) (-modBeta) = .four := by
    unfold sector
    rw [if_neg (by linarith), if_neg (by linarith), if_pos]
    norm_num [oneBySqrt3]
    linarith
  refine svm_wraps hsector (by rw [hword]; norm_num) ?_ ?_ ?_
  · norm_num [oneBySqrt3]
    linarith
  · norm_num [twoBySqrt3, oneBySqrt3]
    linarith
  · rw [hword]
    norm_num [twoBySqrt3, oneBySqrt3]
    linarith

/-- Halfway between the axes the rotation lengthens, and a compare value wraps. -/
theorem not_modulated_diagonal :
    sqrt3By2 ^ 2 <
        (controlCurrent Real.sqrt fullDuty (fullRequest (mPi / 4)) (1 / 10 ^ 4)
          8400).2.modAlpha ^ 2 +
        (controlCurrent Real.sqrt fullDuty (fullRequest (mPi / 4)) (1 / 10 ^ 4)
          8400).2.modBeta ^ 2 ∧
      8400 < (controlCurrent Real.sqrt fullDuty (fullRequest (mPi / 4)) (1 / 10 ^ 4)
        8400).2.ccr2.toNat := by
  obtain ⟨s, c, hsincos, hs, hc⟩ := sincos_diagonal
  obtain ⟨modAlpha, modBeta, rfl, rfl, houtput⟩ := output_diagonal hsincos (1 / 10 ^ 4) 8400
  obtain ⟨halpha, hbeta⟩ := vector_diagonal hs hc
  rw [houtput]
  exact ⟨sq_diagonal hs.1 hc.1, lt_of_lt_of_le (by norm_num) (svm_wraps_diagonal halpha hbeta)⟩

end Diagonal

end Bldc.Foc
