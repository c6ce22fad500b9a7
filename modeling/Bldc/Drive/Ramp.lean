import Bldc.Drive.State
import Bldc.Drive.Utils

/-!
# The ramp of the duty cycle

While a commutated motor runs, each pass of the ADC interrupt of the BLDC driver works out
the duty cycle that the control mode wants, and then lets the limits on the currents and on
the speed decide, in the order of their priority, whether the motor gets it.
-/

namespace Bldc.Drive

open Foundation Utils

/-- What the ramp reads of `mc_configuration`. -/
structure RampConfiguration (K : Type) where
  lMinDuty : K
  lMaxDuty : K
  loCurrentMax : K
  loCurrentMin : K
  loInCurrentMax : K
  loInCurrentMin : K
  lMaxErpm : K
  lMinErpm : K
  lRpmLimNegTorque : Bool
  lMaxErpmFbrake : K
  lMaxErpmFbrakeCc : K
  ccGain : K
  ccStartupBoostDuty : K
  ccRampStepMax : K
  mDutyRampStep : K
  mDutyRampStepRpmLim : K
  mCurrentBackoffGain : K

/-- The assignments to `switching_frequency_now`: at full frequency, for a DC motor, and by
the duty cycle. -/
inductive SwitchingFrequency (K : Type) where
  | max
  | dcMotor
  | ofDuty (dutyCycle : K)

/-- What a pass finds: `last_current_sample_filtered`, `last_current_sample`,
`input_voltage` and `rpm_now`. -/
structure RampSample (K : Type) where
  current : K
  currentNofilter : K
  inputVoltage : K
  rpmNow : K

/-- The variables of the ramp. -/
structure Ramp (K : Type) where
  state : McState
  hasCommutated : Bool
  controlMode : ControlMode
  direction : Bool
  dutycycleNow : K
  dutycycleSet : K
  currentSet : K
  slowRampingCycles : Nat
  limitDelay : Nat
  switchingFrequencyNow : SwitchingFrequency K

variable {K : Type} [Field K] [LinearOrder K]

def SwitchingFrequency.value : SwitchingFrequency K → K
  | max => 40000
  | dcMotor => 25000
  | ofDuty dutyCycle => 3000 * (1 - |dutyCycle|) + 40000 * |dutyCycle|

namespace Ramp

variable (s : Ramp K) (conf : RampConfiguration K) (sample : RampSample K)

/-- The ramp step at the switching frequency of the moment. -/
def rampStepNoLim : K := conf.mDutyRampStep / (s.switchingFrequencyNow.value / 1000)

/-- `mcpwm_get_rpm`. -/
def rpm : K := if s.direction then sample.rpmNow else -sample.rpmNow

/-- `slow_ramping_cycles`, at each of its two places: a slow cycle is used up. -/
def slow (step : K) : Ramp K × K :=
  if s.slowRampingCycles ≠ 0 then
    ({ s with slowRampingCycles := s.slowRampingCycles - 1 }, step * 0.1)
  else (s, step)

/-- A step of a current control with this error. -/
def currentStep (error : K) : K :=
  truncateNumber (error * conf.ccGain * (20.0 / sample.inputVoltage))
    (-conf.ccRampStepMax) conf.ccRampStepMax / (s.switchingFrequencyNow.value / 1000)

/-- The current and the position mode. -/
def controlCurrent (rampStep : K) : Ramp K × K :=
  let error := s.currentSet -
    (if s.direction then sample.currentNofilter else -sample.currentNofilter)
  let startBoost := conf.ccStartupBoostDuty * (20.0 / sample.inputVoltage)
  let (s, step) := s.slow (s.currentStep conf sample error)
  let tmp :=
    if |s.dutycycleNow| < startBoost then
      stepTowards s.dutycycleNow (if s.currentSet > 0 then startBoost else -startBoost) rampStep
    else s.dutycycleNow + step
  let tmp := truncateNumber tmp (-conf.lMaxDuty) conf.lMaxDuty
  let tmp :=
    if |tmp| < conf.lMinDuty then
      if tmp < 0 ∧ s.currentSet > 0 then conf.lMinDuty
      else if tmp > 0 ∧ s.currentSet < 0 then -conf.lMinDuty
      else tmp
    else tmp
  ({ s with dutycycleSet := if tmp ≥ 0 then conf.lMinDuty else -conf.lMinDuty }, tmp)

/-- The current brake. -/
def controlBrake : Ramp K × K :=
  let error := -|s.currentSet| - sample.currentNofilter
  let (s, step) := s.slow (s.currentStep conf sample error)
  let tmp := s.dutycycleNow + Utils.sign s.dutycycleNow * step
  let tmp := truncateNumber tmp (-conf.lMaxDuty) conf.lMaxDuty
  if |tmp| < conf.lMinDuty then
    let tmp := if |sample.rpmNow| < conf.lMaxErpmFbrakeCc then 0 else Utils.sign tmp * conf.lMinDuty
    ({ s with dutycycleSet := tmp }, tmp)
  else (s, tmp)

/-- What the control mode wants: `dutycycle_now_tmp`. -/
def control : Ramp K × K :=
  let (s, rampStep) := s.slow (s.rampStepNoLim conf)
  match s.controlMode with
  | .current | .pos => s.controlCurrent conf sample rampStep
  | .currentBrake => s.controlBrake conf sample
  | .duty | .speed | .none => (s, stepTowards s.dutycycleNow s.dutycycleSet rampStep)

/-- A limit that has been reached moves the duty cycle, and holds the control back. -/
def backOff (goal step : K) : Ramp K :=
  { s with dutycycleNow := stepTowards s.dutycycleNow goal step, limitDelay := 1 }

/-- A limit on the speed. -/
def backOffRpm : Ramp K :=
  { s.backOff 0 conf.mDutyRampStepRpmLim with slowRampingCycles := 500 }

/-- The limits, in the order of their priority. -/
def limit (currentIn rampStepNoLim tmp : K) : Ramp K :=
  let away := if s.direction then conf.lMaxDuty else -conf.lMaxDuty
  if sample.currentNofilter > conf.loCurrentMax then
    s.backOff 0 (rampStepNoLim * |sample.currentNofilter - conf.loCurrentMax| *
      conf.mCurrentBackoffGain)
  else if sample.currentNofilter < conf.loCurrentMin then
    s.backOff away (rampStepNoLim * |sample.currentNofilter - conf.loCurrentMin| *
      conf.mCurrentBackoffGain)
  else if currentIn > conf.loInCurrentMax then
    s.backOff 0 (rampStepNoLim * |currentIn - conf.loInCurrentMax| * conf.mCurrentBackoffGain)
  else if currentIn < conf.loInCurrentMin then
    s.backOff away (rampStepNoLim * |currentIn - conf.loInCurrentMin| *
      conf.mCurrentBackoffGain)
  else if s.rpm sample > conf.lMaxErpm then
    if (conf.lRpmLimNegTorque ∨ sample.current > -1) ∧ s.dutycycleNow ≤ tmp then
      s.backOffRpm conf
    else s
  else if s.rpm sample < conf.lMinErpm then
    if (conf.lRpmLimNegTorque ∨ sample.current > -1) ∧ s.dutycycleNow ≥ tmp then
      s.backOffRpm conf
    else s
  else s

/-- The control gets its way when no limit holds it back. -/
def release (tmp : K) : Ramp K :=
  if s.limitDelay > 0 then { s with limitDelay := s.limitDelay - 1 }
  else { s with dutycycleNow := tmp }

/-- A motor that has come to a stop starts again in the direction that is set. -/
def restart : Ramp K :=
  { s with
    dutycycleNow :=
      if |s.dutycycleNow| < conf.lMinDuty then
        if s.dutycycleSet ≥ conf.lMinDuty then conf.lMinDuty
        else if s.dutycycleSet ≤ -conf.lMinDuty then -conf.lMinDuty
        else s.dutycycleNow
      else s.dutycycleNow }

/-- No start against a motor that turns too fast. -/
def guardDirection : Ramp K :=
  { s with
    dutycycleNow :=
      if s.dutycycleNow ≥ conf.lMinDuty ∧ s.rpm sample < -conf.lMaxErpmFbrake then -conf.lMinDuty
      else if s.dutycycleNow ≤ -conf.lMinDuty ∧ s.rpm sample > conf.lMaxErpmFbrake then
        conf.lMinDuty
      else s.dutycycleNow }

/-- The pass of `mcpwm_adc_int_handler` up to the call of `set_duty_cycle_ll`. -/
def adcInt : Ramp K :=
  let currentIn := sample.currentNofilter * |s.dutycycleNow|
  if s.state = .running ∧ s.hasCommutated then
    let rampStepNoLim := s.rampStepNoLim conf
    let (s, tmp) := s.control conf sample
    let s := s.limit conf sample currentIn rampStepNoLim tmp
    let s := s.release tmp
    let s := s.restart conf
    s.guardDirection conf sample
  else s

end Ramp

/-- A configuration whose limits allow no current, with steps that are not negative. -/
structure RampConfiguration.Admits (conf : RampConfiguration K) : Prop where
  mDutyRampStep : 0 ≤ conf.mDutyRampStep
  mCurrentBackoffGain : 0 ≤ conf.mCurrentBackoffGain
  loCurrentMin : conf.loCurrentMin ≤ 0
  loCurrentMax : 0 ≤ conf.loCurrentMax
  loInCurrentMax : 0 ≤ conf.loInCurrentMax
  lMinDuty : 0 < conf.lMinDuty
  lMaxDuty : conf.lMinDuty ≤ conf.lMaxDuty

/-- More current than the motor or the battery may have. -/
def RampSample.OverCurrent (sample : RampSample K) (conf : RampConfiguration K)
    (dutycycleNow : K) : Prop :=
  sample.currentNofilter > conf.loCurrentMax ∨
    sample.currentNofilter * |dutycycleNow| > conf.loInCurrentMax

section Ordered

variable [IsStrictOrderedRing K]

theorem SwitchingFrequency.value_pos (frequency : SwitchingFrequency K) : 0 < frequency.value := by
  cases frequency with
  | max => norm_num [value]
  | dcMotor => norm_num [value]
  | ofDuty dutyCycle =>
      have habs := abs_nonneg dutyCycle
      unfold value
      linarith

namespace Ramp

variable {s : Ramp K} {conf : RampConfiguration K} {sample : RampSample K}

theorem rampStepNoLim_nonneg (hconf : conf.Admits) : 0 ≤ s.rampStepNoLim conf :=
  div_nonneg hconf.mDutyRampStep
    (div_nonneg s.switchingFrequencyNow.value_pos.le (by norm_num))

omit [LinearOrder K] [IsStrictOrderedRing K] in
theorem dutycycleNow_slow (s : Ramp K) (step : K) :
    (s.slow step).1.dutycycleNow = s.dutycycleNow := by
  unfold slow
  split <;> rfl

omit [IsStrictOrderedRing K] in
/-- The control leaves the duty cycle to the limits. -/
theorem dutycycleNow_control (s : Ramp K) (conf : RampConfiguration K) (sample : RampSample K) :
    (s.control conf sample).1.dutycycleNow = s.dutycycleNow := by
  refine Eq.trans ?_ (dutycycleNow_slow s (s.rampStepNoLim conf))
  unfold control
  generalize s.slow (s.rampStepNoLim conf) = slowed
  dsimp only
  split
  next => exact dutycycleNow_slow slowed.1 _
  next => exact dutycycleNow_slow slowed.1 _
  next =>
    refine Eq.trans ?_ (dutycycleNow_slow slowed.1
      (slowed.1.currentStep conf sample (-|slowed.1.currentSet| - sample.currentNofilter)))
    unfold controlBrake
    dsimp only
    split <;> rfl
  all_goals rfl

theorem limit_overCurrent (hconf : conf.Admits) {currentIn rampStepNoLim : K}
    (hstep : 0 ≤ rampStepNoLim) (hin : sample.currentNofilter ≤ 0 → currentIn ≤ 0)
    (hover : sample.currentNofilter > conf.loCurrentMax ∨ currentIn > conf.loInCurrentMax)
    (tmp : K) :
    ∃ step, 0 ≤ step ∧ s.limit conf sample currentIn rampStepNoLim tmp = s.backOff 0 step := by
  have hgain (excess : K) : 0 ≤ rampStepNoLim * |excess| * conf.mCurrentBackoffGain :=
    mul_nonneg (mul_nonneg hstep (abs_nonneg excess)) hconf.mCurrentBackoffGain
  by_cases hmotor : sample.currentNofilter > conf.loCurrentMax
  · exact ⟨_, hgain _, if_pos hmotor⟩
  · have hbattery := hover.resolve_left hmotor
    have hnotBraking : ¬ sample.currentNofilter < conf.loCurrentMin := by
      intro hbraking
      have hzero := hin (hbraking.le.trans hconf.loCurrentMin)
      exact absurd hbattery (not_lt.2 (hzero.trans hconf.loInCurrentMax))
    refine ⟨_, hgain (currentIn - conf.loInCurrentMax), ?_⟩
    rw [limit, if_neg hmotor, if_neg hnotBraking, if_pos hbattery]

/-- A back-off towards zero, which the control does not override in the same pass. -/
theorem abs_release_backOff {step : K} (hstep : 0 ≤ step) (tmp : K) :
    |((s.backOff 0 step).release tmp).dutycycleNow| ≤ |s.dutycycleNow| := by
  change |stepTowards s.dutycycleNow 0 step| ≤ |s.dutycycleNow|
  rw [stepTowards_eq]
  exact (towards_zero_shrinks hstep s.dutycycleNow).abs_le

/-- The smallest duty cycle is all that a later rule can put in. -/
theorem abs_le_of_minDuty (hmin : 0 < conf.lMinDuty) {before after : K}
    (h : after = before ∨ after = conf.lMinDuty ∨ after = -conf.lMinDuty) :
    |after| ≤ max |before| conf.lMinDuty := by
  obtain rfl | rfl | rfl := h
  · exact le_max_left _ _
  · rw [abs_of_pos hmin]
    exact le_max_right _ _
  · rw [abs_neg, abs_of_pos hmin]
    exact le_max_right _ _

theorem abs_restart_le (hmin : 0 < conf.lMinDuty) :
    |(s.restart conf).dutycycleNow| ≤ max |s.dutycycleNow| conf.lMinDuty := by
  refine abs_le_of_minDuty hmin ?_
  unfold restart
  grind

theorem abs_guardDirection_le (hmin : 0 < conf.lMinDuty) :
    |(s.guardDirection conf sample).dutycycleNow| ≤ max |s.dutycycleNow| conf.lMinDuty := by
  refine abs_le_of_minDuty hmin ?_
  unfold guardDirection
  grind

/-- Over-current takes the duty cycle back, whatever the control wanted. -/
theorem abs_adcInt_le_of_overCurrent (hconf : conf.Admits)
    (hover : sample.OverCurrent conf s.dutycycleNow) :
    |(s.adcInt conf sample).dutycycleNow| ≤ max |s.dutycycleNow| conf.lMinDuty := by
  unfold adcInt
  dsimp only
  split
  next =>
    have hin : sample.currentNofilter ≤ 0 → sample.currentNofilter * |s.dutycycleNow| ≤ 0 :=
      fun h => mul_nonpos_of_nonpos_of_nonneg h (abs_nonneg _)
    obtain ⟨step, hstep, hlimit⟩ := limit_overCurrent (s := (s.control conf sample).1) hconf
      (rampStepNoLim_nonneg (s := s) hconf) hin hover (s.control conf sample).2
    have hbackOff := abs_release_backOff (s := (s.control conf sample).1) hstep
      (s.control conf sample).2
    rw [dutycycleNow_control] at hbackOff
    rw [hlimit]
    refine (abs_guardDirection_le hconf.lMinDuty).trans (max_le ?_ (le_max_right _ _))
    exact (abs_restart_le hconf.lMinDuty).trans (max_le_max_right _ hbackOff)
  next => exact le_max_left _ _

end Ramp

end Ordered

/-- A configuration with a limit of 60 A. -/
def sixtyAmpere : RampConfiguration ℚ where
  lMinDuty := 5 / 1000
  lMaxDuty := 95 / 100
  loCurrentMax := 60
  loCurrentMin := -60
  loInCurrentMax := 60
  loInCurrentMin := -20
  lMaxErpm := 100000
  lMinErpm := -100000
  lRpmLimNegTorque := true
  lMaxErpmFbrake := 300
  lMaxErpmFbrakeCc := 1500
  ccGain := 46 / 10000
  ccStartupBoostDuty := 1 / 100
  ccRampStepMax := 4 / 100
  mDutyRampStep := 2 / 100
  mDutyRampStepRpmLim := 5 / 10000
  mCurrentBackoffGain := 5 / 10

theorem abs_adcInt_le_eighty :
    |((⟨.running, true, .current, true, 1 / 2, 1 / 2, 80, 0, 0, .max⟩ : Ramp ℚ).adcInt
      sixtyAmpere ⟨80, 80, 48, 10000⟩).dutycycleNow| ≤ max |1 / 2| (5 / 1000) := by
  have hadmits : sixtyAmpere.Admits := by
    constructor <;> norm_num [sixtyAmpere]
  exact Ramp.abs_adcInt_le_of_overCurrent hadmits (.inl (by norm_num [sixtyAmpere]))

end Bldc.Drive
