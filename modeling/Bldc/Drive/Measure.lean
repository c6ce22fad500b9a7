import Bldc.Drive.Step
import Bldc.Foundation.Thread
import Mathlib.Data.Rat.Floor
import Mathlib.Tactic.FieldSimp
import Mathlib.Tactic.Linarith
import Mathlib.Tactic.Ring

/-!
# The measurements

`conf_general_detect_motor_param`, `conf_general_measure_flux_linkage` and the
measurements of `mcpwm_foc` as threads over the motor. What they read from the
signal processing and the sensors is arbitrary, and so is what the interrupts and
the periodic threads do while they sleep.
-/

namespace Bldc.Drive

open Flash Conf Foundation Thread

/-- `M_PI`. -/
def mPi : Rat := 314159265358979323846 / 10 ^ 20

/-- `utils_norm_angle`. -/
def utilsNormAngle (angle : Rat) : Rat := angle - 360 * ⌊angle / 360⌋

/-- What the measurements read: the temperature of the FETs, the input voltage, the
getters of `mc_interface` and `mcpwm`, the encoder, the hall sensors, the sums that
the interrupt handler keeps in `m_samples`, and the period of the timer. -/
structure Readings where
  tempFet : Rat
  inputVoltage : Rat
  adcVin : Nat
  dutyCycleNow : Rat
  rpm : Rat
  totCurrent : Rat
  tachometerValue : Int
  avgCycleIntegrator : Rat
  hallDetectTable : List Int
  hallDetectResult : Int
  encoderIndexFound : Bool
  phaseNowEncoder : Rat
  hall : Fin 8
  avgCurrentTot : Rat
  avgVoltageTot : Rat
  sampleNum : Int
  timerPeriod : Nat
  deriving Inhabited

abbrev Procedure (α : Type) : Type := Thread Motor Step Readings α

/-- The rest of `mc_interface_set_configuration` once the threads of the old driver have
ended. -/
def startDriver (c : McConfiguration) (temp vIn : Rat) : Procedure Unit := do
  give (.switchDriver c)
  pause
  give (.applyConfiguration temp vIn)

/-- `mc_interface_set_configuration`. It sleeps while the threads of the old driver
end and while the new one calibrates. -/
def mcInterfaceSetConfiguration (c : McConfiguration) : Procedure Unit := do
  let r ← reading
  let s ← state
  give (.setConfiguration c r.tempFet r.inputVoltage)
  if s.switchesDriver c then
    pause
    startDriver c r.tempFet r.inputVoltage

/-- A command that is let through the lock. -/
def overriding (command : Step) : Procedure Unit := do
  give .lockOverrideOnce
  give command

/-- At most so many rounds of a millisecond until the readings are as wanted; whether
they were. -/
@[irreducible] def waitFor (rounds : Nat) (wanted : Readings → Prop) [DecidablePred wanted] :
    Procedure Bool := do
  let result ← each (fun (_ : Nat) (_ : Unit) => do
      let r ← reading
      if wanted r then pure ((), true)
      else
        pause
        pure ((), false)) (List.range rounds) ()
  pure result.2

/-! ## `conf_general` -/

/-- The configuration with which both routines spin the motor up. -/
def spinUpConf (c : McConfiguration) (minErpm : Rat) : McConfiguration :=
  { c with
    motorType := 0
    sensorMode := sensorModeSensorless
    commMode := commModeDelay
    slPhaseAdvanceAtBr := 1
    slMinErpm := minErpm }

/-- What `conf_general_detect_motor_param` stores and returns. -/
structure MotorParam where
  intLimit : Rat
  bemfCouplingK : Rat
  hallTable : List Int
  hallRes : Int
  ok : Bool

/-- The sum of the speed over 100 commutations, the number of summands, and whether
the motor got so far. -/
@[irreducible] def sumRpm (tacho : Int) : Procedure ((Rat × Rat) × Bool) :=
  each (fun (_ : Nat) (sums : Rat × Rat) => do
    let r ← reading
    if r.tachometerValue - tacho < 100 then
      pause
      pure ((sums.1 + r.rpm, sums.2 + 1), false)
    else pure (sums, true)) (List.range 3000) (0, 0)

/-- `conf_general_detect_motor_param` between taking and releasing the motor. -/
def detectRun (current lowDuty : Rat) : Procedure MotorParam := do
  let spinupToDuty := 6 / 10
  overriding (.setCurrent current)
  let spun ← waitFor 5000 fun r => ¬r.dutyCycleNow < spinupToDuty
  overriding (.setDuty spinupToDuty)
  pause
  overriding (.setCurrent 0)
  let tacho ← reading
  let released ← waitFor 2000 fun r => ¬r.tachometerValue - tacho.tachometerValue < 3
  let tacho ← reading
  let averaged ← waitFor 3000 fun r => ¬r.tachometerValue - tacho.tachometerValue < 50
  let hall ← reading
  let intLimit ← reading
  let slowed ← waitFor 5000 fun r => ¬r.dutyCycleNow > lowDuty
  overriding (.setDuty lowDuty)
  let tacho ← reading
  let ((rpmSum, rpmIterations), running) ← sumRpm tacho.tachometerValue
  let avg ← reading
  overriding (.setCurrent 0)
  let vin ← reading
  pure {
    intLimit := intLimit.avgCycleIntegrator
    bemfCouplingK := (avg.avgCycleIntegrator - intLimit.avgCycleIntegrator) / vin.adcVin *
      (rpmSum / rpmIterations)
    hallTable := hall.hallDetectTable
    hallRes := hall.hallDetectResult
    ok := spun && released && averaged && slowed && running }

/-- `conf_general_detect_motor_param`. -/
def confGeneralDetectMotorParam (current minRpm lowDuty : Rat) : Procedure MotorParam := do
  let s ← state
  mcInterfaceSetConfiguration (spinUpConf s.conf minRpm)
  -- the motor is let go again whatever the steps in between found
  give .lock
  let param ← detectRun current lowDuty
  mcInterfaceSetConfiguration s.conf
  give .unlock
  pure param

/-- The values of a `for` loop that covers a distance in steps. -/
def steps (first distance step : Rat) : List Rat :=
  (List.range ⌈distance / |step|⌉.toNat).map fun n => first + n * step

/-- `mcpwm_foc_measure_resistance`. -/
def mcpwmFocMeasureResistance (current : Rat) (samples : Int) : Procedure Rat := do
  give .lock
  give (.overridePhase 0 current)
  give (.setPhaseNowOverride 0)
  let s ← state
  give (.timeoutConfigure 60000 0)
  pause
  let _ ← waitFor 10001 fun r => ¬r.sampleNum < samples
  let r ← reading
  give .endOverride
  give (.timeoutConfigure s.timeoutMsec s.timeoutBrakeCurrent)
  give .unlock
  pure (r.avgVoltageTot / r.sampleNum / (r.avgCurrentTot / r.sampleNum) * (2 / 3))

/-- One millisecond of the wait for the interrupt handler, unless it has finished. -/
def awaitRound (_ : Nat) (toCnt : Nat) : Procedure (Nat × Bool) := do
  let s ← state
  if s.foc.measureInductanceNow then
    pause
    pure (toCnt + 1, false)
  else pure (toCnt, true)

/-- Arm one pulse and wait for it. The milliseconds are counted on from the pulses
before. -/
def pulseRound (_ : Nat) (toCnt : Nat) : Procedure (Nat × Bool) := do
  give .armInductance
  let (toCnt, _) ← each awaitRound (List.range (5001 - toCnt)) toCnt
  pure (toCnt, decide (toCnt > 5000))

/-- The loop of `mcpwm_foc_measure_inductance`. -/
def inductancePulses (samples : Int) : Procedure (Nat × Bool) :=
  each pulseRound (List.range samples.toNat) 0

/-- `mcpwm_foc_measure_inductance`: the inductance and the current. -/
def mcpwmFocMeasureInductance (duty : Rat) (samples : Int) : Procedure (Rat × Rat) := do
  give (.prepareInductance duty)
  let s ← state
  give (.timeoutConfigure 60000 0)
  give .lock
  let _ ← inductancePulses samples
  give (.timeoutConfigure s.timeoutMsec s.timeoutBrakeCurrent)
  give .unlock
  let r ← reading
  let current := r.avgCurrentTot / r.sampleNum
  let t := r.timerPeriod * duty / 168000000 - (10 + 50) / 168000000
  pure (r.avgVoltageTot / r.sampleNum * t / current * 10 ^ 6 * (2 / 3), current)

/-- The values of a `for` loop that multiplies by 1.5. -/
def geometric (first bound : Rat) : List Rat :=
  if h : 0 < first ∧ first < bound then first :: geometric (first * (3 / 2)) bound else []
termination_by ⌈3 * bound / first⌉.toNat
decreasing_by
  obtain ⟨hpos, hlt⟩ := h
  have hone : 1 < bound / first := (one_lt_div hpos).2 hlt
  have hless : 3 * bound / (first * (3 / 2)) = 3 * (bound / first) - bound / first := by
    field_simp
    ring
  have hceil : ⌈3 * bound / (first * (3 / 2))⌉ ≤ ⌈3 * bound / first⌉ - 1 := by
    rw [hless, mul_div_assoc, ← Int.ceil_sub_one]
    exact Int.ceil_mono (by linarith)
  have hpos' : 0 < ⌈3 * bound / first⌉ := by
    rw [mul_div_assoc]
    exact Int.ceil_pos.2 (by linarith)
  omega

/-- The last current of `mcpwm_foc_measure_res_ind`. -/
def resistanceSteps (lCurrentMax : Rat) : Procedure Rat := do
  let (iLast, _) ← each (fun i iLast => do
      let res ← mcpwmFocMeasureResistance i 20
      if i > 1 / 2 / res then pure (i, true) else pure (iLast, false))
    (geometric 2 (lCurrentMax / 2)) 0
  pure (if iLast < 1 / 100 then lCurrentMax / 2 else iLast)

/-- The last duty cycle of `mcpwm_foc_measure_res_ind`. -/
def inductanceSteps (iLast : Rat) : Procedure Rat := do
  let (dutyLast, _) ← each (fun i dutyLast => do
      let (_, current) ← mcpwmFocMeasureInductance i 20
      if current ≥ iLast then pure (i, true) else pure (dutyLast, false))
    (geometric (1 / 50) (1 / 2)) 0
  pure dutyLast

/-- `mcpwm_foc_measure_res_ind`. -/
def mcpwmFocMeasureResInd : Procedure (Rat × Rat) := do
  let s ← state
  give (.setCurrentLoop 10000 (1 / 100) 10)
  let iLast ← resistanceSteps s.conf.lCurrentMax
  let res ← mcpwmFocMeasureResistance iLast 500
  give (.setCurrentLoop 3000 (1 / 100) 10)
  let dutyLast ← inductanceSteps iLast
  let (ind, _) ← mcpwmFocMeasureInductance dutyLast 500
  give (.setCurrentLoop s.conf.focFSw s.conf.focCurrentKp s.conf.focCurrentKi)
  pure (res, ind)

end Bldc.Drive
