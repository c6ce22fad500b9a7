import Bldc.Drive.State
import Bldc.Foc.Current
import Bldc.Foc.Tachometer

/-!
# The control interrupt of the FOC driver

While the motor runs, a pass takes a set-point for the current from the control mode,
finds the phase, limits the set-point three times and calls the current controller. What
the observer, the encoder and the hall sensors arrive at comes from outside.
-/

namespace Bldc.Foc

open Drive Flash Foundation Utils

/-- What a pass of the interrupt finds. -/
structure Reading (K : Type) where
  /-- The phase currents. -/
  ia : K
  ib : K
  /-- `GET_INPUT_VOLTAGE`. -/
  inputVoltage : K
  /-- The phase voltages of an undriven motor. -/
  va : K
  vb : K
  vc : K
  /-- Where `observer_update`, `correct_encoder` and `correct_hall` arrive. -/
  observer : K
  correctEncoder : K
  correctHall : K
  encoderIndexFound : Bool
  /-- `TIM1->ARR`. -/
  arr : BitVec 16

/-- The part of the state of `mcpwm_foc` that a pass uses. -/
structure FocState (K : Type) where
  state : McState
  controlMode : ControlMode
  motorState : MotorState K
  measureInductanceNow : Bool
  phaseOverride : Bool
  phaseNowOverride : K
  phaseObserverOverride : Bool
  phaseNowObserverOverride : K
  phaseNowObserver : K
  phaseNowEncoderNoIndex : K
  dutyCycleSet : K
  idSet : K
  iqSet : K
  speedPidSetRpm : K
  phaseBefore : K
  dutyFiltered : K
  dutyITerm : K
  tachometer : Tachometer K

namespace FocState

variable {K : Type} [Field K] [LinearOrder K]

/-- The duty cycle that is controlled, if one is: in the duty mode the one that is set, and
none when a brake or a speed control has run out of speed. -/
def controlledDuty (s : FocState K) (conf : Configuration K) : Option K :=
  if s.controlMode = .currentBrake ∧ |s.dutyFiltered| < 0.03 then some 0
  else if s.controlMode = .speed ∧ |s.speedPidSetRpm| < conf.sPidMinErpm then some 0
  else if s.controlMode = .duty then some s.dutyCycleSet
  else none

/-- The duty-cycle control: the current, with the integrator and the largest duty. -/
def controlDuty (s : FocState K) (conf : Configuration K) (dt inputVoltage dutySet : K) :
    FocState K × K :=
  if |dutySet| < |s.motorState.dutyNow| - 0.05 ∨
      sign s.motorState.vq * s.motorState.iq < conf.loCurrentMin then
    -- cutting the duty cycle down would be dangerous here
    let scale := 1 / inputVoltage
    let error := dutySet - s.motorState.dutyNow
    let pTerm := error * conf.focDutyDowmrampKp * scale
    let dutyITerm := truncateNumber
      (s.dutyITerm + error * (conf.focDutyDowmrampKi * dt) * scale) (-1) 1
    let output := truncateNumber (pTerm + dutyITerm) (-1) 1
    ({ s with dutyITerm := dutyITerm }, output * conf.loCurrentMax)
  else
    ({ s with
        dutyITerm := 0
        motorState := { s.motorState with maxDuty := dutySet } },
      if dutySet > 0 then conf.loCurrentMax else -conf.loCurrentMax)

/-- The current along the q axis that the control mode asks for. -/
def setPoint (s : FocState K) (conf : Configuration K) (dt inputVoltage phaseDiff : K) :
    FocState K × K :=
  match s.controlledDuty conf with
  | some dutySet => s.controlDuty conf dt inputVoltage dutySet
  | none =>
      if s.controlMode = .currentBrake then
        (s, if phaseDiff > 0 then -|s.iqSet| else if phaseDiff = 0 then 0 else |s.iqSet|)
      else (s, s.iqSet)

/-- The phase from the sensors, and the current along the d axis. -/
def sense (s : FocState K) (conf : Configuration K) (r : Reading K) : FocState K × K :=
  let s := if s.phaseOverride then s else { s with phaseNowObserver := r.observer }
  let dutyAbs := |s.motorState.dutyNow|
  let (s, idSetTmp) := match conf.focSensorMode with
    | .encoder =>
        ({ s with motorState := { s.motorState with
            phase := if r.encoderIndexFound then r.correctEncoder
              else s.phaseNowEncoderNoIndex } },
          if s.phaseOverride then s.idSet else 0)
    | .hall =>
        ({ s with
            phaseNowObserver := r.correctHall
            motorState := { s.motorState with phase := r.correctHall } },
          if s.phaseOverride then s.idSet else 0)
    | .sensorless =>
        ({ s with motorState := { s.motorState with
            phase := if s.phaseObserverOverride then s.phaseNowObserverOverride
              else s.phaseNowObserver } },
          if s.phaseOverride then s.idSet
          else if dutyAbs < conf.focSlDCurrentDuty then
            map dutyAbs 0 conf.focSlDCurrentDuty
              (|s.motorState.iqTarget| * conf.focSlDCurrentFactor) 0
          else 0)
  ({ s with motorState := { s.motorState with
      phase := if s.phaseOverride then s.phaseNowOverride else s.motorState.phase } }, idSetTmp)

end FocState

variable {K : Type} [Field K] [LinearOrder K]

/-- The current limits: by the motor current, by the length of the vector and by the current
from the battery. -/
def limitCurrents (sqrtf : K → K) (conf : Configuration K) (modQ idSetTmp iqSetTmp : K) : K × K :=
  let iqSetTmp := truncateNumber iqSetTmp conf.loCurrentMin conf.loCurrentMax
  let (idSetTmp, iqSetTmp) := saturateVector2d sqrtf idSetTmp iqSetTmp conf.loCurrentMax
  (idSetTmp,
    if modQ > 0.001 then
      truncateNumber iqSetTmp (conf.loInCurrentMin / modQ) (conf.loInCurrentMax / modQ)
    else if modQ < -0.001 then
      truncateNumber iqSetTmp (conf.loInCurrentMax / modQ) (conf.loInCurrentMin / modQ)
    else iqSetTmp)

namespace FocState

variable [FloorRing K]

/-- The running branch up to the call of `control_current`, with the motor state that it is
called with. -/
def target (sqrtf : K → K) (s : FocState K) (conf : Configuration K) (r : Reading K)
    (dt phaseDiff : K) : FocState K :=
  let s := { s with
    motorState := { s.motorState with
      iAlpha := r.ia
      iBeta := oneBySqrt3 * r.ia + twoBySqrt3 * r.ib
      maxDuty := conf.lMaxDuty }
    dutyFiltered := truncateNumber (lpFast s.dutyFiltered s.motorState.dutyNow 0.1) (-1) 1 }
  let (s, iqSetTmp) := s.setPoint conf dt r.inputVoltage phaseDiff
  let (s, idSetTmp) := s.sense conf r
  let (idSetTmp, iqSetTmp) := limitCurrents sqrtf conf s.motorState.modQ idSetTmp iqSetTmp
  { s with motorState := { s.motorState with idTarget := idSetTmp, iqTarget := iqSetTmp } }

/-- The branch for a motor that is not driven. -/
def track (s : FocState K) (conf : Configuration K) (r : Reading K) : FocState K :=
  let vAlpha := 2.0 / 3.0 * r.va - 1.0 / 3.0 * r.vb - 1.0 / 3.0 * r.vc
  let vBeta := oneBySqrt3 * r.vb - oneBySqrt3 * r.vc
  let (sin, cos) := fastSincosBetter s.motorState.phase
  let vd := cos * vAlpha + sin * vBeta
  let vq := cos * vBeta - sin * vAlpha
  let observer := if conf.focSensorMode = .hall then r.correctHall else r.observer
  { s with
    phaseNowObserver := observer
    motorState := { s.motorState with
      vAlpha := vAlpha
      vBeta := vBeta
      vd := vd
      vq := vq
      modD := vd / (2.0 / 3.0 * s.motorState.vBus)
      modQ := vq / (2.0 / 3.0 * s.motorState.vBus)
      iAlpha := 0
      iBeta := 0
      id := 0
      iq := 0
      idFilter := 0
      iqFilter := 0
      iBus := 0
      iAbs := 0
      iAbsFilter := 0
      phase := if conf.focSensorMode = .encoder then r.correctEncoder else observer } }

/-- The end of a pass: the duty cycle and the tachometer. -/
def finish (sqrtf : K → K) (s : FocState K) : FocState K :=
  { s with
    motorState := { s.motorState with
      dutyNow := sign s.motorState.vq *
        sqrtf (s.motorState.modD * s.motorState.modD + s.motorState.modQ * s.motorState.modQ) /
          sqrt3By2 }
    tachometer := s.tachometer.update s.motorState.phase }

/-- `mcpwm_foc_adc_inj_int_handler`, with the calls of `control_current` and what they put
out. A pass that measures an inductance ends before. -/
def mcpwmFocAdcInjIntHandler (sqrtf : K → K) (conf : Configuration K) (s : FocState K)
    (r : Reading K) : FocState K × List (MotorState K × Output K) :=
  let dt := 1.0 / (conf.focFSw / 2.0)
  if s.measureInductanceNow then (s, [])
  else
    let s := { s with motorState := { s.motorState with vBus := r.inputVoltage } }
    let phaseDiff := angleDifferenceRad s.motorState.phase s.phaseBefore
    let s := { s with phaseBefore := s.motorState.phase }
    if s.state = .running then
      let s := s.target sqrtf conf r dt phaseDiff
      let (motorState, output) := controlCurrent sqrtf conf s.motorState dt r.arr
      (finish sqrtf { s with motorState := motorState }, [(s.motorState, output)])
    else (finish sqrtf (s.track conf r), [])

end FocState

/-- Limits that allow no current, on both sides of it. -/
structure Configuration.AllowsZero (conf : Configuration K) : Prop where
  loCurrentMin : conf.loCurrentMin ≤ 0
  loCurrentMax : 0 ≤ conf.loCurrentMax
  loInCurrentMin : conf.loInCurrentMin ≤ 0
  loInCurrentMax : 0 ≤ conf.loInCurrentMax

/-- Targets of the current controller within all limits. -/
structure WithinLimits (conf : Configuration K) (stateM : MotorState K) : Prop where
  current : conf.loCurrentMin ≤ stateM.iqTarget ∧ stateM.iqTarget ≤ conf.loCurrentMax
  vector : stateM.idTarget ^ 2 + stateM.iqTarget ^ 2 ≤ conf.loCurrentMax ^ 2
  battery : |stateM.modQ| > 0.001 →
    conf.loInCurrentMin ≤ stateM.modQ * stateM.iqTarget ∧
      stateM.modQ * stateM.iqTarget ≤ conf.loInCurrentMax

section Ordered

variable [IsStrictOrderedRing K] {conf : Configuration K} {sqrtf : K → K}

/-- The battery's limit on the current: between zero and what it was, and kept. -/
theorem battery_limit (hin : conf.AllowsZero) (modQ iq : K) :
    let limited :=
      if modQ > 0.001 then
        truncateNumber iq (conf.loInCurrentMin / modQ) (conf.loInCurrentMax / modQ)
      else if modQ < -0.001 then
        truncateNumber iq (conf.loInCurrentMax / modQ) (conf.loInCurrentMin / modQ)
      else iq
    Shrinks limited iq ∧ (|modQ| > 0.001 →
      conf.loInCurrentMin ≤ modQ * limited ∧ modQ * limited ≤ conf.loInCurrentMax) := by
  have hsmall : (0 : K) < 0.001 := by norm_num
  dsimp only
  split
  next hpos =>
    have hmod : 0 < modQ := hsmall.trans hpos
    have hlow := div_nonpos_of_nonpos_of_nonneg hin.loInCurrentMin hmod.le
    have hhigh := div_nonneg hin.loInCurrentMax hmod.le
    rw [truncateNumber_eq]
    obtain ⟨hle, hge⟩ := clamp_mem (hlow.trans hhigh) iq
    rw [div_le_iff₀' hmod] at hle
    rw [le_div_iff₀' hmod] at hge
    exact ⟨clamp_shrinks hlow hhigh iq, fun _ => ⟨hle, hge⟩⟩
  next hpos =>
    split
    next hneg =>
      have hmod : modQ < 0 := hneg.trans (neg_lt_zero.2 hsmall)
      have hlow := div_nonpos_of_nonneg_of_nonpos hin.loInCurrentMax hmod.le
      have hhigh := div_nonneg_of_nonpos hin.loInCurrentMin hmod.le
      rw [truncateNumber_eq]
      obtain ⟨hle, hge⟩ := clamp_mem (hlow.trans hhigh) iq
      rw [div_le_iff_of_neg' hmod] at hle
      rw [le_div_iff_of_neg' hmod] at hge
      exact ⟨clamp_shrinks hlow hhigh iq, fun _ => ⟨hge, hle⟩⟩
    next hneg =>
      have habs : |modQ| ≤ 0.001 := abs_le.2 ⟨not_lt.1 hneg, not_lt.1 hpos⟩
      exact ⟨.refl iq, fun h => absurd h (not_lt.2 habs)⟩

/-- None of the limits undoes an earlier one. -/
theorem limitCurrents_spec (hsqrt : ∀ x, 0 ≤ x → 0 ≤ sqrtf x ∧ sqrtf x ^ 2 = x)
    (hallows : conf.AllowsZero) (modQ id iq : K) :
    (conf.loCurrentMin ≤ (limitCurrents sqrtf conf modQ id iq).2 ∧
        (limitCurrents sqrtf conf modQ id iq).2 ≤ conf.loCurrentMax) ∧
      (limitCurrents sqrtf conf modQ id iq).1 ^ 2 +
        (limitCurrents sqrtf conf modQ id iq).2 ^ 2 ≤ conf.loCurrentMax ^ 2 ∧
      (|modQ| > 0.001 →
        conf.loInCurrentMin ≤ modQ * (limitCurrents sqrtf conf modQ id iq).2 ∧
          modQ * (limitCurrents sqrtf conf modQ id iq).2 ≤ conf.loInCurrentMax) := by
  have hmem := clamp_mem (hallows.loCurrentMin.trans hallows.loCurrentMax) iq
  rw [← truncateNumber_eq] at hmem
  have hlength := saturateVector2d_sq_le hsqrt (x := id)
    (y := truncateNumber iq conf.loCurrentMin conf.loCurrentMax) hallows.loCurrentMax
  obtain ⟨factor, hnonneg, hle, hsaturate⟩ := saturateVector2d_eq id
    (truncateNumber iq conf.loCurrentMin conf.loCurrentMax) conf.loCurrentMax
  obtain ⟨hshrinks, hbattery⟩ := battery_limit hallows modQ
    (saturateVector2d sqrtf id (truncateNumber iq conf.loCurrentMin conf.loCurrentMax)
      conf.loCurrentMax).2
  refine ⟨?_, ?_, hbattery⟩
  · rw [hsaturate] at hshrinks
    have hboth := hshrinks.trans (mul_shrinks hnonneg hle _)
    have hwithin := hboth.mem_of_mem hallows.loCurrentMin hallows.loCurrentMax hmem
    rw [← hsaturate] at hwithin
    exact hwithin
  · exact (add_le_add_right hshrinks.sq_le _).trans hlength

theorem target_withinLimits (hsqrt : ∀ x, 0 ≤ x → 0 ≤ sqrtf x ∧ sqrtf x ^ 2 = x)
    (hallows : conf.AllowsZero) (s : FocState K) (r : Reading K) (dt phaseDiff : K) :
    WithinLimits conf (s.target sqrtf conf r dt phaseDiff).motorState := by
  unfold FocState.target
  dsimp only
  generalize FocState.setPoint _ conf dt r.inputVoltage phaseDiff = set
  generalize FocState.sense set.1 conf r = sensed
  obtain ⟨hcurrent, hvector, hbattery⟩ := limitCurrents_spec hsqrt hallows
    sensed.1.motorState.modQ sensed.2 set.2
  exact ⟨hcurrent, hvector, hbattery⟩

end Ordered

/-- Whenever a pass calls the current controller, the targets are within all limits. -/
theorem adcInjIntHandler_withinLimits {conf : Configuration ℝ} (hallows : conf.AllowsZero)
    (s : FocState ℝ) (r : Reading ℝ) :
    ∀ call ∈ (s.mcpwmFocAdcInjIntHandler Real.sqrt conf r).2, WithinLimits conf call.1 := by
  intro call hcall
  unfold FocState.mcpwmFocAdcInjIntHandler at hcall
  dsimp only at hcall
  split at hcall
  next => exact absurd hcall List.not_mem_nil
  next =>
    split at hcall
    next =>
      rw [List.mem_singleton] at hcall
      rw [hcall]
      exact target_withinLimits sqrt_exact hallows _ r _ _
    next => exact absurd hcall List.not_mem_nil

/-- A motor at full duty that is asked for twice its current. -/
def pulling : FocState K where
  state := .running
  controlMode := .current
  motorState := fullRequest 0
  measureInductanceNow := false
  phaseOverride := false
  phaseNowOverride := 0
  phaseObserverOverride := false
  phaseNowObserverOverride := 0
  phaseNowObserver := 0
  phaseNowEncoderNoIndex := 0
  dutyCycleSet := 0
  idSet := 0
  iqSet := 120
  speedPidSetRpm := 0
  phaseBefore := 0
  dutyFiltered := 0
  dutyITerm := 0
  tachometer := ⟨0, 0, 0⟩

theorem pulling_withinLimits :
    (pulling.mcpwmFocAdcInjIntHandler Real.sqrt fullDuty
      ⟨0, 0, 1, 0, 0, 0, 0, 0, 0, false, 8400⟩).2 ≠ [] ∧
    ∀ call ∈ (pulling.mcpwmFocAdcInjIntHandler Real.sqrt fullDuty
      ⟨0, 0, 1, 0, 0, 0, 0, 0, 0, false, 8400⟩).2, WithinLimits fullDuty call.1 := by
  have hallows : (fullDuty : Configuration ℝ).AllowsZero := by
    constructor <;> norm_num [fullDuty]
  refine ⟨List.cons_ne_nil _ _, ?_⟩
  exact adcInjIntHandler_withinLimits hallows pulling ⟨0, 0, 1, 0, 0, 0, 0, 0, 0, false, 8400⟩

end Bldc.Foc
