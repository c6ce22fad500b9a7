import Bldc.Conf.Record
import Bldc.Foundation.Machine
import Mathlib.Algebra.Order.Ring.Rat

/-!
# The motor interface and its two drivers

`mc_interface` guards the control commands and passes them to `mcpwm` or to
`mcpwm_foc`. The state holds what decides whether the motor is driven; what the
signal processing arrives at (speed, current, back-emf) comes from outside.
-/

namespace Bldc.Drive

open Flash Conf

/-- `mc_state`. -/
inductive McState where
  | off
  | detecting
  | running
  | fullBrake
  deriving DecidableEq, Repr

/-- `mc_control_mode`. -/
inductive ControlMode where
  | duty
  | speed
  | current
  | currentBrake
  | pos
  | none
  deriving DecidableEq, Repr

/-- `mc_fault_code`. -/
inductive FaultCode where
  | none
  | overVoltage
  | underVoltage
  | drv8302
  | absOverCurrent
  | overTempFet
  | overTempMotor
  deriving DecidableEq, Repr

/-- `mc_motor_type`, and the bytes that are none of its values. -/
inductive MotorType where
  | bldc
  | dc
  | foc
  | other
  deriving DecidableEq, Repr

def MotorType.ofCode (code : Byte) : MotorType :=
  if code = 0 then bldc else if code = 1 then dc else if code = 2 then foc else other

/-- `SENSOR_MODE_SENSORLESS`, `SENSOR_MODE_HYBRID` and `COMM_MODE_DELAY`. -/
def sensorModeSensorless : Byte := 0

def sensorModeHybrid : Byte := 2

def commModeDelay : Byte := 1

/-- `MCPWM_DETECT_STOP_TIME`. -/
def mcpwmDetectStopTime : Int := 500

/-- `SIGN`. -/
def sign (x : Rat) : Rat := if x < 0 then -1 else 1

/-- `utils_truncate_number`. -/
def utilsTruncateNumber (number min max : Rat) : Rat :=
  if number > max then max else if number < min then min else number

/-- `utils_map`. -/
def utilsMap (x inMin inMax outMin outMax : Rat) : Rat :=
  (x - inMin) * (outMax - outMin) / (inMax - inMin) + outMin

/-- `utils_deadband`. -/
def utilsDeadband (value tres max : Rat) : Rat :=
  let k := max / (max - tres)
  if |value| < tres then 0
  else if value > 0 then k * value + max * (1 - k)
  else -(k * -value + max * (1 - k))

/-- The variables of `mcpwm`. -/
structure Mcpwm where
  state : McState
  controlMode : ControlMode
  dutycycleSet : Rat
  dutycycleNow : Rat
  currentSet : Rat
  speedPidSetRpm : Rat
  posPidSetPos : Rat
  rpmNow : Rat
  direction : Bool
  sensorlessNow : Bool
  lastCurrentSampleFiltered : Rat
  detectNow : Nat
  deriving DecidableEq, Repr

/-- The variables of `mcpwm_foc`. `inductanceState` belongs to its interrupt
handler. -/
structure McpwmFoc where
  state : McState
  controlMode : ControlMode
  dutyCycleSet : Rat
  idSet : Rat
  iqSet : Rat
  speedPidSetRpm : Rat
  posPidSet : Rat
  outputOn : Bool
  phaseOverride : Bool
  phaseNowOverride : Rat
  measureInductanceNow : Bool
  measureInductanceDuty : Rat
  inductanceState : Nat
  deriving DecidableEq, Repr

/-- The variables of `mc_interface` and `timeout`, the drivers, and whether the
PWM outputs are enabled. -/
structure Motor where
  conf : McConfiguration
  faultNow : FaultCode
  ignoreIterations : Int
  lockEnabled : Bool
  lockOverrideOnce : Bool
  positionSet : Rat
  wrongVoltageIterations : Nat
  mcpwm : Mcpwm
  foc : McpwmFoc
  pwmOutput : Bool
  timeoutMsec : Word
  timeoutBrakeCurrent : Rat
  hasTimeout : Bool

namespace Motor

variable (s : Motor)

def motorType : MotorType := .ofCode s.conf.motorType

/-! ## `mcpwm` -/

/-- `stop_pwm_ll`. -/
def stopPwmLl : Motor := { s with mcpwm.state := .off, pwmOutput := false }

/-- `full_brake_ll`. -/
def fullBrakeLl : Motor := { s with mcpwm.state := .fullBrake, pwmOutput := true }

/-- `mcpwm_stop_pwm`. -/
def mcpwmStopPwm : Motor := { s with mcpwm.controlMode := .none }.stopPwmLl

/-- `mcpwm_get_rpm`. -/
def mcpwmGetRpm : Rat := if s.mcpwm.direction then s.mcpwm.rpmNow else -s.mcpwm.rpmNow

/-- `update_sensor_mode`. -/
def updateSensorMode : Motor :=
  { s with
    mcpwm.sensorlessNow := s.conf.sensorMode = sensorModeSensorless ∨
      s.conf.sensorMode = sensorModeHybrid ∧ |s.mcpwmGetRpm| > s.conf.hallSlErpm }

/-- `commutate`. Without a running motor the sensorless step is only counted. -/
def commutate : Motor :=
  if s.motorType = .bldc ∧ s.mcpwm.sensorlessNow ∧ s.mcpwm.state ≠ .running then
    s.updateSensorMode
  else { s with pwmOutput := true }.updateSensorMode

/-- The end of `set_duty_cycle_ll`: start what does not run. -/
def startRunning : Motor :=
  if s.motorType = .dc then { s with mcpwm.state := .running }.commutate
  else if s.mcpwm.sensorlessNow then
    match s.mcpwm.state with
    | .off =>
        if |s.mcpwm.rpmNow| < s.conf.slMinErpm then { s with mcpwm.state := .running }.commutate
        else { s with mcpwm.state := .running }
    | .fullBrake =>
        if |s.mcpwm.rpmNow| < s.conf.slMinErpm ∧
            s.mcpwm.lastCurrentSampleFiltered < s.conf.slMaxFullbreakCurrentDirChange then
          { s with mcpwm.state := .running }.commutate
        else s
    | .running | .detecting => s
  else if s.mcpwm.state ≠ .running then { s with mcpwm.state := .running }.commutate
  else s

/-- The ERPM above which `set_duty_cycle_ll` does not apply the full brake. -/
def maxErpmFbrake : Rat :=
  if s.mcpwm.controlMode = .current ∨ s.mcpwm.controlMode = .currentBrake then
    s.conf.lMaxErpmFbrakeCc
  else s.conf.lMaxErpmFbrake

/-- `set_duty_cycle_ll`. -/
def setDutyCycleLl (dutyCycle : Rat) : Motor :=
  let forward := dutyCycle ≥ s.conf.lMinDuty
  let reverse := dutyCycle ≤ -s.conf.lMinDuty
  let s := { s with
    mcpwm.direction := if forward then true else if reverse then false else s.mcpwm.direction }
  let dutyCycle := if ¬forward ∧ reverse then -dutyCycle else dutyCycle
  if dutyCycle < s.conf.lMinDuty then
    match s.mcpwm.state with
    | .running => if |s.mcpwm.rpmNow| > s.maxErpmFbrake then s.startRunning else s.fullBrakeLl
    -- a detection is given up, and a motor that is off or braked is left alone
    | .detecting => s.stopPwmLl
    | .off | .fullBrake => s
  else s.startRunning

/-- A motor that spins is ramped down before the full brake is applied. -/
def brakeOrRampDown : Motor :=
  if s.motorType = .dc then
    if |s.mcpwm.dutycycleNow| > 1 / 10 then { s with mcpwm.state := .running } else s.fullBrakeLl
  else if |s.mcpwm.rpmNow| > s.conf.lMaxErpmFbrake then { s with mcpwm.state := .running }
  else s.fullBrakeLl

/-- `set_duty_cycle_hl`. -/
def setDutyCycleHl (dutyCycle : Rat) : Motor :=
  let dutyCycle := utilsTruncateNumber dutyCycle (-s.conf.lMaxDuty) s.conf.lMaxDuty
  if s.mcpwm.state = .detecting then s.stopPwmLl
  else
    let s := { s with mcpwm.dutycycleSet := dutyCycle }
    if s.mcpwm.state = .running then s
    else if |dutyCycle| ≥ s.conf.lMinDuty then
      let now := if |s.mcpwm.dutycycleNow| < s.conf.lMinDuty then sign dutyCycle * s.conf.lMinDuty
        else s.mcpwm.dutycycleNow
      { s with mcpwm.dutycycleNow := now }.setDutyCycleLl now
    else s.brakeOrRampDown

/-- `mcpwm_set_duty`. -/
def mcpwmSetDuty (dutyCycle : Rat) : Motor :=
  { s with mcpwm.controlMode := .duty }.setDutyCycleHl dutyCycle

/-- `mcpwm_set_duty_noramp`. -/
def mcpwmSetDutyNoramp (dutyCycle : Rat) : Motor :=
  let s := { s with mcpwm.controlMode := .duty }
  if s.mcpwm.state ≠ .running then s.setDutyCycleHl dutyCycle
  else
    { s with mcpwm.dutycycleSet := dutyCycle, mcpwm.dutycycleNow := dutyCycle }.setDutyCycleLl
      dutyCycle

/-- `mcpwm_set_pid_speed`. -/
def mcpwmSetPidSpeed (rpm : Rat) : Motor :=
  { s with mcpwm.controlMode := .speed, mcpwm.speedPidSetRpm := rpm }

/-- `mcpwm_set_pid_pos`. -/
def mcpwmSetPidPos (pos : Rat) : Motor :=
  let s := { s with mcpwm.controlMode := .pos, mcpwm.posPidSetPos := pos }
  if s.mcpwm.state ≠ .running then s.setDutyCycleHl s.conf.lMinDuty else s

/-- `mcpwm_set_current`. -/
def mcpwmSetCurrent (current : Rat) : Motor :=
  if |current| < s.conf.ccMinCurrent then s.mcpwmStopPwm
  else
    let current := utilsTruncateNumber current s.conf.loCurrentMin s.conf.loCurrentMax
    let s := { s with mcpwm.controlMode := .current, mcpwm.currentSet := current }
    if s.mcpwm.state ≠ .running then s.setDutyCycleHl (sign current * s.conf.lMinDuty) else s

/-- `mcpwm_set_brake_current`. -/
def mcpwmSetBrakeCurrent (current : Rat) : Motor :=
  if |current| < s.conf.ccMinCurrent then s.mcpwmStopPwm
  else
    let current := utilsTruncateNumber current (-|s.conf.loCurrentMin|) |s.conf.loCurrentMin|
    let s := { s with mcpwm.controlMode := .currentBrake, mcpwm.currentSet := current }
    if s.mcpwm.state ≠ .running ∧ s.mcpwm.state ≠ .fullBrake then s.brakeOrRampDown else s

/-- `mcpwm_set_configuration`, the configuration being that of the interface. -/
def mcpwmSetConfiguration : Motor := s.mcpwmStopPwm.updateSensorMode

/-- `mcpwm_init` up to the calibration, with the timers it resets. -/
def mcpwmInit : Motor :=
  { s with
    mcpwm := { s.mcpwm with
      state := .off
      controlMode := .none
      dutycycleSet := 0
      dutycycleNow := 0
      currentSet := 0
      speedPidSetRpm := 0
      posPidSetPos := 0
      rpmNow := 0
      direction := true
      lastCurrentSampleFiltered := 0 }
    pwmOutput := false }.updateSensorMode

/-! ## `mcpwm_foc` -/

/-- `stop_pwm_hw` of `mcpwm_foc`. -/
def focStopPwmHw : Motor := { s with foc.outputOn := false, pwmOutput := false }

/-- `start_pwm_hw`. -/
def focStartPwmHw : Motor := { s with foc.outputOn := true, pwmOutput := true }

/-- How `mcpwm_foc` releases the motor. -/
def focRelease : Motor := { s with foc.controlMode := .none, foc.state := .off }.focStopPwmHw

/-- `mcpwm_foc_set_duty`. -/
def mcpwmFocSetDuty (dutyCycle : Rat) : Motor :=
  { s with foc.controlMode := .duty, foc.dutyCycleSet := dutyCycle, foc.state := .running }

/-- `mcpwm_foc_set_duty_noramp`. -/
def mcpwmFocSetDutyNoramp (dutyCycle : Rat) : Motor := s.mcpwmFocSetDuty dutyCycle

/-- `mcpwm_foc_set_pid_speed`. -/
def mcpwmFocSetPidSpeed (rpm : Rat) : Motor :=
  { s with foc.controlMode := .speed, foc.speedPidSetRpm := rpm, foc.state := .running }

/-- `mcpwm_foc_set_pid_pos`. -/
def mcpwmFocSetPidPos (pos : Rat) : Motor :=
  { s with foc.controlMode := .pos, foc.posPidSet := pos, foc.state := .running }

/-- Control a current, or release the motor if it is below `cc_min_current`. -/
def focControlCurrent (mode : ControlMode) (current : Rat) : Motor :=
  if |current| < s.conf.ccMinCurrent then s.focRelease
  else
    { s with
      foc.controlMode := mode
      foc.iqSet := utilsTruncateNumber current s.conf.loCurrentMin s.conf.loCurrentMax
      foc.state := .running }

/-- `mcpwm_foc_set_current`. -/
def mcpwmFocSetCurrent (current : Rat) : Motor := s.focControlCurrent .current current

/-- `mcpwm_foc_set_brake_current`. -/
def mcpwmFocSetBrakeCurrent (current : Rat) : Motor := s.focControlCurrent .currentBrake current

/-- `mcpwm_foc_stop_pwm`. -/
def mcpwmFocStopPwm : Motor := s.mcpwmFocSetCurrent 0

/-- `mcpwm_foc_set_configuration`. -/
def mcpwmFocSetConfiguration : Motor := s.focRelease

/-- `mcpwm_foc_init` up to the calibration. The counter of the interrupt handler
is not among what it resets. -/
def mcpwmFocInit : Motor :=
  { s with
    foc := { s.foc with
      state := .off
      controlMode := .none
      dutyCycleSet := 0
      idSet := 0
      iqSet := 0
      speedPidSetRpm := 0
      posPidSet := 0
      outputOn := false
      phaseOverride := false
      phaseNowOverride := 0
      measureInductanceNow := false
      measureInductanceDuty := 0 }
    pwmOutput := false }.focStopPwmHw

/-! ## `mc_interface` -/

/-- The switch on the motor type in front of the drivers. -/
def dispatch (mcpwm foc : Motor → Motor) : Motor :=
  match s.motorType with
  | .bldc | .dc => mcpwm s
  | .foc => foc s
  | .other => s

/-- `mc_interface_get_state`. -/
def mcInterfaceGetState : McState :=
  match s.motorType with
  | .bldc | .dc => s.mcpwm.state
  | .foc => s.foc.state
  | .other => .off

/-- `mc_interface_try_input`: the state and the returned value. -/
def mcInterfaceTryInput : Motor × Int :=
  -- any input ends a detection and begins a hold-off
  let s := if s.mcInterfaceGetState = .detecting then
      { s.mcpwmStopPwm with ignoreIterations := mcpwmDetectStopTime }
    else s
  if s.ignoreIterations = 0 ∧ s.lockEnabled then
    -- a lock counts only when nothing is being ignored
    if s.lockOverrideOnce then ({ s with lockOverrideOnce := false }, 0) else (s, 1)
  else (s, s.ignoreIterations)

/-- A control command: nothing happens if input is not allowed. -/
def command (mcpwm foc : Motor → Motor) : Motor :=
  if s.mcInterfaceTryInput.2 ≠ 0 then s.mcInterfaceTryInput.1
  else s.mcInterfaceTryInput.1.dispatch mcpwm foc

/-- `mc_interface_set_duty`. -/
def mcInterfaceSetDuty (dutyCycle : Rat) : Motor :=
  s.command (·.mcpwmSetDuty dutyCycle) (·.mcpwmFocSetDuty dutyCycle)

/-- `mc_interface_set_duty_noramp`. -/
def mcInterfaceSetDutyNoramp (dutyCycle : Rat) : Motor :=
  s.command (·.mcpwmSetDutyNoramp dutyCycle) (·.mcpwmFocSetDutyNoramp dutyCycle)

/-- `mc_interface_set_pid_speed`. -/
def mcInterfaceSetPidSpeed (rpm : Rat) : Motor :=
  s.command (·.mcpwmSetPidSpeed rpm) (·.mcpwmFocSetPidSpeed rpm)

/-- `mc_interface_set_pid_pos`. The position is noted for every motor type. -/
def mcInterfaceSetPidPos (pos : Rat) : Motor :=
  if s.mcInterfaceTryInput.2 ≠ 0 then s.mcInterfaceTryInput.1
  else
    { s.mcInterfaceTryInput.1 with positionSet := pos }.dispatch (·.mcpwmSetPidPos pos)
      (·.mcpwmFocSetPidPos pos)

/-- `mc_interface_set_current`. -/
def mcInterfaceSetCurrent (current : Rat) : Motor :=
  s.command (·.mcpwmSetCurrent current) (·.mcpwmFocSetCurrent current)

/-- `mc_interface_set_brake_current`. -/
def mcInterfaceSetBrakeCurrent (current : Rat) : Motor :=
  s.command (·.mcpwmSetBrakeCurrent current) (·.mcpwmFocSetBrakeCurrent current)

/-- `mc_interface_release_motor`. -/
def mcInterfaceReleaseMotor : Motor := s.mcInterfaceSetCurrent 0

/-- `mcpwm_set_detect`. -/
def mcpwmSetDetect : Motor :=
  if s.mcInterfaceTryInput.2 ≠ 0 then s.mcInterfaceTryInput.1
  else
    { s.mcInterfaceTryInput.1 with
      mcpwm.controlMode := .none
      mcpwm.state := .detecting
      pwmOutput := false }

/-- `mc_interface_fault_stop`. -/
def mcInterfaceFaultStop (fault : FaultCode) : Motor :=
  { { s with ignoreIterations := s.conf.mFaultStopTimeMs }.dispatch (·.mcpwmStopPwm)
      (·.mcpwmFocStopPwm) with faultNow := fault }

end Motor

end Bldc.Drive
