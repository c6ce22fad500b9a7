import Bldc.Drive.Commutation
import Bldc.Drive.Duty

/-!
# The commutation with its bridge

`set_next_comm_step` prepares the outputs of the three half bridges for a commutation step, and
the next commutation event puts them out. The direction can change before that.
-/

namespace Bldc.Drive

open Flash Conf Foundation

/-- `PWM_MODE_NONSYNCHRONOUS_HISW`. -/
def pwmModeNonsynchronousHisw : Byte := 0

/-- The half bridges, by the channels of the timer. -/
inductive Leg where
  | channel1
  | channel2
  | channel3
  deriving DecidableEq, Repr

/-- The modes of a channel: `TIM_OCMode_Inactive`, `TIM_OCMode_PWM1`, `TIM_OCMode_PWM2` and
`TIM_ForcedAction_InActive`. -/
inductive OcMode where
  | inactive
  | pwm1
  | pwm2
  | forcedInactive
  deriving DecidableEq, Repr

/-- The mode of a channel, and whether its high and low sides are enabled. -/
structure LegOutput where
  mode : OcMode
  highside : Bool
  lowside : Bool
  deriving DecidableEq, Repr

/-- What the three channels put out. -/
def Outputs : Type := Leg → LegOutput

/-- The part of each half bridge in a step. -/
structure Roles where
  floating : Leg
  positive : Leg
  negative : Leg

/-- The table in `set_next_comm_step`. -/
def stepRoles (direction : Bool) : Int → Option Roles
  | 1 => some (if direction then ⟨.channel1, .channel2, .channel3⟩
      else ⟨.channel1, .channel3, .channel2⟩)
  | 2 => some (if direction then ⟨.channel2, .channel1, .channel3⟩
      else ⟨.channel3, .channel1, .channel2⟩)
  | 3 => some (if direction then ⟨.channel3, .channel1, .channel2⟩
      else ⟨.channel2, .channel1, .channel3⟩)
  | 4 => some (if direction then ⟨.channel1, .channel3, .channel2⟩
      else ⟨.channel1, .channel2, .channel3⟩)
  | 5 => some (if direction then ⟨.channel2, .channel3, .channel1⟩
      else ⟨.channel3, .channel2, .channel1⟩)
  | 6 => some (if direction then ⟨.channel3, .channel2, .channel1⟩
      else ⟨.channel2, .channel3, .channel1⟩)
  | _ => none

/-- The half bridges of a DC motor. -/
def dcRoles (direction : Bool) : Roles :=
  if direction then ⟨.channel2, .channel1, .channel3⟩ else ⟨.channel2, .channel3, .channel1⟩

/-- The outputs of the half bridges by their parts. -/
def Roles.outputs (r : Roles) (positive negative : LegOutput) : Outputs := fun leg =>
  if leg = r.floating then ⟨.inactive, true, false⟩
  else if leg = r.positive then positive
  else negative

/-- The outputs of `stop_pwm_hw`, and those of an invalid step. -/
def stopOutputs : Outputs := fun _ => ⟨.forcedInactive, true, false⟩

/-- The outputs of `full_brake_hw`. -/
def brakeOutputs : Outputs := fun _ => ⟨.forcedInactive, true, true⟩

/-- `set_next_comm_step`. -/
def setNextCommStep (motor : Motor) (nextStep : Int) : Outputs :=
  if motor.motorType = .dc then
    (dcRoles motor.mcpwm.direction).outputs ⟨.pwm1, true, true⟩ ⟨.inactive, true, true⟩
  else
    let detecting := motor.mcpwm.state = .detecting
    let nonsynchronous := ¬detecting ∧ motor.conf.pwmMode = pwmModeNonsynchronousHisw
    let bipolar := ¬detecting ∧ motor.conf.pwmMode = pwmModeBipolar
    match stepRoles motor.mcpwm.direction nextStep with
    | some r =>
        r.outputs ⟨.pwm1, true, ¬nonsynchronous⟩ ⟨if bipolar then .pwm2 else .inactive, true, true⟩
    | none => stopOutputs

/-- The commutation with the bridge: what `set_next_comm_step` has prepared, what the last
commutation event has put out, and whether a start or the detection has put out a step since
`mcpwm_adc_int_handler` last looked at the direction. -/
structure Bridge where
  comm : Commutator
  next : Outputs
  active : Outputs
  started : Bool

/-- What the control law, or the sample of the current before it, finds. -/
structure Control where
  active : Outputs
  motorType : MotorType
  direction : Bool
  commStep : Int

namespace Bridge

variable (s : Bridge)

/-- `stop_pwm_ll`. -/
def stopPwmLl : Bridge :=
  { s with comm.motor := s.comm.motor.stopPwmLl, next := stopOutputs, active := stopOutputs }

/-- `full_brake_ll`. -/
def fullBrakeLl : Bridge :=
  { s with comm.motor := s.comm.motor.fullBrakeLl, next := brakeOutputs, active := brakeOutputs }

/-- The call `set_next_comm_step(comm_step)`. -/
def prepare : Bridge := { s with next := setNextCommStep s.comm.motor s.comm.commStep }

/-- `commutate`, with the commutation event. -/
def commutate (steps : Int) : Bridge :=
  let comm := (s.comm.commutate steps).1
  if s.comm.counts then
    -- a step that is only counted is not put out
    if s.comm.motor.mcpwm.state ≠ .running then { s with comm := comm }
    else
      let outputs := setNextCommStep s.comm.motor comm.commStep
      { s with comm := comm, next := outputs, active := outputs }
  else { s with comm := comm, active := s.next }

/-- A commutation that starts the motor. -/
def start : Bridge := { s.commutate 1 with started := true }

/-- The end of `set_duty_cycle_ll`. -/
def startRunning (hall : Fin 8) : Bridge :=
  let running := { s with comm := s.comm.running }
  if s.comm.motor.motorType = .dc then running.prepare.start
  else if s.comm.motor.mcpwm.sensorlessNow then
    match s.comm.motor.mcpwm.state with
    | .off =>
        if |s.comm.motor.mcpwm.rpmNow| < s.comm.motor.conf.slMinErpm then running.start
        else running
    | .fullBrake =>
        if |s.comm.motor.mcpwm.rpmNow| < s.comm.motor.conf.slMinErpm ∧
            s.comm.motor.mcpwm.lastCurrentSampleFiltered <
              s.comm.motor.conf.slMaxFullbreakCurrentDirChange then
          running.start
        else s
    | .running | .detecting => s
  else if s.comm.motor.mcpwm.state ≠ .running then
    { running with comm.commStep := s.comm.readHallPhase hall }.prepare.start
  else s

/-- `set_duty_cycle_ll`. -/
def setDutyCycleLl (dutyCycle : Rat) (hall : Fin 8) : Bridge :=
  let t := { s with comm := s.comm.aim dutyCycle }
  if s.comm.magnitude dutyCycle < s.comm.motor.conf.lMinDuty then
    match s.comm.motor.mcpwm.state with
    | .running =>
        if |s.comm.motor.mcpwm.rpmNow| > s.comm.motor.maxErpmFbrake then t.startRunning hall
        else t.fullBrakeLl
    | .detecting => t.stopPwmLl
    | .off | .fullBrake => t
  else t.startRunning hall

/-- A motor that spins is ramped down before the full brake is applied. -/
def brakeOrRampDown : Bridge :=
  if s.comm.motor.brakeOrRampDown.mcpwm.state = .fullBrake then s.fullBrakeLl
  else { s with comm.motor := s.comm.motor.brakeOrRampDown }

/-- `set_duty_cycle_hl`. -/
def setDutyCycleHl (dutyCycle : Rat) (hall : Fin 8) : Bridge :=
  let c := s.comm.motor.conf
  let dutyCycle := utilsTruncateNumber dutyCycle (-c.lMaxDuty) c.lMaxDuty
  if s.comm.motor.mcpwm.state = .detecting then s.stopPwmLl
  else
    let s := { s with comm.motor.mcpwm.dutycycleSet := dutyCycle }
    if s.comm.motor.mcpwm.state = .running then s
    else if |dutyCycle| ≥ c.lMinDuty then
      let now := if |s.comm.motor.mcpwm.dutycycleNow| < c.lMinDuty then sign dutyCycle * c.lMinDuty
        else s.comm.motor.mcpwm.dutycycleNow
      { s with comm.motor.mcpwm.dutycycleNow := now }.setDutyCycleLl now hall
    else s.brakeOrRampDown

/-- `mcpwm_set_duty`. -/
def mcpwmSetDuty (dutyCycle : Rat) (hall : Fin 8) : Bridge :=
  { s with comm.motor.mcpwm.controlMode := .duty }.setDutyCycleHl dutyCycle hall

/-- `mcpwm_set_duty_noramp`. -/
def mcpwmSetDutyNoramp (dutyCycle : Rat) (hall : Fin 8) : Bridge :=
  let s := { s with comm.motor.mcpwm.controlMode := .duty }
  if s.comm.motor.mcpwm.state ≠ .running then s.setDutyCycleHl dutyCycle hall
  else
    { s with
      comm.motor.mcpwm.dutycycleSet := dutyCycle
      comm.motor.mcpwm.dutycycleNow := dutyCycle }.setDutyCycleLl dutyCycle hall

/-- `mcpwm_set_pid_pos`. -/
def mcpwmSetPidPos (pos : Rat) (hall : Fin 8) : Bridge :=
  let s := { s with comm.motor.mcpwm.controlMode := .pos, comm.motor.mcpwm.posPidSetPos := pos }
  if s.comm.motor.mcpwm.state ≠ .running then s.setDutyCycleHl s.comm.motor.conf.lMinDuty hall
  else s

/-- `mcpwm_stop_pwm`. -/
def mcpwmStopPwm : Bridge := { s with comm.motor.mcpwm.controlMode := .none }.stopPwmLl

/-- `mcpwm_set_current`. -/
def mcpwmSetCurrent (current : Rat) (hall : Fin 8) : Bridge :=
  let c := s.comm.motor.conf
  if |current| < c.ccMinCurrent then s.mcpwmStopPwm
  else
    let current := utilsTruncateNumber current c.loCurrentMin c.loCurrentMax
    let s := { s with
      comm.motor.mcpwm.controlMode := .current
      comm.motor.mcpwm.currentSet := current }
    if s.comm.motor.mcpwm.state ≠ .running then s.setDutyCycleHl (sign current * c.lMinDuty) hall
    else s

/-- `mcpwm_set_brake_current`. -/
def mcpwmSetBrakeCurrent (current : Rat) : Bridge :=
  let c := s.comm.motor.conf
  if |current| < c.ccMinCurrent then s.mcpwmStopPwm
  else
    let current := utilsTruncateNumber current (-|c.loCurrentMin|) |c.loCurrentMin|
    let s := { s with
      comm.motor.mcpwm.controlMode := .currentBrake
      comm.motor.mcpwm.currentSet := current }
    if s.comm.motor.mcpwm.state ≠ .running ∧ s.comm.motor.mcpwm.state ≠ .fullBrake then
      s.brakeOrRampDown
    else s

/-- `mcpwm_set_detect`, once it is let through. -/
def mcpwmSetDetect : Bridge :=
  { s with
    comm.motor.mcpwm.controlMode := .none
    comm.motor.mcpwm.state := .detecting
    comm.motor.pwmOutput := false
    next := stopOutputs
    active := stopOutputs }

/-- `mcpwm_set_configuration`, with a new configuration. -/
def mcpwmSetConfiguration (c : McConfiguration) (stray : Int → Int) : Bridge :=
  { s with
    comm := (s.comm.mcpwmSetConfiguration c stray).1
    next := stopOutputs
    active := stopOutputs }

/-- The direction tracking of `timer_thread`, for a motor that is off. -/
def trackDirection (direction : Bool) : Bridge :=
  if s.comm.motor.mcpwm.state = .off then { s with comm.motor.mcpwm.direction := direction }
  else s

/-- The detection in `mcpwm_adc_inj_int_handler`. -/
def mcpwmAdcInjIntHandler : Bridge :=
  if s.comm.motor.motorType = .dc then s
  else
    let comm := s.comm.mcpwmAdcInjIntHandler.1
    let t := if s.comm.motor.mcpwm.detectNow = 4 then
        { s with next := stopOutputs, active := stopOutputs } else s
    if s.comm.motor.mcpwm.state = .detecting ∧ s.comm.motor.mcpwm.detectNow - 1 = 0 then
      let outputs := setNextCommStep s.comm.motor comm.commStep
      { t with comm := comm, next := outputs, active := outputs, started := true }
    else { t with comm := comm }

/-- The beginning of `mcpwm_adc_int_handler`. -/
def noteDirection : Bridge := { s with comm := s.comm.noteDirection, started := false }

/-- The watch for a motor that is stuck. -/
def watchStuck (sample : CommSample) : Bridge :=
  if sample.stuck ∧ s.comm.motor.mcpwm.state = .running then
    if s.comm.motor.conf.commMode = commModeIntegrate then s.commutate 2
    else if s.comm.motor.conf.commMode = commModeDelay then s.commutate 1
    else s
  else s

/-- The search for the next commutation by the back-emf. -/
def followBemf (sample : CommSample) : Bridge :=
  if (s.comm.motor.mcpwm.state = .running ∧ sample.settled ∨ s.comm.motor.mcpwm.state = .off) ∧
      sample.due ∧ (s.comm.motor.conf.commMode = commModeIntegrate ∨
        s.comm.motor.conf.commMode = commModeDelay) then
    s.commutate 1
  else s

/-- The commutation by the hall sensors. -/
def followHall (hall : Fin 8) : Bridge :=
  if s.comm.commStep ≠ s.comm.readHallPhase hall then
    let s := { s with comm.commStep := s.comm.readHallPhase hall }
    if s.comm.motor.mcpwm.state = .running then s.prepare.commutate 0 else s
  else if s.comm.motor.mcpwm.state = .running ∧ ¬s.comm.hasCommutated then s.prepare.commutate 0
  else s

/-- The commutation in `mcpwm_adc_int_handler`. -/
def follow (sample : CommSample) : Bridge :=
  let s := s.noteDirection
  if s.comm.motor.motorType = .bldc then
    if s.comm.motor.mcpwm.sensorlessNow then (s.watchStuck sample).followBemf sample
    else s.followHall sample.hall
  else if s.comm.motor.mcpwm.state = .running ∧ ¬s.comm.hasCommutated then s.prepare.commutate 0
  else s

/-- What is found in this state. -/
def control : Control :=
  ⟨s.active, s.comm.motor.motorType, s.comm.motor.mcpwm.direction, s.comm.commStep⟩

/-- `mcpwm_adc_int_handler`, with the duty cycle that the control law arrives at if it acts. -/
def mcpwmAdcIntHandler (sample : CommSample) (dutyCycle : Rat) : Bridge × List Control :=
  let s := s.follow sample
  if s.comm.motor.mcpwm.state = .running ∧ s.comm.hasCommutated then
    ({ s with comm.motor.mcpwm.dutycycleNow := dutyCycle }.setDutyCycleLl dutyCycle sample.hall,
      [s.control])
  else (s, [])

/-- `mcpwm_init`. -/
def mcpwmInit (comm : Commutator) (c : McConfiguration) (stray : Int → Int) : Bridge :=
  ⟨(comm.mcpwmInit c stray).1, stopOutputs, stopOutputs, false⟩

end Bridge

inductive BridgeInput where
  | setDuty (dutyCycle : Rat) (hall : Fin 8)
  | setDutyNoramp (dutyCycle : Rat) (hall : Fin 8)
  | setPidSpeed (rpm : Rat)
  | setPidPos (pos : Rat) (hall : Fin 8)
  | setCurrent (current : Rat) (hall : Fin 8)
  | setBrakeCurrent (current : Rat)
  | stopPwm
  | setDetect
  | setConfiguration (c : McConfiguration) (stray : Int → Int)
  | trackDirection (direction : Bool)
  -- the speed controller, with what it arrives at
  | runPidControlSpeed (output : Rat) (hall : Fin 8)
  -- what the threads and the signal processing measure
  | measure (rpmNow dutycycleNow lastCurrentSampleFiltered : Rat)
  | adcInjInt
  | adcInt (sample : CommSample) (dutyCycle : Rat)

end Bldc.Drive
