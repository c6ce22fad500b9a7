import Bldc.Drive.State

/-!
# What can happen to the motor

The interrupt handlers, the periodic threads, the pieces of the configuration
change and of the measurements between two sleeps, and the control commands are
the steps of one machine. Its outputs are the states in which
`mc_interface_fault_stop` returns.
-/

namespace Bldc.Drive

open Flash Conf Foundation

namespace Motor

variable (s : Motor)

/-- Nothing stops the motor. -/
def quiet : Motor × List Motor := (s, [])

/-- A fault stops the motor. -/
def stopping (fault : FaultCode) : Motor × List Motor :=
  (s.mcInterfaceFaultStop fault, [s.mcInterfaceFaultStop fault])

/-- One after the other, with the states in which `mc_interface_fault_stop`
returned. -/
def andThen (t : Motor × List Motor) (next : Motor → Motor × List Motor) : Motor × List Motor :=
  ((next t.1).1, t.2 ++ (next t.1).2)

/-! ## Limits and configuration -/

/-- The current limits of `update_override_limits`. -/
def temperatureLimits (temp : Rat) : Motor × List Motor :=
  let c := s.conf
  if temp < c.lTempFetStart then
    { s with conf.loCurrentMin := c.lCurrentMin, conf.loCurrentMax := c.lCurrentMax }.quiet
  else if temp > c.lTempFetEnd then
    { s with conf.loCurrentMin := 0, conf.loCurrentMax := 0 }.stopping .overTempFet
  else
    let maxc := if |c.lCurrentMin| > |c.lCurrentMax| then |c.lCurrentMin| else |c.lCurrentMax|
    let maxc := utilsMap temp c.lTempFetStart c.lTempFetEnd maxc 0
    { s with
      conf.loCurrentMax := if |c.lCurrentMax| > maxc then sign c.lCurrentMax * maxc
        else c.loCurrentMax
      conf.loCurrentMin := if |c.lCurrentMin| > maxc then sign c.lCurrentMin * maxc
        else c.loCurrentMin }.quiet

/-- The input current limits of `update_override_limits`. -/
def batteryLimits (vIn : Rat) : Motor :=
  let c := s.conf
  { s with
    conf.loInCurrentMax :=
      if vIn > c.lBatteryCutStart then c.lInCurrentMax
      else if vIn < c.lBatteryCutEnd then 0
      else utilsMap vIn c.lBatteryCutStart c.lBatteryCutEnd c.lInCurrentMax 0
    conf.loInCurrentMin := c.lInCurrentMin }

/-- `update_override_limits`. -/
def updateOverrideLimits (temp vIn : Rat) : Motor × List Motor :=
  andThen (s.temperatureLimits temp) fun s => (s.batteryLimits vIn).quiet

/-- The end of `mc_interface_set_configuration`. -/
def applyConfiguration (temp vIn : Rat) : Motor × List Motor :=
  andThen (s.updateOverrideLimits temp vIn) fun s =>
    (s.dispatch (·.mcpwmSetConfiguration) (·.mcpwmFocSetConfiguration)).quiet

/-- Whether another driver is needed for the configuration. -/
def switchesDriver (c : McConfiguration) : Prop :=
  ¬(s.motorType = .foc ↔ MotorType.ofCode c.motorType = .foc)

instance (c : McConfiguration) : Decidable (s.switchesDriver c) :=
  inferInstanceAs (Decidable ¬_)

/-- `mc_interface_set_configuration` until it returns or the driver that is in
use has been asked to stop its threads. -/
def mcInterfaceSetConfiguration (c : McConfiguration) (temp vIn : Rat) : Motor × List Motor :=
  if s.switchesDriver c then s.quiet else { s with conf := c }.applyConfiguration temp vIn

/-- The piece of `mc_interface_set_configuration` between the threads of the old
driver and the calibration of the new one. -/
def switchDriver (c : McConfiguration) : Motor :=
  let s := { s with conf := c }
  if s.motorType = .foc then s.mcpwmFocInit else s.mcpwmInit

end Motor

/-! ## Interrupts -/

/-- What the handlers of the ADC interrupts get from the signal processing. -/
structure AdcSample where
  inputVoltage : Rat
  absCurrent : Rat
  absCurrentFiltered : Rat
  -- `mcpwm`: whether it is time for a commutation, and the duty cycle that the
  -- control law arrives at once the motor has commutated
  commutates : Bool
  dutycycleNow : Option Rat
  -- the output of the position controller
  posPidOutput : Option Rat
  deriving Inhabited

namespace Motor

variable (s : Motor)

/-- The voltage check of `mc_interface_mc_timer_isr`. -/
def checkVoltage (inputVoltage : Rat) : Motor × List Motor :=
  if inputVoltage < s.conf.lMinVin ∨ inputVoltage > s.conf.lMaxVin then
    let s := { s with wrongVoltageIterations := s.wrongVoltageIterations + 1 }
    -- a single wrong sample is no fault yet
    if s.wrongVoltageIterations ≥ 8 then
      s.stopping (if inputVoltage < s.conf.lMinVin then .underVoltage else .overVoltage)
    else s.quiet
  else { s with wrongVoltageIterations := 0 }.quiet

/-- The current check of `mc_interface_mc_timer_isr`. -/
def checkCurrent (sample : AdcSample) : Motor × List Motor :=
  let current := if s.conf.lSlowAbsCurrent then sample.absCurrentFiltered else sample.absCurrent
  if |current| > s.conf.lAbsCurrentMax then s.stopping .absOverCurrent else s.quiet

/-- `mc_interface_mc_timer_isr`. -/
def mcInterfaceMcTimerIsr (sample : AdcSample) : Motor × List Motor :=
  andThen (s.checkVoltage sample.inputVoltage) (·.checkCurrent sample)

/-- Whether `mcpwm_adc_int_handler` looks for the next commutation. -/
def commutating : Prop :=
  s.mcpwm.state = .running ∨ s.mcpwm.state = .off ∧ s.motorType = .bldc ∧ s.mcpwm.sensorlessNow

instance : Decidable s.commutating := inferInstanceAs (Decidable (_ ∨ _))

/-- The commutation and the control law of `mcpwm_adc_int_handler`. -/
def mcpwmControl (sample : AdcSample) : Motor :=
  let s := if s.commutating ∧ sample.commutates then s.commutate else s
  match sample.dutycycleNow with
  | some dutyCycle =>
      if s.mcpwm.state = .running then
        { s with mcpwm.dutycycleNow := dutyCycle }.setDutyCycleLl dutyCycle
      else s
  | none => s

/-- `run_pid_control_pos` of `mcpwm`. -/
def mcpwmRunPidControlPos (output : Option Rat) : Motor :=
  match output with
  | some output =>
      if s.mcpwm.controlMode = .pos then
        { s with mcpwm.currentSet := utilsTruncateNumber output (-1) 1 * s.conf.loCurrentMax }
      else s
  | none => s

/-- `mcpwm_adc_int_handler`. -/
def mcpwmAdcIntHandler (sample : AdcSample) : Motor × List Motor :=
  andThen ((s.mcpwmControl sample).mcInterfaceMcTimerIsr sample) fun s =>
    (s.mcpwmRunPidControlPos sample.posPidOutput).quiet

/-- The detection part of `mcpwm_adc_inj_int_handler`. -/
def mcpwmDetect : Motor :=
  -- the pulse has been sampled, and the outputs go off again
  let s := if s.mcpwm.detectNow = 4 then { s with pwmOutput := false } else s
  let detectNow := s.mcpwm.detectNow - 1
  if s.mcpwm.state = .detecting ∧ detectNow = 0 then
    { s with mcpwm.detectNow := 5, pwmOutput := true }
  else { s with mcpwm.detectNow := detectNow }

/-- `mcpwm_adc_inj_int_handler`. -/
def mcpwmAdcInjIntHandler (sample : AdcSample) : Motor :=
  let s := if s.motorType = .dc then s else s.mcpwmDetect
  { s with mcpwm.lastCurrentSampleFiltered := sample.absCurrentFiltered }

/-- One interrupt of an inductance measurement. -/
def inductancePulse : Motor :=
  if s.foc.inductanceState = 0 then { s.focStartPwmHw with foc.inductanceState := 1 }
  else if s.foc.inductanceState = 9 then
    { s.focStopPwmHw with foc.inductanceState := 0, foc.measureInductanceNow := false }
  else { s with foc.inductanceState := s.foc.inductanceState + 1 }

/-- The control law of `mcpwm_foc_adc_inj_int_handler`. -/
def focControl (sample : AdcSample) : Motor :=
  if s.foc.state = .running then
    -- a running motor whose outputs were stopped gets them back here
    let s := if s.foc.outputOn then s else s.focStartPwmHw
    match sample.posPidOutput with
    | some output =>
        if s.foc.controlMode = .pos then
          { s with foc.iqSet := utilsTruncateNumber output (-1) 1 * s.conf.loCurrentMax }
        else s
    | none => s
  else s

/-- `mcpwm_foc_adc_inj_int_handler`. -/
def mcpwmFocAdcInjIntHandler (sample : AdcSample) : Motor × List Motor :=
  -- an armed pulse keeps the interrupt from everything else, also from the checks
  if s.foc.measureInductanceNow then s.inductancePulse.quiet
  else (s.focControl sample).mcInterfaceMcTimerIsr sample

/-- `mc_interface_adc_inj_int_handler`. -/
def mcInterfaceAdcInjIntHandler (sample : AdcSample) : Motor × List Motor :=
  match s.motorType with
  | .bldc | .dc => (s.mcpwmAdcInjIntHandler sample).quiet
  | .foc => s.mcpwmFocAdcInjIntHandler sample
  | .other => s.quiet

/-! ## Threads -/

/-- The part of `timer_thread` of `mc_interface` that counts the hold-off down. -/
def countDown (drvFault : Bool) : Motor :=
  if s.ignoreIterations > 0 then { s with ignoreIterations := s.ignoreIterations - 1 }
  else if drvFault then s else { s with faultNow := .none }

/-- One round of `timer_thread` of `mc_interface`. The fault pin is read twice. -/
def timerThread (drvFault drvFault' : Bool) (temp vIn : Rat) : Motor × List Motor :=
  andThen (if drvFault then s.stopping .drv8302 else s.quiet) fun s =>
    (s.countDown drvFault').updateOverrideLimits temp vIn

/-- `run_pid_control_speed` of `mcpwm`, from the sum of its terms on. -/
def mcpwmRunPidControlSpeed (output : Rat) : Motor :=
  if s.mcpwm.controlMode ≠ .speed then s
  else if |s.mcpwm.speedPidSetRpm| < s.conf.sPidMinErpm then s.mcpwmSetDuty 0
  else
    let output := if |output| < s.conf.lMinDuty then sign output * s.conf.lMinDuty else output
    let output :=
      if s.mcpwm.speedPidSetRpm > 0 ∧ output < 0 then s.conf.lMinDuty
      else if s.mcpwm.speedPidSetRpm < 0 ∧ output > 0 then -s.conf.lMinDuty
      else output
    s.setDutyCycleHl output

/-- One round of `rpm_thread`. -/
def rpmThread (rpmNow output : Rat) : Motor :=
  if s.motorType = .foc then s
  else { s with mcpwm.rpmNow := rpmNow }.mcpwmRunPidControlSpeed output

/-- One round of `timer_thread` of `mcpwm`, which follows a motor that is off. -/
def mcpwmTimerThread (direction : Bool) (dutycycleNow : Rat) : Motor :=
  if s.motorType ≠ .foc ∧ s.mcpwm.state = .off then
    { s with
      mcpwm.direction := direction
      mcpwm.dutycycleNow :=
        utilsTruncateNumber dutycycleNow (-s.conf.lMaxDuty) s.conf.lMaxDuty }
  else s

/-- One round of `timer_thread` of `mcpwm_foc`, with its speed controller. -/
def focTimerThread (output : Rat) : Motor :=
  if s.motorType = .foc ∧ s.foc.controlMode = .speed ∧
      ¬|s.foc.speedPidSetRpm| < s.conf.sPidMinErpm then
    { s with foc.iqSet := utilsTruncateNumber output (-1) 1 * s.conf.loCurrentMax }
  else s

/-- One round of `timeout_thread`. -/
def timeoutThread (elapsed : Bool) : Motor :=
  if s.timeoutMsec ≠ 0 ∧ elapsed then
    { { s with lockEnabled := false }.mcInterfaceSetBrakeCurrent s.timeoutBrakeCurrent with
      hasTimeout := true }
  else { s with hasTimeout := false }

end Motor

/-! ## The machine -/

inductive Step where
  -- control commands
  | setDuty (dutyCycle : Rat)
  | setDutyNoramp (dutyCycle : Rat)
  | setPidSpeed (rpm : Rat)
  | setPidPos (pos : Rat)
  | setCurrent (current : Rat)
  | setBrakeCurrent (current : Rat)
  | setDetect
  | lock
  | unlock
  | lockOverrideOnce
  -- configuration
  | setConfiguration (c : McConfiguration) (temp vIn : Rat)
  | switchDriver (c : McConfiguration)
  | applyConfiguration (temp vIn : Rat)
  | timeoutConfigure (timeout : Word) (brakeCurrent : Rat)
  -- measurements
  | overridePhase (idSet iqSet : Rat)
  | setPhaseNowOverride (phase : Rat)
  | endOverride
  | setEncoder (offset : Rat) (inverted : Bool) (ratio : Rat)
  | setCurrentLoop (fSw kp ki : Rat)
  | prepareInductance (duty : Rat)
  | armInductance
  -- interrupts and periodic threads
  | adcInt (sample : AdcSample)
  | adcInjInt (sample : AdcSample)
  | timerThread (drvFault drvFault' : Bool) (temp vIn : Rat)
  | rpmThread (rpmNow output : Rat)
  | mcpwmTimerThread (direction : Bool) (dutycycleNow : Rat)
  | focTimerThread (output : Rat)
  | timeoutThread (elapsed : Bool)

namespace Motor

variable (s : Motor)

/-- How the resistance, encoder and hall measurements take over the motor. -/
def overridePhase (idSet iqSet : Rat) : Motor :=
  { s with
    foc.phaseOverride := true
    foc.idSet := idSet
    foc.iqSet := iqSet
    foc.controlMode := .current
    foc.state := .running }

/-- How they leave it. -/
def endOverride : Motor :=
  { s with foc.idSet := 0, foc.iqSet := 0, foc.phaseOverride := false }.focRelease

def step : Step → Motor × List Motor
  | .setDuty dutyCycle => (s.mcInterfaceSetDuty dutyCycle).quiet
  | .setDutyNoramp dutyCycle => (s.mcInterfaceSetDutyNoramp dutyCycle).quiet
  | .setPidSpeed rpm => (s.mcInterfaceSetPidSpeed rpm).quiet
  | .setPidPos pos => (s.mcInterfaceSetPidPos pos).quiet
  | .setCurrent current => (s.mcInterfaceSetCurrent current).quiet
  | .setBrakeCurrent current => (s.mcInterfaceSetBrakeCurrent current).quiet
  | .setDetect => s.mcpwmSetDetect.quiet
  | .lock => { s with lockEnabled := true }.quiet
  | .unlock => { s with lockEnabled := false }.quiet
  | .lockOverrideOnce => { s with lockOverrideOnce := true }.quiet
  | .setConfiguration c temp vIn => s.mcInterfaceSetConfiguration c temp vIn
  | .switchDriver c => (s.switchDriver c).quiet
  | .applyConfiguration temp vIn => s.applyConfiguration temp vIn
  | .timeoutConfigure timeout brakeCurrent =>
      { s with timeoutMsec := timeout, timeoutBrakeCurrent := brakeCurrent }.quiet
  | .overridePhase idSet iqSet => (s.overridePhase idSet iqSet).quiet
  | .setPhaseNowOverride phase => { s with foc.phaseNowOverride := phase }.quiet
  | .endOverride => s.endOverride.quiet
  | .setEncoder offset inverted ratio =>
      { s with
        conf.focEncoderOffset := offset
        conf.focEncoderInverted := inverted
        conf.focEncoderRatio := ratio }.quiet
  | .setCurrentLoop fSw kp ki =>
      { s with conf.focFSw := fSw, conf.focCurrentKp := kp, conf.focCurrentKi := ki }.quiet
  | .prepareInductance duty => { s with foc.measureInductanceDuty := duty }.quiet
  | .armInductance => { s with foc.measureInductanceNow := true }.quiet
  | .adcInt sample => if s.motorType = .foc then s.quiet else s.mcpwmAdcIntHandler sample
  | .adcInjInt sample => s.mcInterfaceAdcInjIntHandler sample
  | .timerThread drvFault drvFault' temp vIn => s.timerThread drvFault drvFault' temp vIn
  | .rpmThread rpmNow output => (s.rpmThread rpmNow output).quiet
  | .mcpwmTimerThread direction dutycycleNow => (s.mcpwmTimerThread direction dutycycleNow).quiet
  | .focTimerThread output => (s.focTimerThread output).quiet
  | .timeoutThread elapsed => (s.timeoutThread elapsed).quiet

end Motor

/-- The motor, with the states in which `mc_interface_fault_stop` returns. -/
def motor : Machine Motor Step Motor where
  step := Motor.step

end Bldc.Drive
