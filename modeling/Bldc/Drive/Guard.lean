import Bldc.Drive.Frame

/-!
# The guard in front of the drivers

Fault, hold-off and control lock are variables of `mc_interface` alone. The drivers
never touch them: only `mc_interface_try_input`, `mc_interface_fault_stop`, the
countdown of `timer_thread` and the functions of the lock do.
-/

namespace Bldc.Drive

open Flash Conf Foundation

/-- What `mc_interface` decides with, and the hold-off it is configured for. -/
structure Guard where
  faultStopTime : Int
  faultNow : FaultCode
  ignoreIterations : Int
  lockEnabled : Bool
  lockOverrideOnce : Bool

/-- The motor after `mc_interface_init` and `timeout_init`, the drivers having been
without a value before. -/
def mcInterfaceInit (c : McConfiguration) : Motor :=
  Motor.dispatch
    { conf := c
      faultNow := .none
      ignoreIterations := 0
      lockEnabled := false
      lockOverrideOnce := false
      positionSet := 0
      wrongVoltageIterations := 0
      mcpwm :=
        { state := .off
          controlMode := .duty
          dutycycleSet := 0
          dutycycleNow := 0
          currentSet := 0
          speedPidSetRpm := 0
          posPidSetPos := 0
          rpmNow := 0
          direction := false
          sensorlessNow := false
          lastCurrentSampleFiltered := 0
          detectNow := 0 }
      foc :=
        { state := .off
          controlMode := .duty
          dutyCycleSet := 0
          idSet := 0
          iqSet := 0
          speedPidSetRpm := 0
          posPidSet := 0
          outputOn := false
          phaseOverride := false
          phaseNowOverride := 0
          measureInductanceNow := false
          measureInductanceDuty := 0
          inductanceState := 0 }
      pwmOutput := false
      timeoutMsec := 1000
      timeoutBrakeCurrent := 0
      hasTimeout := false } (·.mcpwmInit) (·.mcpwmFocInit)

/-- The effect of `mc_interface_fault_stop`. -/
def Guard.stop (g : Guard) (fault : FaultCode) : Guard :=
  { g with ignoreIterations := g.faultStopTime, faultNow := fault }

namespace Motor

variable (s : Motor)

def guard : Guard where
  faultStopTime := s.conf.mFaultStopTimeMs
  faultNow := s.faultNow
  ignoreIterations := s.ignoreIterations
  lockEnabled := s.lockEnabled
  lockOverrideOnce := s.lockOverrideOnce

/-! ## The drivers -/

theorem guard_commutate : s.commutate.guard = s.guard := by
  unfold commutate
  split <;> rfl

theorem guard_startRunning : s.startRunning.guard = s.guard := by
  unfold startRunning
  repeat' split
  all_goals first
    | rfl
    | exact guard_commutate _

theorem guard_setDutyCycleLl (dutyCycle : Rat) : (s.setDutyCycleLl dutyCycle).guard = s.guard := by
  unfold setDutyCycleLl
  dsimp only
  repeat' split
  all_goals first
    | rfl
    | exact guard_startRunning _

theorem guard_brakeOrRampDown : s.brakeOrRampDown.guard = s.guard := by
  unfold brakeOrRampDown
  repeat' split
  all_goals rfl

theorem guard_setDutyCycleHl (dutyCycle : Rat) : (s.setDutyCycleHl dutyCycle).guard = s.guard := by
  unfold setDutyCycleHl
  dsimp only
  split
  · rfl
  · split
    · rfl
    · split
      · apply guard_setDutyCycleLl
      · apply guard_brakeOrRampDown

theorem guard_mcpwmSetDuty (dutyCycle : Rat) : (s.mcpwmSetDuty dutyCycle).guard = s.guard :=
  guard_setDutyCycleHl _ dutyCycle

theorem guard_mcpwmSetDutyNoramp (dutyCycle : Rat) :
    (s.mcpwmSetDutyNoramp dutyCycle).guard = s.guard := by
  unfold mcpwmSetDutyNoramp
  dsimp only
  split
  · apply guard_setDutyCycleHl
  · apply guard_setDutyCycleLl

theorem guard_mcpwmSetPidPos (pos : Rat) : (s.mcpwmSetPidPos pos).guard = s.guard := by
  unfold mcpwmSetPidPos
  dsimp only
  split
  · apply guard_setDutyCycleHl
  · rfl

theorem guard_mcpwmSetCurrent (current : Rat) : (s.mcpwmSetCurrent current).guard = s.guard := by
  unfold mcpwmSetCurrent
  dsimp only
  split
  · rfl
  · split
    · apply guard_setDutyCycleHl
    · rfl

theorem guard_mcpwmSetBrakeCurrent (current : Rat) :
    (s.mcpwmSetBrakeCurrent current).guard = s.guard := by
  unfold mcpwmSetBrakeCurrent
  dsimp only
  split
  · rfl
  · split
    · apply guard_brakeOrRampDown
    · rfl

theorem guard_focControlCurrent (mode : ControlMode) (current : Rat) :
    (s.focControlCurrent mode current).guard = s.guard := by
  unfold focControlCurrent
  split <;> rfl

theorem guard_mcpwmRunPidControlSpeed (output : Rat) :
    (s.mcpwmRunPidControlSpeed output).guard = s.guard := by
  unfold mcpwmRunPidControlSpeed
  split
  · rfl
  · split
    · apply guard_mcpwmSetDuty
    · apply guard_setDutyCycleHl

theorem guard_dispatch (mcpwm foc : Motor → Motor) (hmcpwm : (mcpwm s).guard = s.guard)
    (hfoc : (foc s).guard = s.guard) : (s.dispatch mcpwm foc).guard = s.guard := by
  unfold dispatch
  split
  · exact hmcpwm
  · exact hmcpwm
  · exact hfoc
  · rfl

/-! ## The control commands -/

/-- The hold-off in which `mc_interface_try_input` finds the motor, after it has
ended a detection. -/
def holdOff : Int :=
  if s.mcInterfaceGetState = .detecting then mcpwmDetectStopTime else s.ignoreIterations

/-- `mc_interface_try_input` finds the lock in its way. -/
def barred : Prop := s.holdOff = 0 ∧ s.lockEnabled

instance : Decidable s.barred := inferInstanceAs (Decidable (_ ∧ _))

theorem tryInput_value :
    s.mcInterfaceTryInput.2 =
      if s.barred then (if s.lockOverrideOnce then 0 else 1) else s.holdOff := by
  unfold mcInterfaceTryInput barred holdOff
  dsimp only
  repeat' split
  all_goals simp_all [mcpwmStopPwm, stopPwmLl]

theorem guard_tryInput :
    s.mcInterfaceTryInput.1.guard =
      { s.guard with
        ignoreIterations := s.holdOff
        lockOverrideOnce := if s.barred then false else s.lockOverrideOnce } := by
  unfold mcInterfaceTryInput barred holdOff guard
  dsimp only
  repeat' split
  all_goals simp_all [mcpwmStopPwm, stopPwmLl]

theorem guard_command {mcpwm foc : Motor → Motor} (hmcpwm : ∀ s : Motor, (mcpwm s).guard = s.guard)
    (hfoc : ∀ s : Motor, (foc s).guard = s.guard) :
    (s.command mcpwm foc).guard = s.mcInterfaceTryInput.1.guard := by
  unfold command
  split
  · rfl
  · exact guard_dispatch _ mcpwm foc (hmcpwm _) (hfoc _)

theorem guard_setBrakeCurrent (current : Rat) :
    (s.mcInterfaceSetBrakeCurrent current).guard = s.mcInterfaceTryInput.1.guard :=
  s.guard_command (guard_mcpwmSetBrakeCurrent · current) (guard_focControlCurrent · _ current)

theorem guard_setPidPos (pos : Rat) :
    (s.mcInterfaceSetPidPos pos).guard = s.mcInterfaceTryInput.1.guard := by
  unfold mcInterfaceSetPidPos
  split
  · rfl
  · exact guard_dispatch _ _ _ (guard_mcpwmSetPidPos _ pos) rfl

theorem guard_setDetect : s.mcpwmSetDetect.guard = s.mcInterfaceTryInput.1.guard := by
  unfold mcpwmSetDetect
  split <;> rfl

end Motor

/-- The control commands. -/
def Step.isCommand : Step → Bool
  | .setDuty _ | .setDutyNoramp _ | .setPidSpeed _ | .setPidPos _ | .setCurrent _
  | .setBrakeCurrent _ => true
  | _ => false

/-- What asks `mc_interface_try_input` and does nothing else to the guard. -/
def Step.triesInput : Step → Bool
  | .setDetect => true
  | step => step.isCommand

namespace Motor

variable {s : Motor}

theorem guard_step_of_triesInput {step : Step} (h : step.triesInput) :
    (s.step step).1.guard = s.mcInterfaceTryInput.1.guard := by
  cases step with
  | setDuty dutyCycle => exact s.guard_command (guard_mcpwmSetDuty · dutyCycle) fun _ => rfl
  | setDutyNoramp dutyCycle =>
      exact s.guard_command (guard_mcpwmSetDutyNoramp · dutyCycle) fun _ => rfl
  | setPidSpeed rpm => exact s.guard_command (fun _ => rfl) fun _ => rfl
  | setPidPos pos => exact s.guard_setPidPos pos
  | setCurrent current =>
      exact s.guard_command (guard_mcpwmSetCurrent · current) (guard_focControlCurrent · _ current)
  | setBrakeCurrent current => exact s.guard_setBrakeCurrent current
  | setDetect => exact s.guard_setDetect
  | _ => simp [Step.triesInput, Step.isCommand] at h

/-! ## Checks that may stop the motor -/

/-- The guard after checks: as it was if nothing stopped the motor, and with the
configured hold-off and a fault if something did. -/
structure Checked (s : Motor) (t : Motor × List Motor) : Prop where
  faultStopTime : t.1.guard.faultStopTime = s.guard.faultStopTime
  lockEnabled : t.1.lockEnabled = s.lockEnabled
  lockOverrideOnce : t.1.lockOverrideOnce = s.lockOverrideOnce
  passed : t.2 = [] → t.1.guard = s.guard
  stopped : t.2 ≠ [] → t.1.ignoreIterations = s.guard.faultStopTime

theorem Checked.quiet {t : Motor} (h : t.guard = s.guard) : Checked s t.quiet where
  faultStopTime := congrArg Guard.faultStopTime h
  lockEnabled := congrArg Guard.lockEnabled h
  lockOverrideOnce := congrArg Guard.lockOverrideOnce h
  passed := fun _ => h
  stopped := fun hne => absurd rfl hne

theorem guard_faultStop (s : Motor) (fault : FaultCode) :
    (s.mcInterfaceFaultStop fault).guard = s.guard.stop fault := by
  have hdispatch := guard_dispatch { s with ignoreIterations := s.conf.mFaultStopTimeMs }
    (·.mcpwmStopPwm) (·.mcpwmFocStopPwm) rfl (guard_focControlCurrent _ _ 0)
  exact congrArg (fun g : Guard => { g with faultNow := fault }) hdispatch

theorem Checked.stopping {t : Motor} (h : t.guard = s.guard) (fault : FaultCode) :
    Checked s (t.stopping fault) := by
  have hguard : (t.stopping fault).1.guard = s.guard.stop fault := h ▸ guard_faultStop t fault
  refine ⟨?_, ?_, ?_, fun hnil => absurd hnil (List.cons_ne_nil _ _), fun _ => ?_⟩
  · rw [hguard]
    rfl
  · exact congrArg Guard.lockEnabled hguard
  · exact congrArg Guard.lockOverrideOnce hguard
  · exact congrArg Guard.ignoreIterations hguard

theorem Checked.andThen {t : Motor × List Motor} {next : Motor → Motor × List Motor}
    (h : Checked s t) (h' : Checked t.1 (next t.1)) : Checked s (andThen t next) where
  faultStopTime := h'.faultStopTime.trans h.faultStopTime
  lockEnabled := h'.lockEnabled.trans h.lockEnabled
  lockOverrideOnce := h'.lockOverrideOnce.trans h.lockOverrideOnce
  passed := by
    intro hnil
    obtain ⟨hfirst, hsecond⟩ := List.append_eq_nil_iff.1 hnil
    exact (h'.passed hsecond).trans (h.passed hfirst)
  stopped := by
    intro hne
    by_cases hsecond : (next t.1).2 = []
    · have hfirst : t.2 ≠ [] := fun hnil => hne (List.append_eq_nil_iff.2 ⟨hnil, hsecond⟩)
      exact (congrArg Guard.ignoreIterations (h'.passed hsecond)).trans (h.stopped hfirst)
    · exact (h'.stopped hsecond).trans h.faultStopTime

theorem Checked.of_guard_eq {t : Motor} {u : Motor × List Motor} (h : Checked t u)
    (heq : t.guard = s.guard) : Checked s u where
  faultStopTime := h.faultStopTime.trans (congrArg Guard.faultStopTime heq)
  lockEnabled := h.lockEnabled.trans (congrArg Guard.lockEnabled heq)
  lockOverrideOnce := h.lockOverrideOnce.trans (congrArg Guard.lockOverrideOnce heq)
  passed := fun hnil => (h.passed hnil).trans heq
  stopped := fun hne => (h.stopped hne).trans (congrArg Guard.faultStopTime heq)

variable (s : Motor)

theorem checked_temperatureLimits (temp : Rat) : Checked s (s.temperatureLimits temp) := by
  unfold temperatureLimits
  dsimp only
  split
  · exact .quiet rfl
  · split
    · apply Checked.stopping
      rfl
    · exact .quiet rfl

theorem checked_updateOverrideLimits (temp vIn : Rat) :
    Checked s (s.updateOverrideLimits temp vIn) :=
  (s.checked_temperatureLimits temp).andThen (.quiet rfl)

theorem guard_setConfiguration :
    (s.dispatch (·.mcpwmSetConfiguration) (·.mcpwmFocSetConfiguration)).guard = s.guard :=
  s.guard_dispatch _ _ rfl rfl

theorem checked_applyConfiguration (temp vIn : Rat) :
    Checked s (s.applyConfiguration temp vIn) :=
  (s.checked_updateOverrideLimits temp vIn).andThen (.quiet (guard_setConfiguration _))

theorem checked_checkVoltage (inputVoltage : Rat) : Checked s (s.checkVoltage inputVoltage) := by
  unfold checkVoltage
  dsimp only
  split
  · split
    · apply Checked.stopping
      rfl
    · exact .quiet rfl
  · exact .quiet rfl

theorem checked_checkCurrent (sample : AdcSample) : Checked s (s.checkCurrent sample) := by
  unfold checkCurrent
  extract_lets current
  split
  · exact .stopping rfl _
  · exact .quiet rfl

theorem checked_mcTimerIsr (sample : AdcSample) : Checked s (s.mcInterfaceMcTimerIsr sample) :=
  (s.checked_checkVoltage _).andThen (checked_checkCurrent _ sample)

theorem guard_mcpwmControl (sample : AdcSample) : (s.mcpwmControl sample).guard = s.guard := by
  unfold mcpwmControl
  extract_lets t
  have ht : t.guard = s.guard := by
    unfold t
    split
    · exact s.guard_commutate
    · rfl
  split
  · split
    · exact (guard_setDutyCycleLl _ _).trans ht
    · exact ht
  · exact ht

theorem guard_mcpwmRunPidControlPos (output : Option Rat) :
    (s.mcpwmRunPidControlPos output).guard = s.guard := by
  unfold mcpwmRunPidControlPos
  repeat' split
  all_goals rfl

theorem checked_mcpwmAdcIntHandler (sample : AdcSample) :
    Checked s (s.mcpwmAdcIntHandler sample) :=
  ((checked_mcTimerIsr _ sample).of_guard_eq (s.guard_mcpwmControl sample)).andThen
    (.quiet (guard_mcpwmRunPidControlPos _ _))

theorem guard_mcpwmAdcInjIntHandler (sample : AdcSample) :
    (s.mcpwmAdcInjIntHandler sample).guard = s.guard := by
  unfold mcpwmAdcInjIntHandler mcpwmDetect
  dsimp only
  repeat' split
  all_goals rfl

theorem guard_inductancePulse : s.inductancePulse.guard = s.guard := by
  unfold inductancePulse
  repeat' split
  all_goals rfl

theorem guard_focControl (sample : AdcSample) : (s.focControl sample).guard = s.guard := by
  unfold focControl
  dsimp only
  repeat' split
  all_goals rfl

theorem checked_mcpwmFocAdcInjIntHandler (sample : AdcSample) :
    Checked s (s.mcpwmFocAdcInjIntHandler sample) := by
  unfold mcpwmFocAdcInjIntHandler
  split
  · exact .quiet s.guard_inductancePulse
  · exact (checked_mcTimerIsr _ sample).of_guard_eq (s.guard_focControl sample)

theorem checked_adcInjIntHandler (sample : AdcSample) :
    Checked s (s.mcInterfaceAdcInjIntHandler sample) := by
  unfold mcInterfaceAdcInjIntHandler
  split
  · exact .quiet (s.guard_mcpwmAdcInjIntHandler sample)
  · exact .quiet (s.guard_mcpwmAdcInjIntHandler sample)
  · exact s.checked_mcpwmFocAdcInjIntHandler sample
  · exact .quiet rfl

theorem guard_rpmThread (rpmNow output : Rat) : (s.rpmThread rpmNow output).guard = s.guard := by
  unfold rpmThread
  split
  · rfl
  · apply guard_mcpwmRunPidControlSpeed

theorem guard_mcpwmTimerThread (direction : Bool) (dutycycleNow : Rat) :
    (s.mcpwmTimerThread direction dutycycleNow).guard = s.guard := by
  unfold mcpwmTimerThread
  split <;> rfl

theorem guard_focTimerThread (output : Rat) : (s.focTimerThread output).guard = s.guard := by
  unfold focTimerThread
  split <;> rfl

theorem checked_adcInt (sample : AdcSample) : Checked s (s.step (.adcInt sample)) := by
  change Checked s (if s.motorType = .foc then s.quiet else s.mcpwmAdcIntHandler sample)
  split
  · exact .quiet rfl
  · exact s.checked_mcpwmAdcIntHandler sample

end Motor

/-- The steps that change the guard by the checks they make, if at all. -/
def Step.onlyChecks : Step → Bool
  | .applyConfiguration .. | .adcInt _ | .adcInjInt _ | .rpmThread .. | .mcpwmTimerThread ..
  | .focTimerThread _ | .timeoutConfigure .. | .overridePhase .. | .setPhaseNowOverride _
  | .endOverride | .setEncoder .. | .setCurrentLoop .. | .prepareInductance _ | .armInductance =>
      true
  | _ => false

theorem Motor.checked_step (s : Motor) {step : Step} (h : step.onlyChecks) :
    Checked s (s.step step) := by
  cases step with
  | applyConfiguration temp vIn => exact s.checked_applyConfiguration temp vIn
  | adcInt sample => exact s.checked_adcInt sample
  | adcInjInt sample => exact s.checked_adcInjIntHandler sample
  | rpmThread rpmNow output => exact .quiet (s.guard_rpmThread rpmNow output)
  | mcpwmTimerThread direction dutycycleNow =>
      exact .quiet (s.guard_mcpwmTimerThread direction dutycycleNow)
  | focTimerThread output => exact .quiet (s.guard_focTimerThread output)
  | timeoutConfigure | overridePhase | setPhaseNowOverride | endOverride | setEncoder
  | setCurrentLoop | prepareInductance | armInductance => exact .quiet rfl
  | _ => exact absurd h Bool.false_ne_true

end Bldc.Drive
