import Bldc.Drive.Step
import Mathlib.Algebra.Order.Field.Basic

/-!
# What leaves the settings alone

Only a configuration change, a measurement and `timeout_configure` touch the
settings. Everything else keeps them: the commands, the interrupt handlers and the
periodic threads, which recompute nothing but the override limits.
-/

namespace Bldc.Drive

open Flash Conf Foundation

/-- A configuration apart from its override limits. -/
def settings (c : McConfiguration) : McConfiguration :=
  { c with loCurrentMax := 0, loCurrentMin := 0, loInCurrentMax := 0, loInCurrentMin := 0 }

/-- The current limits, also the override limits, leave room for zero. -/
structure AllowsZero (c : McConfiguration) : Prop where
  lCurrentMin : c.lCurrentMin ≤ 0
  lCurrentMax : 0 ≤ c.lCurrentMax
  loCurrentMin : c.loCurrentMin ≤ 0
  loCurrentMax : 0 ≤ c.loCurrentMax

namespace Motor

/-- The settings and the timeout are as before. -/
structure KeepsSettings (s t : Motor) : Prop where
  settings : settings t.conf = settings s.conf
  timeoutMsec : t.timeoutMsec = s.timeoutMsec
  timeoutBrakeCurrent : t.timeoutBrakeCurrent = s.timeoutBrakeCurrent
  allowsZero : AllowsZero s.conf → AllowsZero t.conf

/-- Nor has an inductance measurement been armed, carried on or finished. -/
structure Keeps (s t : Motor) : Prop extends KeepsSettings s t where
  armed : t.foc.measureInductanceNow = s.foc.measureInductanceNow
  pulse : t.foc.inductanceState = s.foc.inductanceState

variable {s t u : Motor}

theorem KeepsSettings.refl (s : Motor) : s.KeepsSettings s := ⟨rfl, rfl, rfl, id⟩

theorem KeepsSettings.trans (h : s.KeepsSettings t) (h' : t.KeepsSettings u) : s.KeepsSettings u :=
  ⟨h'.settings.trans h.settings, h'.timeoutMsec.trans h.timeoutMsec,
    h'.timeoutBrakeCurrent.trans h.timeoutBrakeCurrent, h'.allowsZero ∘ h.allowsZero⟩

theorem Keeps.refl (s : Motor) : s.Keeps s := ⟨.refl s, rfl, rfl⟩

/-- A change of something else. -/
theorem Keeps.of_eq (hconf : t.conf = s.conf) (htimeout : t.timeoutMsec = s.timeoutMsec)
    (hbrake : t.timeoutBrakeCurrent = s.timeoutBrakeCurrent)
    (harmed : t.foc.measureInductanceNow = s.foc.measureInductanceNow)
    (hpulse : t.foc.inductanceState = s.foc.inductanceState) : s.Keeps t where
  settings := congrArg Drive.settings hconf
  timeoutMsec := htimeout
  timeoutBrakeCurrent := hbrake
  allowsZero := by
    rw [hconf]
    exact id
  armed := harmed
  pulse := hpulse

theorem Keeps.trans (h : s.Keeps t) (h' : t.Keeps u) : s.Keeps u :=
  ⟨h.toKeepsSettings.trans h'.toKeepsSettings, h'.armed.trans h.armed, h'.pulse.trans h.pulse⟩

theorem Keeps.after (h' : t.Keeps u) (h : s.Keeps t) : s.Keeps u := h.trans h'

theorem motorType_of_settings {c c' : McConfiguration} (h : Drive.settings c' = Drive.settings c) :
    c'.motorType = c.motorType :=
  show (Drive.settings c').motorType = (Drive.settings c).motorType by rw [h]

theorem KeepsSettings.motorType (h : s.KeepsSettings t) : t.motorType = s.motorType :=
  congrArg MotorType.ofCode (motorType_of_settings h.settings)

theorem ccMinCurrent_of_settings {c c' : McConfiguration}
    (h : Drive.settings c' = Drive.settings c) : c'.ccMinCurrent = c.ccMinCurrent :=
  show (Drive.settings c').ccMinCurrent = (Drive.settings c).ccMinCurrent by rw [h]

/-! ## The drivers -/

variable (s)

theorem keeps_commutate : s.Keeps s.commutate := by
  unfold commutate
  split <;> exact .of_eq rfl rfl rfl rfl rfl

theorem keeps_startRunning : s.Keeps s.startRunning := by
  unfold startRunning
  repeat' split
  all_goals first
    | exact .of_eq rfl rfl rfl rfl rfl
    | exact Keeps.after (keeps_commutate _) (.of_eq rfl rfl rfl rfl rfl)

theorem keeps_setDutyCycleLl (dutyCycle : Rat) : s.Keeps (s.setDutyCycleLl dutyCycle) := by
  unfold setDutyCycleLl
  dsimp only
  repeat' split
  all_goals first
    | exact .of_eq rfl rfl rfl rfl rfl
    | exact Keeps.after (keeps_startRunning _) (.of_eq rfl rfl rfl rfl rfl)

theorem keeps_brakeOrRampDown : s.Keeps s.brakeOrRampDown := by
  unfold brakeOrRampDown
  repeat' split
  all_goals exact .of_eq rfl rfl rfl rfl rfl

theorem keeps_setDutyCycleHl (dutyCycle : Rat) : s.Keeps (s.setDutyCycleHl dutyCycle) := by
  unfold setDutyCycleHl
  dsimp only
  split
  · exact .of_eq rfl rfl rfl rfl rfl
  · split
    · exact .of_eq rfl rfl rfl rfl rfl
    · split
      · exact Keeps.after (keeps_setDutyCycleLl _ _) (.of_eq rfl rfl rfl rfl rfl)
      · exact Keeps.after (keeps_brakeOrRampDown _) (.of_eq rfl rfl rfl rfl rfl)

theorem keeps_mcpwmSetDuty (dutyCycle : Rat) : s.Keeps (s.mcpwmSetDuty dutyCycle) :=
  Keeps.after (keeps_setDutyCycleHl _ dutyCycle) (.of_eq rfl rfl rfl rfl rfl)

theorem keeps_mcpwmSetDutyNoramp (dutyCycle : Rat) : s.Keeps (s.mcpwmSetDutyNoramp dutyCycle) := by
  unfold mcpwmSetDutyNoramp
  dsimp only
  split
  · exact Keeps.after (keeps_setDutyCycleHl _ dutyCycle) (.of_eq rfl rfl rfl rfl rfl)
  · exact Keeps.after (keeps_setDutyCycleLl _ dutyCycle) (.of_eq rfl rfl rfl rfl rfl)

theorem keeps_mcpwmSetPidPos (pos : Rat) : s.Keeps (s.mcpwmSetPidPos pos) := by
  unfold mcpwmSetPidPos
  dsimp only
  split
  · exact Keeps.after (keeps_setDutyCycleHl _ _) (.of_eq rfl rfl rfl rfl rfl)
  · exact .of_eq rfl rfl rfl rfl rfl

theorem keeps_mcpwmSetCurrent (current : Rat) : s.Keeps (s.mcpwmSetCurrent current) := by
  unfold mcpwmSetCurrent
  dsimp only
  split
  · exact .of_eq rfl rfl rfl rfl rfl
  · split
    · exact Keeps.after (keeps_setDutyCycleHl _ _) (.of_eq rfl rfl rfl rfl rfl)
    · exact .of_eq rfl rfl rfl rfl rfl

theorem keeps_mcpwmSetBrakeCurrent (current : Rat) :
    s.Keeps (s.mcpwmSetBrakeCurrent current) := by
  unfold mcpwmSetBrakeCurrent
  dsimp only
  split
  · exact .of_eq rfl rfl rfl rfl rfl
  · split
    · exact Keeps.after (keeps_brakeOrRampDown _) (.of_eq rfl rfl rfl rfl rfl)
    · exact .of_eq rfl rfl rfl rfl rfl

theorem keeps_focControlCurrent (mode : ControlMode) (current : Rat) :
    s.Keeps (s.focControlCurrent mode current) := by
  unfold focControlCurrent
  split <;> exact .of_eq rfl rfl rfl rfl rfl

/-! ## The interface -/

theorem keeps_dispatch {mcpwm foc : Motor → Motor} (hmcpwm : ∀ s : Motor, s.Keeps (mcpwm s))
    (hfoc : ∀ s : Motor, s.Keeps (foc s)) : s.Keeps (s.dispatch mcpwm foc) := by
  unfold dispatch
  split
  · exact hmcpwm s
  · exact hmcpwm s
  · exact hfoc s
  · exact .refl s

theorem keeps_tryInput : s.Keeps s.mcInterfaceTryInput.1 := by
  unfold mcInterfaceTryInput
  dsimp only
  repeat' split
  all_goals exact .of_eq rfl rfl rfl rfl rfl

theorem keeps_command {mcpwm foc : Motor → Motor} (hmcpwm : ∀ s : Motor, s.Keeps (mcpwm s))
    (hfoc : ∀ s : Motor, s.Keeps (foc s)) : s.Keeps (s.command mcpwm foc) := by
  unfold command
  split
  · exact s.keeps_tryInput
  · exact s.keeps_tryInput.trans (keeps_dispatch _ hmcpwm hfoc)

theorem keeps_setDuty (dutyCycle : Rat) : s.Keeps (s.mcInterfaceSetDuty dutyCycle) :=
  s.keeps_command (keeps_mcpwmSetDuty · dutyCycle) fun _ => .of_eq rfl rfl rfl rfl rfl

theorem keeps_setDutyNoramp (dutyCycle : Rat) : s.Keeps (s.mcInterfaceSetDutyNoramp dutyCycle) :=
  s.keeps_command (keeps_mcpwmSetDutyNoramp · dutyCycle) fun _ => .of_eq rfl rfl rfl rfl rfl

theorem keeps_setPidSpeed (rpm : Rat) : s.Keeps (s.mcInterfaceSetPidSpeed rpm) :=
  s.keeps_command (fun _ => .of_eq rfl rfl rfl rfl rfl)
    fun _ => .of_eq rfl rfl rfl rfl rfl

theorem keeps_setPidPos (pos : Rat) : s.Keeps (s.mcInterfaceSetPidPos pos) := by
  unfold mcInterfaceSetPidPos
  split
  · exact s.keeps_tryInput
  · refine s.keeps_tryInput.trans
      (Keeps.after (keeps_dispatch _ ?_ ?_) (.of_eq rfl rfl rfl rfl rfl))
    · exact (keeps_mcpwmSetPidPos · pos)
    · exact fun _ => .of_eq rfl rfl rfl rfl rfl

theorem keeps_setCurrent (current : Rat) : s.Keeps (s.mcInterfaceSetCurrent current) :=
  s.keeps_command (keeps_mcpwmSetCurrent · current) (keeps_focControlCurrent · .current current)

theorem keeps_setBrakeCurrent (current : Rat) : s.Keeps (s.mcInterfaceSetBrakeCurrent current) :=
  s.keeps_command (keeps_mcpwmSetBrakeCurrent · current)
    (keeps_focControlCurrent · .currentBrake current)

theorem keeps_mcpwmSetDetect : s.Keeps s.mcpwmSetDetect := by
  unfold mcpwmSetDetect
  split
  · exact s.keeps_tryInput
  · exact s.keeps_tryInput.trans (.of_eq rfl rfl rfl rfl rfl)

theorem keeps_faultStop (fault : FaultCode) : s.Keeps (s.mcInterfaceFaultStop fault) := by
  have hmcpwm : ∀ s : Motor, s.Keeps s.mcpwmStopPwm := fun _ => .of_eq rfl rfl rfl rfl rfl
  have hfoc : ∀ s : Motor, s.Keeps s.mcpwmFocStopPwm := (keeps_focControlCurrent · .current 0)
  have hstop := keeps_dispatch { s with ignoreIterations := s.conf.mFaultStopTimeMs } hmcpwm hfoc
  refine Keeps.after (hstop.trans ?_) (.of_eq rfl rfl rfl rfl rfl)
  exact .of_eq rfl rfl rfl rfl rfl

/-! ## Interrupts and threads -/

theorem keeps_andThen {t : Motor × List Motor} {next : Motor → Motor × List Motor}
    (h : s.Keeps t.1) (hnext : ∀ s : Motor, s.Keeps (next s).1) : s.Keeps (andThen t next).1 :=
  h.trans (hnext t.1)

/-- Between the two temperatures the limit falls to zero and not below it. -/
theorem utilsMap_nonneg {temp start stop maxc : Rat} (hstart : start ≤ temp) (hstop : temp ≤ stop)
    (hmaxc : 0 ≤ maxc) : 0 ≤ utilsMap temp start stop maxc 0 := by
  have hwidth : 0 ≤ stop - start := sub_nonneg.2 (hstart.trans hstop)
  have hpart : (temp - start) * maxc ≤ maxc * (stop - start) := by
    rw [mul_comm maxc]
    exact mul_le_mul_of_nonneg_right (sub_le_sub_right hstop start) hmaxc
  have hdiv : (temp - start) * maxc / (stop - start) ≤ maxc :=
    div_le_of_le_mul₀ hwidth hmaxc hpart
  have hmap : utilsMap temp start stop maxc 0 = maxc - (temp - start) * maxc / (stop - start) := by
    unfold utilsMap
    rw [zero_sub, mul_neg, neg_div, neg_add_eq_sub]
  rw [hmap]
  exact sub_nonneg.2 hdiv

/-- A limit that is lowered to `maxc` still leaves room for zero. -/
theorem allowsZero_lower {c : McConfiguration} (h : AllowsZero c) {maxc : Rat} (hmaxc : 0 ≤ maxc) :
    AllowsZero { c with
      loCurrentMax := if |c.lCurrentMax| > maxc then sign c.lCurrentMax * maxc else c.loCurrentMax
      loCurrentMin := if |c.lCurrentMin| > maxc then sign c.lCurrentMin * maxc
        else c.loCurrentMin } where
  lCurrentMin := h.lCurrentMin
  lCurrentMax := h.lCurrentMax
  loCurrentMin := by
    dsimp only
    split
    next hlower =>
      have hneg : c.lCurrentMin < 0 := by
        refine lt_of_le_of_ne h.lCurrentMin fun hzero => ?_
        rw [hzero, abs_zero] at hlower
        exact absurd hlower (not_lt.2 hmaxc)
      rw [sign, if_pos hneg, neg_one_mul]
      exact neg_nonpos.2 hmaxc
    next => exact h.loCurrentMin
  loCurrentMax := by
    dsimp only
    split
    next =>
      rw [sign, if_neg (not_lt.2 h.lCurrentMax), one_mul]
      exact hmaxc
    next => exact h.loCurrentMax

theorem keeps_temperatureLimits (temp : Rat) : s.Keeps (s.temperatureLimits temp).1 := by
  unfold temperatureLimits
  dsimp only
  split
  · refine ⟨⟨rfl, rfl, rfl, fun h => ?_⟩, rfl, rfl⟩
    exact ⟨h.lCurrentMin, h.lCurrentMax, h.lCurrentMin, h.lCurrentMax⟩
  · split
    · refine Keeps.after (keeps_faultStop _ _) ⟨⟨rfl, rfl, rfl, fun h => ?_⟩, rfl, rfl⟩
      exact ⟨h.lCurrentMin, h.lCurrentMax, le_rfl, le_rfl⟩
    next hstart hstop =>
      refine ⟨⟨rfl, rfl, rfl, fun h => allowsZero_lower h ?_⟩, rfl, rfl⟩
      refine utilsMap_nonneg (not_lt.1 hstart) (not_lt.1 hstop) ?_
      split
      · exact abs_nonneg _
      · exact abs_nonneg _

theorem keeps_batteryLimits (vIn : Rat) : s.Keeps (s.batteryLimits vIn) := by
  refine ⟨⟨rfl, rfl, rfl, fun h => ?_⟩, rfl, rfl⟩
  exact ⟨h.lCurrentMin, h.lCurrentMax, h.loCurrentMin, h.loCurrentMax⟩

theorem keeps_updateOverrideLimits (temp vIn : Rat) :
    s.Keeps (s.updateOverrideLimits temp vIn).1 :=
  s.keeps_andThen (s.keeps_temperatureLimits temp) (keeps_batteryLimits · vIn)

theorem keeps_applyConfiguration (temp vIn : Rat) : s.Keeps (s.applyConfiguration temp vIn).1 := by
  refine s.keeps_andThen (s.keeps_updateOverrideLimits temp vIn) fun s => s.keeps_dispatch ?_ ?_
  · exact fun _ => .of_eq rfl rfl rfl rfl rfl
  · exact fun _ => .of_eq rfl rfl rfl rfl rfl

theorem keeps_checkVoltage (inputVoltage : Rat) : s.Keeps (s.checkVoltage inputVoltage).1 := by
  unfold checkVoltage
  dsimp only
  split
  · split
    · exact Keeps.after (keeps_faultStop _ _) (.of_eq rfl rfl rfl rfl rfl)
    · exact .of_eq rfl rfl rfl rfl rfl
  · exact .of_eq rfl rfl rfl rfl rfl

theorem keeps_checkCurrent (sample : AdcSample) : s.Keeps (s.checkCurrent sample).1 := by
  unfold checkCurrent
  extract_lets current
  split
  · exact s.keeps_faultStop _
  · exact .refl s

theorem keeps_mcTimerIsr (sample : AdcSample) : s.Keeps (s.mcInterfaceMcTimerIsr sample).1 :=
  s.keeps_andThen (s.keeps_checkVoltage _) (keeps_checkCurrent · sample)

theorem keeps_mcpwmControl (sample : AdcSample) : s.Keeps (s.mcpwmControl sample) := by
  unfold mcpwmControl
  extract_lets s'
  have hcommutate : s.Keeps s' := by
    unfold s'
    split
    · exact s.keeps_commutate
    · exact .refl s
  refine hcommutate.trans ?_
  split
  · split
    · exact Keeps.after (keeps_setDutyCycleLl _ _) (.of_eq rfl rfl rfl rfl rfl)
    · exact .refl s'
  · exact .refl s'

theorem keeps_mcpwmAdcIntHandler (sample : AdcSample) :
    s.Keeps (s.mcpwmAdcIntHandler sample).1 := by
  refine s.keeps_andThen ((s.keeps_mcpwmControl sample).trans (keeps_mcTimerIsr _ sample)) ?_
  intro s
  unfold mcpwmRunPidControlPos
  repeat' split
  all_goals exact .of_eq rfl rfl rfl rfl rfl

theorem keeps_mcpwmAdcInjIntHandler (sample : AdcSample) :
    s.Keeps (s.mcpwmAdcInjIntHandler sample) := by
  unfold mcpwmAdcInjIntHandler mcpwmDetect
  dsimp only
  repeat' split
  all_goals exact .of_eq rfl rfl rfl rfl rfl

theorem keeps_inductancePulse : s.KeepsSettings s.inductancePulse := by
  unfold inductancePulse
  repeat' split
  all_goals exact ⟨rfl, rfl, rfl, id⟩

theorem keeps_focControl (sample : AdcSample) : s.Keeps (s.focControl sample) := by
  unfold focControl
  dsimp only
  repeat' split
  all_goals exact .of_eq rfl rfl rfl rfl rfl

/-- An inductance measurement is carried on only if it is armed. -/
theorem keeps_adcInjIntHandler {s : Motor} (h : s.motorType = .foc → ¬s.foc.measureInductanceNow)
    (sample : AdcSample) : s.Keeps (s.mcInterfaceAdcInjIntHandler sample).1 := by
  unfold mcInterfaceAdcInjIntHandler mcpwmFocAdcInjIntHandler
  split
  next => exact s.keeps_mcpwmAdcInjIntHandler sample
  next => exact s.keeps_mcpwmAdcInjIntHandler sample
  next htype =>
    rw [if_neg (h htype)]
    exact (s.keeps_focControl sample).trans (keeps_mcTimerIsr _ sample)
  next => exact .refl s

theorem adcInjIntHandler_of_armed {s : Motor} (htype : s.motorType = .foc)
    (harmed : s.foc.measureInductanceNow) (sample : AdcSample) :
    s.mcInterfaceAdcInjIntHandler sample = s.inductancePulse.quiet := by
  unfold mcInterfaceAdcInjIntHandler mcpwmFocAdcInjIntHandler
  rw [htype]
  exact if_pos harmed

theorem keepsSettings_adcInjIntHandler (sample : AdcSample) :
    s.KeepsSettings (s.mcInterfaceAdcInjIntHandler sample).1 := by
  by_cases h : s.motorType = .foc ∧ s.foc.measureInductanceNow
  · rw [adcInjIntHandler_of_armed h.1 h.2]
    exact s.keeps_inductancePulse
  · exact (keeps_adcInjIntHandler (fun htype harmed => h ⟨htype, harmed⟩) sample).toKeepsSettings

theorem keeps_countDown (drvFault : Bool) : s.Keeps (s.countDown drvFault) := by
  unfold countDown
  repeat' split
  all_goals exact .of_eq rfl rfl rfl rfl rfl

theorem keeps_timerThread (drvFault drvFault' : Bool) (temp vIn : Rat) :
    s.Keeps (s.timerThread drvFault drvFault' temp vIn).1 := by
  refine s.keeps_andThen ?_ fun s =>
    (s.keeps_countDown drvFault').trans (keeps_updateOverrideLimits _ temp vIn)
  split
  · exact s.keeps_faultStop _
  · exact .refl s

theorem keeps_rpmThread (rpmNow output : Rat) : s.Keeps (s.rpmThread rpmNow output) := by
  unfold rpmThread mcpwmRunPidControlSpeed
  split
  · exact .refl s
  · split
    · exact .of_eq rfl rfl rfl rfl rfl
    · split
      · exact Keeps.after (keeps_mcpwmSetDuty _ 0) (.of_eq rfl rfl rfl rfl rfl)
      · exact Keeps.after (keeps_setDutyCycleHl _ _) (.of_eq rfl rfl rfl rfl rfl)

theorem keeps_timeoutThread (elapsed : Bool) : s.Keeps (s.timeoutThread elapsed) := by
  unfold timeoutThread
  split
  · have hbrake : s.Keeps
        ({ s with lockEnabled := false }.mcInterfaceSetBrakeCurrent s.timeoutBrakeCurrent) :=
      Keeps.after (keeps_setBrakeCurrent _ _) (.of_eq rfl rfl rfl rfl rfl)
    exact hbrake.trans (.of_eq rfl rfl rfl rfl rfl)
  · exact .of_eq rfl rfl rfl rfl rfl

end Motor

/-- The steps that install settings. -/
def Step.Configures : Step → Prop
  | setConfiguration _ _ _ | switchDriver _ | timeoutConfigure _ _ | setEncoder _ _ _
  | setCurrentLoop _ _ _ => True
  | _ => False

/-- The interrupts and the periodic threads. -/
def Step.IsEvent : Step → Prop
  | adcInt _ | adcInjInt _ | timerThread _ _ _ _ | rpmThread _ _ | mcpwmTimerThread _ _
  | focTimerThread _ | timeoutThread _ => True
  | _ => False

/-- An inductance measurement waits for the interrupt handler. -/
def Motor.Armed (s : Motor) : Prop := s.motorType = .foc ∧ s.foc.measureInductanceNow

/-- The step arms an inductance measurement or carries it on. -/
def Step.Measures (s : Motor) : Step → Prop
  | armInductance => True
  | adcInjInt _ => s.Armed
  | _ => False

/-- Every other step keeps the settings, the timeout and the measurement. -/
theorem step_keeps {s : Motor} {step : Step} (h : ¬step.Configures) (hs : ¬step.Measures s) :
    s.Keeps (motor.step s step).1 := by
  cases step with
  | setDuty dutyCycle => exact s.keeps_setDuty dutyCycle
  | setDutyNoramp dutyCycle => exact s.keeps_setDutyNoramp dutyCycle
  | setPidSpeed rpm => exact s.keeps_setPidSpeed rpm
  | setPidPos pos => exact s.keeps_setPidPos pos
  | setCurrent current => exact s.keeps_setCurrent current
  | setBrakeCurrent current => exact s.keeps_setBrakeCurrent current
  | setDetect => exact s.keeps_mcpwmSetDetect
  | lock | unlock | lockOverrideOnce | overridePhase _ _ | setPhaseNowOverride _ | endOverride
  | prepareInductance _ => exact .of_eq rfl rfl rfl rfl rfl
  | setConfiguration _ _ _ | switchDriver _ | timeoutConfigure _ _ | setEncoder _ _ _
  | setCurrentLoop _ _ _ => exact absurd trivial h
  | armInductance => exact absurd trivial hs
  | applyConfiguration temp vIn => exact s.keeps_applyConfiguration temp vIn
  | adcInt sample =>
      simp only [motor, Motor.step]
      split
      next => exact .refl s
      next => exact s.keeps_mcpwmAdcIntHandler sample
  | adcInjInt sample =>
      exact Motor.keeps_adcInjIntHandler (fun htype harmed => hs ⟨htype, harmed⟩) sample
  | timerThread drvFault drvFault' temp vIn => exact s.keeps_timerThread drvFault drvFault' temp vIn
  | rpmThread rpmNow output => exact s.keeps_rpmThread rpmNow output
  | mcpwmTimerThread direction dutycycleNow =>
      simp only [motor, Motor.step, Motor.quiet, Motor.mcpwmTimerThread]
      split <;> exact .of_eq rfl rfl rfl rfl rfl
  | focTimerThread output =>
      simp only [motor, Motor.step, Motor.quiet, Motor.focTimerThread]
      split <;> exact .of_eq rfl rfl rfl rfl rfl
  | timeoutThread elapsed => exact s.keeps_timeoutThread elapsed

/-- An inductance measurement keeps the settings and the timeout, too. -/
theorem step_keepsSettings {step : Step} (h : ¬step.Configures) (s : Motor) :
    s.KeepsSettings (motor.step s step).1 := by
  by_cases hs : step.Measures s
  · cases step with
    | armInductance => exact ⟨rfl, rfl, rfl, id⟩
    | adcInjInt sample => exact s.keepsSettings_adcInjIntHandler sample
    | _ => exact hs.elim
  · exact (step_keeps h hs).toKeepsSettings

theorem not_configures_of_isEvent {step : Step} (h : step.IsEvent) : ¬step.Configures := by
  cases step <;> first | exact id | exact h.elim

theorem Motor.Keeps.not_armed {s t : Motor} (h : s.Keeps t) (hs : ¬s.Armed) : ¬t.Armed := by
  unfold Motor.Armed at *
  rwa [h.motorType, h.armed]

end Bldc.Drive
