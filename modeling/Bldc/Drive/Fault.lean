import Bldc.Drive.Frame

/-!
# A fault stops the motor

`mc_interface_fault_stop` switches the driver off and sets the time for which
`mc_interface_try_input` refuses commands. With the field oriented driver it asks
for a current of zero, which is a stop only if it is below `cc_min_current`; and the
measurements of that driver do not ask `mc_interface_try_input`.
-/

namespace Bldc.Drive

open Flash Conf Foundation

/-- With this configuration `mc_interface_fault_stop` stops the motor. -/
def StopsMotor (c : McConfiguration) : Prop :=
  match MotorType.ofCode c.motorType with
  | .bldc | .dc => True
  | .foc => 0 < c.ccMinCurrent
  | .other => False

theorem StopsMotor.congr {c c' : McConfiguration} (h : settings c' = settings c)
    (hc : StopsMotor c) : StopsMotor c' := by
  unfold StopsMotor at *
  rw [Motor.motorType_of_settings h, Motor.ccMinCurrent_of_settings h]
  exact hc

namespace Motor

/-- The motor is off and its outputs are disabled. -/
structure Stopped (s : Motor) : Prop where
  state : s.mcInterfaceGetState = .off
  output : s.pwmOutput = false

/-- The driver in use is off, and none of its threads would start it. -/
structure Halted (s : Motor) : Prop where
  foc : s.motorType = .foc → s.foc.state = .off
  mcpwm : s.motorType ≠ .foc → s.mcpwm.state = .off ∧ s.mcpwm.controlMode = .none
  output : s.pwmOutput = false

variable {s t : Motor}

theorem Halted.getState (h : s.Halted) : s.mcInterfaceGetState = .off := by
  unfold mcInterfaceGetState
  split
  next htype => exact (h.mcpwm (by simp [htype])).1
  next htype => exact (h.mcpwm (by simp [htype])).1
  next htype => exact h.foc htype
  next => rfl

theorem Halted.stopped (h : s.Halted) : s.Stopped := ⟨h.getState, h.output⟩

/-- A change that does not concern the driver in use. -/
theorem Halted.congr (h : s.Halted) (htype : t.motorType = s.motorType)
    (hfoc : t.foc.state = s.foc.state) (hmcpwm : t.mcpwm.state = s.mcpwm.state)
    (hmode : t.mcpwm.controlMode = s.mcpwm.controlMode) (houtput : t.pwmOutput = s.pwmOutput) :
    t.Halted where
  foc := by
    rw [htype, hfoc]
    exact h.foc
  mcpwm := by
    rw [htype, hmcpwm, hmode]
    exact h.mcpwm
  output := by
    rw [houtput]
    exact h.output

/-- Each stop halts the motor, and after a stop, or if it was halted before, it is
halted in the end. -/
structure Settles (before : Prop) (t : Motor × List Motor) : Prop where
  stops : ∀ stop ∈ t.2, stop.Halted
  final : before ∨ t.2 ≠ [] → t.1.Halted

variable {before : Prop}

end Motor

/-! ## Runs -/

/-- The configuration in force when the step may stop the motor. -/
def Step.faultConf (s : Motor) : Step → McConfiguration
  | setConfiguration c _ _ => c
  | _ => s.conf

/-- If the step stops the motor, the configuration is one with which it can. -/
def FaultStops (s : Motor) (step : Step) : Prop :=
  (motor.step s step).2 ≠ [] → StopsMotor (step.faultConf s)

/-- The step does not start a measurement behind the back of
`mc_interface_try_input`. -/
def NoMeasurement (s : Motor) : Step → Prop
  | .overridePhase _ _ => False
  | .adcInjInt _ => s.motorType = .foc → s.foc.measureInductanceNow → s.foc.inductanceState ≠ 0
  | _ => True

/-- Whatever stops the motor can, and no measurement starts while the fault is
held. -/
structure Undisturbed (s : Motor) (steps : List Step) : Prop where
  faultStops : motor.Always FaultStops s steps
  noMeasurement : ∀ past step future, steps = past ++ step :: future →
    (motor.step (motor.run s past).1 step).2 ≠ [] →
      motor.Always (fun s step => s.ignoreIterations ≠ 0 → NoMeasurement s step)
        (motor.run s (past ++ [step])).1 future

/-- A motor that runs with the configuration under current control. -/
def runningMotor (c : McConfiguration) : Motor where
  conf := c
  faultNow := .none
  ignoreIterations := 0
  lockEnabled := false
  lockOverrideOnce := false
  positionSet := 0
  wrongVoltageIterations := 0
  mcpwm :=
    { state := .running
      controlMode := .current
      dutycycleSet := 0
      dutycycleNow := 0
      currentSet := 5
      speedPidSetRpm := 0
      posPidSetPos := 0
      rpmNow := 0
      direction := true
      sensorlessNow := true
      lastCurrentSampleFiltered := 0
      detectNow := 0 }
  foc :=
    { state := .running
      controlMode := .current
      dutyCycleSet := 0
      idSet := 0
      iqSet := 5
      speedPidSetRpm := 0
      posPidSet := 0
      outputOn := true
      phaseOverride := false
      phaseNowOverride := 0
      measureInductanceNow := false
      measureInductanceDuty := 0
      inductanceState := 0 }
  pwmOutput := true
  timeoutMsec := 1000
  timeoutBrakeCurrent := 0
  hasTimeout := false

end Bldc.Drive
