import Bldc.Drive.Restore

/-!
# The inductance measurement

The routine arms a pulse and waits for the interrupt handler to finish it, which
takes ten interrupts. It gives up after 5001 milliseconds, and then the pulse stays
armed.
-/

namespace Bldc.Drive

open Flash Conf Foundation Thread

/-! ## Pulses -/

def Step.isAdcInj : Step → Bool
  | adcInjInt _ => true
  | _ => false

/-- How many of the events carry an armed measurement on. -/
def interrupts (events : List Step) : Nat := events.countP Step.isAdcInj

/-- So many interrupts finish the pulse. -/
def Finishes (pulse interrupts : Nat) : Prop := pulse ≤ 9 ∧ 10 ≤ pulse + interrupts

instance (pulse interrupts : Nat) : Decidable (Finishes pulse interrupts) :=
  inferInstanceAs (Decidable (_ ∧ _))

namespace Motor

variable {s : Motor}

end Motor

/-- Within so many sleeps the interrupts finish all the pulses that are armed one after
the other, or at least the one that is pending in the last sleep. -/
def Served : (sleeps samples pulse : Nat) → Stream' (List Step) → Prop
  | _, 0, _, _ => True
  | 0, _ + 1, _, _ => False
  | sleeps + 1, samples + 1, pulse, wakes =>
      if Finishes pulse (interrupts wakes.head) then
        sleeps = 0 ∨ Served sleeps samples 0 wakes.tail
      else Served sleeps (samples + 1) (pulse + interrupts wakes.head) wakes.tail

/-! ## The loops -/

/-- After a wait for a pulse. Either it is finished, and it depends on the milliseconds
that are left whether the pulses that are still to come are served; or time is up. -/
structure Waited (served : Prop) (samples toCnt : Nat) (t : Motor) (w : World Readings Step) :
    Prop where
  type : t.motorType = .foc
  only : w.Only Step.IsEvent
  bound : toCnt ≤ 5001
  pulse : ¬t.Armed → t.foc.inductanceState = 0
  finished : ¬t.Armed → (served ↔ toCnt = 5001 ∨ Served (5001 - toCnt) samples 0 w.wakes)
  timeUp : t.Armed → toCnt = 5001 ∧ ¬served

/-- To ask for no current is to release the motor. -/
def ReleasesAtZero (c : McConfiguration) : Prop := 0 < c.ccMinCurrent ∨ AllowsZero c

theorem Motor.KeepsSettings.releasesAtZero {s t : Motor} (h : s.KeepsSettings t)
    (hs : ReleasesAtZero s.conf) : ReleasesAtZero t.conf := by
  refine hs.imp (fun hcurrent => ?_) h.allowsZero
  rwa [Motor.ccMinCurrent_of_settings h.settings]

/-- The field oriented driver is off or controls a current of zero. -/
def FocReleased (foc : McpwmFoc) : Prop :=
  foc.state = .off ∨ (foc.controlMode = .current ∨ foc.controlMode = .currentBrake) ∧ foc.iqSet = 0

theorem utilsTruncateNumber_zero {c : McConfiguration} (h : AllowsZero c) :
    utilsTruncateNumber 0 c.loCurrentMin c.loCurrentMax = 0 := by
  simp [utilsTruncateNumber, not_lt.2 h.loCurrentMax, not_lt.2 h.loCurrentMin]

theorem focReleased_controlCurrent {s : Motor} (hs : ReleasesAtZero s.conf) {mode : ControlMode}
    (hmode : mode = .current ∨ mode = .currentBrake) :
    FocReleased (s.focControlCurrent mode 0).foc := by
  unfold Motor.focControlCurrent
  split
  next => exact .inl rfl
  next hlarge =>
    rw [abs_zero] at hlarge
    exact .inr ⟨hmode, utilsTruncateNumber_zero (hs.resolve_left hlarge)⟩

theorem focReleased_faultStop {s : Motor} (hs : ReleasesAtZero s.conf) (hfoc : FocReleased s.foc)
    (fault : FaultCode) : FocReleased (s.mcInterfaceFaultStop fault).foc := by
  unfold Motor.mcInterfaceFaultStop Motor.dispatch
  dsimp only
  split
  · exact hfoc
  · exact hfoc
  · apply focReleased_controlCurrent
    · exact hs
    · exact .inl rfl
  · exact hfoc

theorem focReleased_temperatureLimits {s : Motor} (hs : ReleasesAtZero s.conf)
    (hfoc : FocReleased s.foc) (temp : Rat) : FocReleased (s.temperatureLimits temp).1.foc := by
  unfold Motor.temperatureLimits
  dsimp only
  split
  next => exact hfoc
  next =>
    split
    next =>
      apply focReleased_faultStop
      · refine hs.imp_right fun h => ?_
        exact ⟨h.lCurrentMin, h.lCurrentMax, le_rfl, le_rfl⟩
      · exact hfoc
    next => exact hfoc

theorem focReleased_mcTimerIsr {s : Motor} (hs : ReleasesAtZero s.conf) (hfoc : FocReleased s.foc)
    (sample : AdcSample) : FocReleased (s.mcInterfaceMcTimerIsr sample).1.foc := by
  have hvoltage : FocReleased (s.checkVoltage sample.inputVoltage).1.foc := by
    unfold Motor.checkVoltage
    dsimp only
    split
    next =>
      split
      next =>
        apply focReleased_faultStop
        · exact hs
        · exact hfoc
      next => exact hfoc
    next => exact hfoc
  have hs' := (s.keeps_checkVoltage sample.inputVoltage).releasesAtZero hs
  show FocReleased ((s.checkVoltage sample.inputVoltage).1.checkCurrent sample).1.foc
  unfold Motor.checkCurrent
  extract_lets current
  split
  next => exact focReleased_faultStop hs' hvoltage _
  next => exact hvoltage

theorem focReleased_focControl {s : Motor} (hfoc : FocReleased s.foc) (sample : AdcSample) :
    FocReleased (s.focControl sample).foc := by
  unfold Motor.focControl
  split
  next hrunning =>
    obtain ⟨hmode, hzero⟩ := hfoc.resolve_left (by simp [hrunning])
    have hpos : s.foc.controlMode ≠ .pos := by
      rcases hmode with hmode | hmode <;> simp [hmode]
    extract_lets s'
    have hs' : FocReleased s'.foc ∧ s'.foc.controlMode = s.foc.controlMode := by
      unfold s'
      split
      next => exact ⟨hfoc, rfl⟩
      next => exact ⟨hfoc, rfl⟩
    split
    next =>
      rw [if_neg (by simpa [hs'.2] using hpos)]
      exact hs'.1
    next => exact hs'.1
  next => exact hfoc

theorem focReleased_inductancePulse {s : Motor} (hfoc : FocReleased s.foc) :
    FocReleased s.inductancePulse.foc := by
  unfold Motor.inductancePulse
  split
  next => exact hfoc
  next =>
    split
    next => exact hfoc
    next => exact hfoc

theorem focReleased_timeoutThread {s : Motor} (htype : s.motorType = .foc)
    (hs : ReleasesAtZero s.conf) (hbrake : s.timeoutBrakeCurrent = 0)
    (hfoc : FocReleased s.foc) (elapsed : Bool) : FocReleased (s.timeoutThread elapsed).foc := by
  unfold Motor.timeoutThread
  split
  next =>
    set s' : Motor := { s with lockEnabled := false }
    have htry : FocReleased s'.mcInterfaceTryInput.1.foc := by
      unfold Motor.mcInterfaceTryInput
      dsimp only
      repeat' split
      all_goals exact hfoc
    have hs' : ReleasesAtZero s'.mcInterfaceTryInput.1.conf :=
      s'.keeps_tryInput.releasesAtZero hs
    have htype' : s'.mcInterfaceTryInput.1.motorType = .foc :=
      s'.keeps_tryInput.motorType.trans htype
    show FocReleased (s'.mcInterfaceSetBrakeCurrent s.timeoutBrakeCurrent).foc
    rw [hbrake]
    unfold Motor.mcInterfaceSetBrakeCurrent Motor.command Motor.dispatch
    split
    next => exact htry
    next =>
      rw [htype']
      exact focReleased_controlCurrent hs' (.inr rfl)
  next => exact hfoc

theorem focReleased_timerThread {s : Motor} (hs : ReleasesAtZero s.conf) (hfoc : FocReleased s.foc)
    (drvFault drvFault' : Bool) (temp vIn : Rat) :
    FocReleased (s.timerThread drvFault drvFault' temp vIn).1.foc := by
  set s' := (if drvFault then s.stopping .drv8302 else s.quiet).1 with hs'
  have hfault : FocReleased s'.foc ∧ ReleasesAtZero s'.conf := by
    rw [hs']
    split
    next => exact ⟨focReleased_faultStop hs hfoc _, (s.keeps_faultStop _).releasesAtZero hs⟩
    next => exact ⟨hfoc, hs⟩
  have hcount : FocReleased (s'.countDown drvFault').foc := by
    unfold Motor.countDown
    repeat' split
    all_goals exact hfault.1
  have hcount' := (s'.keeps_countDown drvFault').releasesAtZero hfault.2
  exact focReleased_temperatureLimits hcount' hcount temp

/-- Nothing drives the motor, and nothing will. -/
structure Resting (s : Motor) : Prop where
  type : s.motorType = .foc
  released : FocReleased s.foc
  releases : ReleasesAtZero s.conf
  brake : s.timeoutBrakeCurrent = 0

theorem Resting.event {s : Motor} (hs : Resting s) {event : Step} (h : event.IsEvent) :
    Resting (motor.step s event).1 := by
  have hkeeps := step_keepsSettings (not_configures_of_isEvent h) s
  refine ⟨hkeeps.motorType.trans hs.type, ?_, hkeeps.releasesAtZero hs.releases,
    hkeeps.timeoutBrakeCurrent.trans hs.brake⟩
  cases event with
  | adcInt sample =>
      simp only [motor, Motor.step, hs.type, if_true]
      exact hs.released
  | adcInjInt sample =>
      by_cases harmed : s.foc.measureInductanceNow
      · have hpulse := Motor.adcInjIntHandler_of_armed hs.type harmed sample
        simp only [motor, Motor.step, hpulse]
        exact focReleased_inductancePulse hs.released
      · have hcontrol := s.keeps_focControl sample
        simp only [motor, Motor.step, Motor.mcInterfaceAdcInjIntHandler, hs.type,
          Motor.mcpwmFocAdcInjIntHandler, if_neg harmed]
        exact focReleased_mcTimerIsr (hcontrol.releasesAtZero hs.releases)
          (focReleased_focControl hs.released sample) sample
  | timerThread drvFault drvFault' temp vIn =>
      exact focReleased_timerThread hs.releases hs.released drvFault drvFault' temp vIn
  | rpmThread rpmNow output =>
      simp only [motor, Motor.step, Motor.rpmThread, hs.type, if_true]
      exact hs.released
  | mcpwmTimerThread direction dutycycleNow =>
      simp only [motor, Motor.step, Motor.mcpwmTimerThread, hs.type]
      exact hs.released
  | focTimerThread output =>
      simp only [motor, Motor.step, Motor.focTimerThread]
      split
      next hspeed =>
        refine .inl (hs.released.resolve_right fun hzero => ?_)
        rcases hzero.1 with hmode | hmode <;> simp [hmode] at hspeed
      next => exact hs.released
  | timeoutThread elapsed =>
      exact focReleased_timeoutThread hs.type hs.releases hs.brake hs.released elapsed
  | _ => exact h.elim

theorem Resting.run {s : Motor} (hs : Resting s) {events : List Step}
    (h : ∀ event ∈ events, event.IsEvent) : Resting (motor.run s events).1 := by
  induction events generalizing s with
  | nil => exact hs
  | cons event events ih =>
      refine ih (hs.event (h event List.mem_cons_self)) fun event' hmem => ?_
      exact h event' (List.mem_cons_of_mem event hmem)

/-! ## The routine -/

theorem gives_inductancePulses (samples : Int) :
    (inductancePulses samples).Gives (· = .armInductance) := by
  refine gives_each (fun _ toCnt => ?_) _ _
  refine gives_bind (gives_give.2 rfl) fun _ => gives_bind (gives_each (fun _ _ => ?_) _ _)
    fun _ => trivial
  refine gives_bind (gives_state.2 trivial) fun s => ?_
  split
  next => exact gives_bind (gives_pause.2 trivial) fun _ => trivial
  next => trivial

end Bldc.Drive
