import Bldc.Drive.Guard

/-!
# What the control lock admits

While the control is locked `mc_interface_try_input` lets a command pass for an
override. The override is a flag, so an interval between lock and unlock admits no
more commands than it has overrides, plus the one that was pending when it began.
-/

namespace Bldc.Drive

open Flash Conf Foundation

/-- `mc_interface_lock_override_once` is called. -/
def Step.isOverride : Step → Bool
  | .lockOverrideOnce => true
  | _ => false

/-- `mc_interface_lock` is called. -/
def Step.isLock : Step → Bool
  | .lock => true
  | _ => false

namespace Motor

variable (s : Motor)

/-- `mc_interface_unlock` is called, as it also is when the timeout has elapsed. -/
def unlocks : Step → Prop
  | .unlock => True
  | .timeoutThread elapsed => s.timeoutMsec ≠ 0 ∧ elapsed
  | _ => False

/-- A control command reaches the motor implementation. -/
def reaches (step : Step) : Prop :=
  step.isCommand ∧ s.mcInterfaceTryInput.2 = 0 ∧ s.motorType ≠ .other

instance (step : Step) : Decidable (s.reaches step) := inferInstanceAs (Decidable (_ ∧ _))

variable {s}

/-! ## Commands -/

theorem motorType_tryInput : s.mcInterfaceTryInput.1.motorType = s.motorType :=
  s.keeps_tryInput.motorType

/-- The variables of the drivers. -/
def drivers (s : Motor) : Mcpwm × McpwmFoc × Bool := (s.mcpwm, s.foc, s.pwmOutput)

theorem dispatch_of_other (h : s.motorType = .other) (mcpwm foc : Motor → Motor) :
    s.dispatch mcpwm foc = s := by
  unfold dispatch
  rw [h]

theorem drivers_command (h : ¬(s.mcInterfaceTryInput.2 = 0 ∧ s.motorType ≠ .other))
    (mcpwm foc : Motor → Motor) : s.command mcpwm foc = s.mcInterfaceTryInput.1 := by
  by_cases hvalue : s.mcInterfaceTryInput.2 = 0
  · have htype : s.motorType = .other := not_not.1 fun hne => h ⟨hvalue, hne⟩
    unfold command
    rw [if_neg (not_not.2 hvalue), dispatch_of_other (motorType_tryInput.trans htype)]
  · exact if_pos hvalue

/-- A command that does not reach the implementation leaves the drivers to what
`mc_interface_try_input` does. -/
theorem drivers_step_of_not_reaches {step : Step} (hcommand : step.isCommand)
    (h : ¬s.reaches step) : (s.step step).1.drivers = s.mcInterfaceTryInput.1.drivers := by
  have hrefused : ¬(s.mcInterfaceTryInput.2 = 0 ∧ s.motorType ≠ .other) :=
    fun hreach => h ⟨hcommand, hreach⟩
  cases step with
  | setPidPos pos =>
      change (s.mcInterfaceSetPidPos pos).drivers = _
      unfold mcInterfaceSetPidPos
      split
      · rfl
      next hvalue =>
        have htype : s.motorType = .other :=
          not_not.1 fun hne => hrefused ⟨not_not.1 hvalue, hne⟩
        have htype' : { s.mcInterfaceTryInput.1 with positionSet := pos }.motorType = .other :=
          motorType_tryInput.trans htype
        exact (congrArg drivers (dispatch_of_other htype' _ _)).trans rfl
  | setDuty | setDutyNoramp | setPidSpeed | setCurrent | setBrakeCurrent =>
      exact congrArg drivers (drivers_command hrefused _ _)
  | _ => exact absurd hcommand Bool.false_ne_true

/-! ## The lock -/

theorem lock_timerThread (drvFault drvFault' : Bool) (temp vIn : Rat) :
    (s.timerThread drvFault drvFault' temp vIn).1.lockEnabled = s.lockEnabled ∧
      (s.timerThread drvFault drvFault' temp vIn).1.lockOverrideOnce = s.lockOverrideOnce := by
  have hfirst : Checked s (if drvFault then s.stopping .drv8302 else s.quiet) := by
    split
    · exact .stopping rfl _
    · exact .quiet rfl
  have hcount (t : Motor) : (t.countDown drvFault').lockEnabled = t.lockEnabled ∧
      (t.countDown drvFault').lockOverrideOnce = t.lockOverrideOnce := by
    unfold countDown
    repeat' split
    all_goals exact ⟨rfl, rfl⟩
  have hlimits := fun t : Motor => checked_updateOverrideLimits (t.countDown drvFault') temp vIn
  exact ⟨(hlimits _).lockEnabled.trans ((hcount _).1.trans hfirst.lockEnabled),
    (hlimits _).lockOverrideOnce.trans ((hcount _).2.trans hfirst.lockOverrideOnce)⟩

theorem lock_setConfiguration (c : McConfiguration) (temp vIn : Rat) :
    (s.mcInterfaceSetConfiguration c temp vIn).1.lockEnabled = s.lockEnabled ∧
      (s.mcInterfaceSetConfiguration c temp vIn).1.lockOverrideOnce = s.lockOverrideOnce := by
  unfold mcInterfaceSetConfiguration
  split
  · exact ⟨rfl, rfl⟩
  · have h := checked_applyConfiguration { s with conf := c } temp vIn
    exact ⟨h.lockEnabled, h.lockOverrideOnce⟩

theorem lock_switchDriver (c : McConfiguration) :
    (s.switchDriver c).lockEnabled = s.lockEnabled ∧
      (s.switchDriver c).lockOverrideOnce = s.lockOverrideOnce := by
  unfold switchDriver
  dsimp only
  split <;> exact ⟨rfl, rfl⟩

theorem lock_timeoutThread {elapsed : Bool} (hlocked : ¬s.unlocks (.timeoutThread elapsed)) :
    (s.timeoutThread elapsed).lockEnabled = s.lockEnabled ∧
      (s.timeoutThread elapsed).lockOverrideOnce = s.lockOverrideOnce := by
  unfold timeoutThread
  split
  next helapsed => exact (hlocked helapsed).elim
  next => exact ⟨rfl, rfl⟩

/-- What neither asks for input nor unlocks leaves the lock as its functions set it. -/
theorem lock_step {step : Step} (htries : ¬step.triesInput) (hlocked : ¬s.unlocks step) :
    (s.step step).1.lockEnabled = (step.isLock || s.lockEnabled) ∧
      (s.step step).1.lockOverrideOnce = (step.isOverride || s.lockOverrideOnce) := by
  have hchecks (h : step.onlyChecks) : (s.step step).1.lockEnabled = s.lockEnabled ∧
      (s.step step).1.lockOverrideOnce = s.lockOverrideOnce :=
    ⟨(s.checked_step h).lockEnabled, (s.checked_step h).lockOverrideOnce⟩
  cases step with
  | lock | lockOverrideOnce => exact ⟨rfl, rfl⟩
  | unlock => exact (hlocked trivial).elim
  | timeoutThread elapsed => exact lock_timeoutThread hlocked
  | setConfiguration c temp vIn => exact lock_setConfiguration c temp vIn
  | switchDriver c => exact lock_switchDriver c
  | timerThread drvFault drvFault' temp vIn => exact lock_timerThread drvFault drvFault' temp vIn
  | applyConfiguration | adcInt | adcInjInt | rpmThread | mcpwmTimerThread | focTimerThread
  | timeoutConfigure | overridePhase | setPhaseNowOverride | endOverride | setEncoder
  | setCurrentLoop | prepareInductance | armInductance =>
      exact hchecks rfl
  | setDuty | setDutyNoramp | setPidSpeed | setPidPos | setCurrent | setBrakeCurrent | setDetect =>
      exact (htries rfl).elim

theorem lockEnabled_step {step : Step} (hlock : s.lockEnabled) (hlocked : ¬s.unlocks step) :
    (s.step step).1.lockEnabled := by
  by_cases htries : step.triesInput
  · exact (congrArg Guard.lockEnabled ((guard_step_of_triesInput htries).trans
      s.guard_tryInput)).trans hlock
  · rw [(lock_step htries hlocked).1, hlock, Bool.or_true]

/-- The override that is pending, as a number. -/
def pending (s : Motor) : Nat := s.lockOverrideOnce.toNat

/-- In the locked state a command that passes uses an override up. -/
theorem pending_step {step : Step} (hlock : s.lockEnabled) (hlocked : ¬s.unlocks step) :
    (if s.reaches step then 1 else 0) + (s.step step).1.pending ≤
      s.pending + (if step.isOverride then 1 else 0) := by
  by_cases htries : step.triesInput
  · have hafter : (s.step step).1.lockOverrideOnce =
        if s.barred then false else s.lockOverrideOnce :=
      congrArg Guard.lockOverrideOnce ((guard_step_of_triesInput htries).trans s.guard_tryInput)
    unfold pending
    rw [hafter]
    split
    next hreach =>
      have hvalue := s.tryInput_value
      rw [hreach.2.1] at hvalue
      split
      next hbarred =>
        -- the lock was in the way, so an override was there to be used up
        rw [if_pos hbarred] at hvalue
        have hpending : s.lockOverrideOnce := by
          by_contra hnone
          rw [if_neg hnone] at hvalue
          exact absurd hvalue (by decide)
        simp [hpending]
      next hbarred =>
        rw [if_neg hbarred] at hvalue
        exact (hbarred ⟨hvalue.symm, hlock⟩).elim
    next =>
      split <;> simp
  · have hnot : ¬s.reaches step := by
      rintro ⟨hcommand, -⟩
      apply htries
      cases step <;> first | rfl | exact hcommand
    rw [if_neg hnot, pending, (lock_step htries hlocked).2, pending]
    cases step.isOverride <;> cases s.lockOverrideOnce <;> decide

end Motor

/-! ## Intervals -/

/-- The control stays locked all along. -/
def StaysLocked (s : Motor) (steps : List Step) : Prop :=
  motor.Always (fun s step => ¬s.unlocks step) s steps

/-- The control commands that reach the motor implementation. -/
def admitted (s : Motor) (steps : List Step) : Nat := motor.count Motor.reaches s steps

/-- The calls of `mc_interface_lock_override_once`. -/
def overrides (s : Motor) (steps : List Step) : Nat :=
  motor.count (fun _ step => step.isOverride) s steps

/-- However it goes on until the next unlock, commands pass for overrides only. -/
def LockHolds (s : Motor) : Prop :=
  ∀ steps, StaysLocked s steps → admitted s steps ≤ overrides s steps

/-- The lock admits one command for each override, and one for an override that was
pending before. -/
theorem admitted_le {s : Motor} (hlock : s.lockEnabled) {steps : List Step}
    (hstays : StaysLocked s steps) : admitted s steps ≤ s.pending + overrides s steps := by
  have hcount := Machine.count_add_potential_le (M := motor) (I := fun s : Motor => s.lockEnabled)
    (P := Motor.reaches) (G := fun _ step => step.isOverride) Motor.pending
    (fun _ _ => Motor.lockEnabled_step) (fun _ _ => Motor.pending_step) hlock hstays
  exact (Nat.le_add_right _ _).trans hcount

/-- A configuration that needs no other driver, and whose fault is over at once. -/
def Motor.freshConfiguration (s : Motor) : McConfiguration :=
  { (default : McConfiguration) with motorType := if s.motorType = .foc then 2 else 0 }

/-- A configuration is set while the motor is too hot, and then a command is given. -/
def Motor.passing (s : Motor) : List Step :=
  [.setConfiguration s.freshConfiguration 100 24, .setDuty 0]

section Passing

variable {s : Motor}

theorem not_switchesDriver_fresh : ¬s.switchesDriver s.freshConfiguration := by
  unfold Motor.switchesDriver Motor.freshConfiguration
  by_cases htype : s.motorType = .foc <;> simp [htype, MotorType.ofCode]

/-- The fault has ended what the motor was doing, and leaves no hold-off behind. -/
theorem setConfiguration_fresh :
    (s.mcInterfaceSetConfiguration s.freshConfiguration 100 24).1.holdOff = 0 ∧
      (s.mcInterfaceSetConfiguration s.freshConfiguration 100 24).1.motorType ≠ .other := by
  unfold Motor.mcInterfaceSetConfiguration
  rw [if_neg not_switchesDriver_fresh]
  unfold Motor.freshConfiguration
  by_cases htype : s.motorType = .foc
  · rw [if_pos htype]
    exact ⟨rfl, fun h => by cases h⟩
  · rw [if_neg htype]
    exact ⟨rfl, fun h => by cases h⟩

theorem staysLocked_passing : StaysLocked s s.passing := ⟨id, id, trivial⟩

theorem overrides_passing : overrides s s.passing = 0 := rfl

theorem admitted_passing (hlock : s.lockEnabled) (honce : s.lockOverrideOnce) :
    admitted s s.passing = 1 := by
  obtain ⟨hholdOff, htype⟩ := setConfiguration_fresh (s := s)
  obtain ⟨henabled, hpending⟩ := Motor.lock_setConfiguration (s := s) s.freshConfiguration 100 24
  have hbarred : (s.mcInterfaceSetConfiguration s.freshConfiguration 100 24).1.barred :=
    ⟨hholdOff, henabled.trans hlock⟩
  have hvalue := Motor.tryInput_value
    (s.mcInterfaceSetConfiguration s.freshConfiguration 100 24).1
  rw [if_pos hbarred, if_pos (hpending.trans honce)] at hvalue
  have hreaches : (s.mcInterfaceSetConfiguration s.freshConfiguration 100 24).1.reaches
      (.setDuty 0) := ⟨rfl, hvalue, htype⟩
  have hnot : ¬s.reaches (.setConfiguration s.freshConfiguration 100 24) :=
    fun h => Bool.false_ne_true h.1
  change (if s.reaches _ then 1 else 0) + ((if Motor.reaches _ (.setDuty 0) then 1 else 0) + 0) = 1
  rw [if_neg hnot]
  exact congrArg (fun n => 0 + (n + 0)) (if_pos hreaches)

end Passing

theorem lockHolds_iff_of_locked {s : Motor} (hlock : s.lockEnabled) :
    LockHolds s ↔ s.lockOverrideOnce = false := by
  constructor
  · intro hholds
    by_contra hpending
    have hle := hholds _ staysLocked_passing
    rw [admitted_passing hlock (Bool.eq_true_of_not_eq_false hpending), overrides_passing] at hle
    exact absurd hle (by decide)
  · intro hnone steps hstays
    have hle := admitted_le hlock hstays
    have hpending : s.pending = 0 := by rw [Motor.pending, hnone, Bool.toNat_false]
    rwa [hpending, Nat.zero_add] at hle

/-- The lock that is taken after a run holds exactly if no override was pending then. -/
theorem lockHolds_iff (s : Motor) (steps : List Step) :
    LockHolds (motor.run s (steps ++ [.lock])).1 ↔
      (motor.run s steps).1.lockOverrideOnce = false := by
  rw [Machine.run_append]
  exact lockHolds_iff_of_locked rfl

/-- An override from before the lock lets a command pass that has none of its own. -/
theorem not_lockHolds_override :
    ¬LockHolds (motor.run (mcInterfaceInit default) ([.lockOverrideOnce] ++ [.lock])).1 := by
  intro hholds
  have hle := hholds [.setDuty (1 / 2)] ⟨id, trivial⟩
  exact absurd hle (by decide)

end Bldc.Drive
