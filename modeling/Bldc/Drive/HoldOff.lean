import Bldc.Drive.Guard

/-!
# How long a fault keeps commands out

A fault loads the hold-off from the configuration, `timer_thread` counts it down
while it is positive, and `mc_interface_try_input` refuses whatever is not zero. The
three agree as long as no fault meets a negative setting.
-/

namespace Bldc.Drive

open Flash Conf Foundation Link

/-- A round of `timer_thread` of `mc_interface`. -/
def Step.isTimerRound : Step → Bool
  | .timerThread .. => true
  | _ => false

/-- The fault pin is active when `timer_thread` reads it. -/
def Step.drvActive : Step → Bool
  | .timerThread drvFault drvFault' _ _ => drvFault || drvFault'
  | _ => false

namespace Motor

variable (s : Motor)

/-- `mc_interface_try_input` is called. -/
def asksInput : Step → Prop
  | .timeoutThread elapsed => s.timeoutMsec ≠ 0 ∧ elapsed
  | step => step.triesInput

instance (step : Step) : Decidable (s.asksInput step) :=
  match step with
  | .timeoutThread elapsed => inferInstanceAs (Decidable (s.timeoutMsec ≠ 0 ∧ elapsed))
  | .setDuty _ | .setDutyNoramp _ | .setPidSpeed _ | .setPidPos _ | .setCurrent _
  | .setBrakeCurrent _ | .setDetect => isTrue rfl
  | .lock | .unlock | .lockOverrideOnce | .setConfiguration .. | .switchDriver _
  | .applyConfiguration .. | .timeoutConfigure .. | .overridePhase .. | .setPhaseNowOverride _
  | .endOverride | .setEncoder .. | .setCurrentLoop .. | .prepareInductance _ | .armInductance
  | .adcInt _ | .adcInjInt _ | .timerThread .. | .rpmThread .. | .mcpwmTimerThread ..
  | .focTimerThread _ => isFalse Bool.false_ne_true

/-- The configuration whose checks a step makes. -/
def checkedConf : Step → McConfiguration
  | .setConfiguration c _ _ => if s.switchesDriver c then s.conf else c
  | _ => s.conf

/-- Whenever a fault stops the motor, the hold-off of the configuration is a time. -/
def StopTimeOk (step : Step) : Prop :=
  (s.step step).2 ≠ [] → 0 ≤ (s.checkedConf step).mFaultStopTimeMs

/-- No new fault, no active fault pin, and no detection is ended by a command. -/
structure Undisturbed (step : Step) : Prop where
  noFault : (s.step step).2 = []
  noDrvFault : step.drvActive = false
  noDetection : s.asksInput step → s.mcInterfaceGetState ≠ .detecting

variable {s}

/-! ## One step -/

/-- The hold-off and the fault after a step, if nothing stopped the motor, and the
hold-off if something did. -/
structure Holds (s : Motor) (asks : Prop) [Decidable asks] (stopTime : Int)
    (t : Motor × List Motor) : Prop where
  passed : t.2 = [] →
    t.1.ignoreIterations = (if asks then s.holdOff else s.ignoreIterations) ∧
      t.1.faultNow = s.faultNow
  stopped : t.2 ≠ [] → t.1.ignoreIterations = stopTime

variable {asks : Prop} [Decidable asks] {stopTime : Int}

theorem Holds.of_checked {s' : Motor} {t : Motor × List Motor} (h : Checked s' t) (hasks : ¬asks)
    (hhold : s'.ignoreIterations = s.ignoreIterations) (hfault : s'.faultNow = s.faultNow)
    (hstop : s'.conf.mFaultStopTimeMs = stopTime) : Holds s asks stopTime t where
  passed := by
    intro hnil
    rw [if_neg hasks]
    exact ⟨(congrArg Guard.ignoreIterations (h.passed hnil)).trans hhold,
      (congrArg Guard.faultNow (h.passed hnil)).trans hfault⟩
  stopped := fun hne => (h.stopped hne).trans hstop

theorem Holds.of_quiet {t : Motor} (hasks : ¬asks)
    (hhold : t.ignoreIterations = s.ignoreIterations) (hfault : t.faultNow = s.faultNow) :
    Holds s asks stopTime t.quiet where
  passed := by
    intro _
    rw [if_neg hasks]
    exact ⟨hhold, hfault⟩
  stopped := fun hne => absurd rfl hne

theorem Holds.of_asks {t : Motor} (hasks : asks) (hhold : t.ignoreIterations = s.holdOff)
    (hfault : t.faultNow = s.faultNow) : Holds s asks stopTime t.quiet where
  passed := by
    intro _
    rw [if_pos hasks]
    exact ⟨hhold, hfault⟩
  stopped := fun hne => absurd rfl hne

theorem holds_timeoutThread (elapsed : Bool) :
    Holds s (s.asksInput (.timeoutThread elapsed)) stopTime (s.timeoutThread elapsed).quiet := by
  by_cases helapsed : s.timeoutMsec ≠ 0 ∧ elapsed
  · have hguard :=
      (guard_setBrakeCurrent { s with lockEnabled := false } s.timeoutBrakeCurrent).trans
        (guard_tryInput _)
    apply Holds.of_asks helapsed
    · rw [timeoutThread, if_pos helapsed]
      exact congrArg Guard.ignoreIterations hguard
    · rw [timeoutThread, if_pos helapsed]
      exact congrArg Guard.faultNow hguard
  · apply Holds.of_quiet helapsed
    · rw [timeoutThread, if_neg helapsed]
    · rw [timeoutThread, if_neg helapsed]

theorem holds_of_triesInput {step : Step} (h : step.triesInput) (hasks : asks)
    (hquiet : s.step step = (s.step step).1.quiet) : Holds s asks stopTime (s.step step) := by
  have hguard := (guard_step_of_triesInput h).trans s.guard_tryInput
  rw [hquiet]
  exact .of_asks hasks (congrArg Guard.ignoreIterations hguard) (congrArg Guard.faultNow hguard)

theorem holds_step {step : Step} (hround : ¬step.isTimerRound) :
    Holds s (s.asksInput step) (s.checkedConf step).mFaultStopTimeMs (s.step step) := by
  cases step with
  | setDuty | setDutyNoramp | setPidSpeed | setPidPos | setCurrent | setBrakeCurrent | setDetect =>
      exact holds_of_triesInput rfl rfl rfl
  | timeoutThread elapsed => exact holds_timeoutThread elapsed
  | setConfiguration c temp vIn =>
      unfold checkedConf
      change Holds s _ _ (s.mcInterfaceSetConfiguration c temp vIn)
      unfold mcInterfaceSetConfiguration
      dsimp only
      split
      · exact .of_quiet Bool.false_ne_true rfl rfl
      · exact .of_checked (checked_applyConfiguration _ temp vIn) Bool.false_ne_true rfl rfl rfl
  | switchDriver c =>
      have hhold : (s.switchDriver c).ignoreIterations = s.ignoreIterations ∧
          (s.switchDriver c).faultNow = s.faultNow := by
        unfold switchDriver
        dsimp only
        split <;> exact ⟨rfl, rfl⟩
      exact .of_quiet Bool.false_ne_true hhold.1 hhold.2
  | timerThread => exact (hround rfl).elim
  | applyConfiguration | adcInt | adcInjInt | rpmThread | mcpwmTimerThread | focTimerThread
  | timeoutConfigure | overridePhase | setPhaseNowOverride | endOverride | setEncoder
  | setCurrentLoop | prepareInductance | armInductance =>
      exact .of_checked (s.checked_step rfl) Bool.false_ne_true rfl rfl rfl
  | lock | unlock | lockOverrideOnce => exact .of_quiet Bool.false_ne_true rfl rfl

/-! ## Rounds of `timer_thread` -/

theorem countDown_ignoreIterations (t : Motor) (drvFault : Bool) :
    (t.countDown drvFault).ignoreIterations =
      if t.ignoreIterations > 0 then t.ignoreIterations - 1 else t.ignoreIterations := by
  unfold countDown
  repeat' split
  all_goals rfl

theorem countDown_nonneg_iff (t : Motor) (drvFault : Bool) :
    0 ≤ (t.countDown drvFault).ignoreIterations ↔ 0 ≤ t.ignoreIterations := by
  rw [countDown_ignoreIterations]
  split <;> omega

theorem countDown_conf (t : Motor) (drvFault : Bool) : (t.countDown drvFault).conf = t.conf := by
  unfold countDown
  repeat' split
  all_goals rfl

/-- A round in which a fault stops the motor leaves a time exactly if the setting is one. -/
theorem timerThread_stopped {drvFault drvFault' : Bool} {temp vIn : Rat}
    (hne : (s.timerThread drvFault drvFault' temp vIn).2 ≠ []) :
    0 ≤ (s.timerThread drvFault drvFault' temp vIn).1.ignoreIterations ↔
      0 ≤ s.conf.mFaultStopTimeMs := by
  cases drvFault with
  | false =>
      have hlimits := checked_updateOverrideLimits (s.countDown drvFault') temp vIn
      have hload : (s.timerThread false drvFault' temp vIn).1.ignoreIterations =
          (s.countDown drvFault').conf.mFaultStopTimeMs := hlimits.stopped hne
      rw [hload, countDown_conf]
  | true =>
      have hguard := guard_faultStop s .drv8302
      have hload : (s.mcInterfaceFaultStop .drv8302).ignoreIterations = s.conf.mFaultStopTimeMs :=
        congrArg Guard.ignoreIterations hguard
      have hconf : (s.mcInterfaceFaultStop .drv8302).conf.mFaultStopTimeMs =
          s.conf.mFaultStopTimeMs := congrArg Guard.faultStopTime hguard
      let t := (s.mcInterfaceFaultStop .drv8302).countDown drvFault'
      have hlimits := checked_updateOverrideLimits t temp vIn
      have hafter : (s.timerThread true drvFault' temp vIn).1 =
          (t.updateOverrideLimits temp vIn).1 := rfl
      rw [hafter]
      by_cases hpassed : (t.updateOverrideLimits temp vIn).2 = []
      · have hsame : (t.updateOverrideLimits temp vIn).1.ignoreIterations = t.ignoreIterations :=
          congrArg Guard.ignoreIterations (hlimits.passed hpassed)
        rw [hsame, countDown_nonneg_iff, hload]
      · have hagain : (t.updateOverrideLimits temp vIn).1.ignoreIterations =
            t.conf.mFaultStopTimeMs := hlimits.stopped hpassed
        rw [hagain, countDown_conf, hconf]

/-- A round in which nothing stops the motor counts down. -/
theorem timerThread_passed {drvFault drvFault' : Bool} {temp vIn : Rat}
    (hnil : (s.timerThread drvFault drvFault' temp vIn).2 = []) :
    (s.timerThread drvFault drvFault' temp vIn).1.guard = (s.countDown drvFault').guard := by
  cases drvFault with
  | false => exact (checked_updateOverrideLimits (s.countDown drvFault') temp vIn).passed hnil
  | true => exact absurd hnil (List.cons_ne_nil _ _)

theorem holdOff_nonneg (h : 0 ≤ s.ignoreIterations) : 0 ≤ s.holdOff := by
  unfold holdOff
  split
  · decide
  · exact h

/-- The hold-off stays a time if no fault meets a negative setting. -/
theorem ignoreIterations_nonneg_step {step : Step} (h : 0 ≤ s.ignoreIterations)
    (hok : s.StopTimeOk step) : 0 ≤ (s.step step).1.ignoreIterations := by
  by_cases hround : step.isTimerRound
  · cases step with
    | timerThread drvFault drvFault' temp vIn =>
        by_cases hstop : (s.timerThread drvFault drvFault' temp vIn).2 = []
        · have hsame : (s.timerThread drvFault drvFault' temp vIn).1.ignoreIterations =
              (s.countDown drvFault').ignoreIterations :=
            congrArg Guard.ignoreIterations (timerThread_passed hstop)
          exact ((countDown_nonneg_iff s drvFault').2 h).trans_eq hsame.symm
        · exact (timerThread_stopped hstop).2 (hok hstop)
    | _ => exact (Bool.false_ne_true hround).elim
  · have hholds := holds_step (s := s) hround
    by_cases hstop : (s.step step).2 = []
    · rw [(hholds.passed hstop).1]
      split
      · exact holdOff_nonneg h
      · exact h
    · rw [hholds.stopped hstop]
      exact hok hstop

/-- A fault that meets a negative setting leaves a hold-off that is none. -/
theorem ignoreIterations_neg_step {step : Step} (hok : ¬s.StopTimeOk step) :
    (s.step step).1.ignoreIterations < 0 := by
  obtain ⟨hstop, hneg⟩ := Classical.not_imp.1 hok
  by_cases hround : step.isTimerRound
  · cases step with
    | timerThread drvFault drvFault' temp vIn =>
        exact not_le.1 fun h => hneg ((timerThread_stopped hstop).1 h)
    | _ => exact (Bool.false_ne_true hround).elim
  · rw [(holds_step hround).stopped hstop]
    exact not_le.1 hneg

/-- The rounds until the fault is over. -/
def remaining (s : Motor) : Nat :=
  if s.ignoreIterations ≤ 0 ∧ s.faultNow = .none then 0 else s.ignoreIterations.toNat + 1

theorem remaining_countDown : (s.countDown false).remaining ≤ s.remaining - 1 := by
  unfold countDown
  split
  next hpos =>
    unfold remaining
    dsimp only
    split <;> split <;> omega
  next hzero =>
    have hover : ({ s with faultNow := .none } : Motor).remaining = 0 :=
      if_pos ⟨not_lt.1 hzero, rfl⟩
    exact hover.trans_le (Nat.zero_le _)

theorem remaining_congr {t : Motor} (hhold : t.ignoreIterations = s.ignoreIterations)
    (hfault : t.faultNow = s.faultNow) : t.remaining = s.remaining := by
  unfold remaining
  rw [hhold, hfault]

theorem remaining_step {step : Step} (hstep : s.Undisturbed step) :
    (s.step step).1.remaining ≤ s.remaining - if step.isTimerRound then 1 else 0 := by
  by_cases hround : step.isTimerRound
  · rw [if_pos hround]
    cases step with
    | timerThread drvFault drvFault' temp vIn =>
        have hguard := timerThread_passed hstep.noFault
        obtain rfl : drvFault' = false := (Bool.or_eq_false_iff.1 hstep.noDrvFault).2
        exact (remaining_congr (congrArg Guard.ignoreIterations hguard)
          (congrArg Guard.faultNow hguard)).trans_le remaining_countDown
    | _ => exact (Bool.false_ne_true hround).elim
  · rw [if_neg hround, Nat.sub_zero]
    obtain ⟨hhold, hfault⟩ := (holds_step hround).passed hstep.noFault
    have hsame : (if s.asksInput step then s.holdOff else s.ignoreIterations) =
        s.ignoreIterations := by
      split
      next hasks => exact if_neg (hstep.noDetection hasks)
      next => rfl
    exact (remaining_congr (hhold.trans hsame) hfault).le

end Motor

/-! ## Runs -/

/-- The rounds of `timer_thread` in a run. -/
def timerRounds (s : Motor) (steps : List Step) : Nat :=
  motor.count (fun _ step => step.isTimerRound) s steps

/-- The hold-off is a time, and one round of `timer_thread` more than it has left ends
the fault and lets commands pass that neither the lock nor a detection refuses. -/
structure HoldOffEnds (s : Motor) : Prop where
  nonneg : 0 ≤ s.ignoreIterations
  ends : ∀ steps, motor.Always Motor.Undisturbed s steps →
    s.ignoreIterations < timerRounds s steps →
    (motor.run s steps).1.faultNow = .none ∧
      ((motor.run s steps).1.lockEnabled = false →
        (motor.run s steps).1.mcInterfaceGetState ≠ .detecting →
          (motor.run s steps).1.mcInterfaceTryInput.2 = 0)

namespace Motor.Undisturbed

variable {s : Motor} {step : Step}

theorem stopTimeOk (h : s.Undisturbed step) : s.StopTimeOk step :=
  fun hne => absurd h.noFault hne

theorem nonneg_step (hstep : s.Undisturbed step) (h : 0 ≤ s.ignoreIterations) :
    0 ≤ (s.step step).1.ignoreIterations :=
  ignoreIterations_nonneg_step h hstep.stopTimeOk

end Motor.Undisturbed

theorem holdOffEnds_of_nonneg {s : Motor} (h : 0 ≤ s.ignoreIterations) : HoldOffEnds s where
  nonneg := h
  ends := by
    intro steps hall hrounds
    have hnonneg := Machine.run_invariant_of_always (M := motor) (P := Motor.Undisturbed)
      (I := fun s : Motor => 0 ≤ s.ignoreIterations) (fun _ _ h hstep => hstep.nonneg_step h) h hall
    have hcount := Machine.run_countdown (M := motor) (P := fun _ step => step.isTimerRound)
      (I := fun _ => True) Motor.remaining (fun _ _ _ _ => trivial)
      (fun _ _ _ hstep => Motor.remaining_step hstep) trivial hall
    have hstart : s.remaining ≤ s.ignoreIterations.toNat + 1 := by
      unfold Motor.remaining
      split <;> omega
    have hzero : (motor.run s steps).1.remaining = 0 := by
      unfold timerRounds at hrounds
      omega
    have hover : (motor.run s steps).1.ignoreIterations ≤ 0 ∧
        (motor.run s steps).1.faultNow = .none := by
      by_contra hnot
      rw [Motor.remaining, if_neg hnot] at hzero
      exact Nat.succ_ne_zero _ hzero
    refine ⟨hover.2, fun hlock hstate => ?_⟩
    rw [Motor.tryInput_value, if_neg (fun hbarred => Bool.false_ne_true (hlock ▸ hbarred.2)),
      Motor.holdOff, if_neg hstate]
    exact le_antisymm hover.1 hnonneg

theorem holdOffEnds_iff (s : Motor) : HoldOffEnds s ↔ 0 ≤ s.ignoreIterations :=
  ⟨HoldOffEnds.nonneg, holdOffEnds_of_nonneg⟩

theorem ignoreIterations_init (c : McConfiguration) : (mcInterfaceInit c).ignoreIterations = 0 := by
  unfold mcInterfaceInit Motor.dispatch
  split <;> rfl

/-- The hold-off ends in every state of a run exactly if no fault of the run meets a
negative setting. -/
theorem holdOffEnds_run_iff (c : McConfiguration) (steps : List Step) :
    (∀ before after, steps = before ++ after →
      HoldOffEnds (motor.run (mcInterfaceInit c) before).1) ↔
      motor.Always Motor.StopTimeOk (mcInterfaceInit c) steps := by
  simp only [holdOffEnds_iff]
  refine (Machine.always_iff_forall_prefix (M := motor)
    (I := fun s : Motor => 0 ≤ s.ignoreIterations) (fun s step h => ?_)
    (ignoreIterations_init c).ge steps).symm
  refine ⟨Motor.ignoreIterations_nonneg_step h, fun hnext => ?_⟩
  by_contra hok
  exact absurd hnext (not_le.2 (Motor.ignoreIterations_neg_step hok))

/-- A `COMM_SET_MCCONF` packet that asks for a hold-off of -1 ms and has no other fields. -/
def negativeStopTime : Buffer := fun i => if 260 ≤ i ∧ i < 264 then 255 else 0

/-- The packet is installed, and then the driver reports a fault. -/
def faultAfterNegative : List Step :=
  [.setConfiguration (setMcconf negativeStopTime default) (-10) 24, .timerThread true true (-10) 24]

/-- The fault that meets it is never over. -/
theorem not_holdOffEnds_negative :
    ¬∀ before after, faultAfterNegative = before ++ after →
      HoldOffEnds (motor.run (mcInterfaceInit default) before).1 := by
  intro hall
  have hnonneg := (hall faultAfterNegative [] (by simp)).nonneg
  exact absurd hnonneg (by decide +kernel)

end Bldc.Drive
