import Bldc.Drive.SixStep

/-!
# The bridge of the BLDC driver

The step and the direction choose the outputs of the bridge, and they choose what the current is
computed from. Neither is put out at once, so that they can disagree with the bridge. While the
control law acts, the bridge is off or stands as they say, and the current is that of the motor.
-/

namespace Bldc.Drive

open Flash Conf Foundation

/-! ## What the outputs mean -/

/-- The parts of the half bridges for a motor, a direction and a step. -/
def rolesOf (motorType : MotorType) (direction : Bool) (commStep : Int) : Option Roles :=
  if motorType = .dc then some (dcRoles direction) else stepRoles direction commStep

/-- No half bridge switches. -/
def Outputs.Quiet (o : Outputs) : Prop := ∀ leg, (o leg).mode = .forcedInactive

/-- The positive half bridge alone has the pulses of the duty cycle, and the floating one is
off. -/
def Outputs.Puts (o : Outputs) (r : Roles) : Prop :=
  ∃ positive negative : LegOutput, positive.mode = .pwm1 ∧ negative.mode ≠ .pwm1 ∧
    o = r.outputs positive negative

/-- The bridge is off or stands as the direction and the step say. -/
def Outputs.Synced (o : Outputs) (motorType : MotorType) (direction : Bool) (commStep : Int) :
    Prop :=
  o.Quiet ∨ ∃ r, rolesOf motorType direction commStep = some r ∧ o.Puts r

namespace Bridge

/-- The direction in which the bridge stands. -/
def stands (s : Bridge) : Bool :=
  if s.comm.motor.motorType = .dc ∨ s.started then s.comm.motor.mcpwm.direction
  else s.comm.directionBefore

/-- One of the two motor types of this driver. -/
def Driven (motorType : MotorType) : Prop := motorType = .bldc ∨ motorType = .dc

/-- A motor that is not driven has a bridge that is off, and after a commutation the bridge
stands as the step says. -/
structure InSync (s : Bridge) : Prop where
  driven : Driven s.comm.motor.motorType
  quiet : s.comm.motor.mcpwm.state = .off ∨ s.comm.motor.mcpwm.state = .fullBrake →
    s.active.Quiet
  synced : s.comm.hasCommutated →
    s.active.Synced s.comm.motor.motorType s.stands s.comm.commStep

variable {s : Bridge}

theorem comm_commutate (steps : Int) : (s.commutate steps).comm = (s.comm.commutate steps).1 ∧
    (s.commutate steps).started = s.started := by
  unfold commutate
  dsimp only
  split
  · split <;> exact ⟨rfl, rfl⟩
  · exact ⟨rfl, rfl⟩

/-! ## The commutation without its bridge -/

theorem comm_startRunning (hall : Fin 8) :
    (s.startRunning hall).comm = (s.comm.startRunning hall).1 := by
  unfold startRunning Commutator.startRunning
  dsimp only
  split
  next => exact (comm_commutate 1).1
  next =>
    split
    next =>
      cases s.comm.motor.mcpwm.state with
      | off | fullBrake =>
          dsimp only
          split
          · exact (comm_commutate 1).1
          · rfl
      | running | detecting => rfl
    next =>
      split
      · exact (comm_commutate 1).1
      · rfl

theorem comm_setDutyCycleLl (dutyCycle : Rat) (hall : Fin 8) :
    (s.setDutyCycleLl dutyCycle hall).comm = (s.comm.setDutyCycleLl dutyCycle hall).1 := by
  have hstart : (Bridge.startRunning { s with comm := s.comm.aim dutyCycle } hall).comm =
      ((s.comm.aim dutyCycle).startRunning hall).1 := comm_startRunning hall
  unfold setDutyCycleLl Commutator.setDutyCycleLl
  dsimp only
  split
  next =>
    cases s.comm.motor.mcpwm.state with
    | running =>
        dsimp only
        split
        · exact hstart
        · rfl
    | detecting | off | fullBrake => rfl
  next => exact hstart

theorem comm_watchStuck (sample : CommSample) :
    (s.watchStuck sample).comm = (s.comm.watchStuck sample).1 := by
  unfold watchStuck Commutator.watchStuck
  split
  · split
    · exact (comm_commutate 2).1
    · split
      · exact (comm_commutate 1).1
      · rfl
  · rfl

theorem comm_followBemf (sample : CommSample) :
    (s.followBemf sample).comm = (s.comm.followBemf sample).1 := by
  unfold followBemf Commutator.followBemf Commutator.andThen
  by_cases hlooks : s.comm.motor.mcpwm.state = .running ∧ sample.settled ∨
      s.comm.motor.mcpwm.state = .off
  · rw [if_pos hlooks]
    dsimp only
    by_cases hdue : sample.due ∧ (s.comm.motor.conf.commMode = commModeIntegrate ∨
        s.comm.motor.conf.commMode = commModeDelay)
    · rw [if_pos ⟨hlooks, hdue⟩, if_pos hdue]
      exact (comm_commutate 1).1
    · rw [if_neg (fun h => hdue h.2), if_neg hdue]
  · rw [if_neg (fun h => hlooks h.1), if_neg hlooks]

theorem comm_followHall (hall : Fin 8) :
    (s.followHall hall).comm = (s.comm.followHall hall).1 := by
  unfold followHall Commutator.followHall
  dsimp only
  split
  · split
    · exact (comm_commutate 0).1
    · rfl
  · split
    · exact (comm_commutate 0).1
    · rfl

/-- The commutation of a pass is that without the bridge. -/
theorem comm_follow (sample : CommSample) :
    (s.follow sample).comm = (s.comm.mcpwmAdcIntHandler sample).1 := by
  have hnote : s.noteDirection.comm = s.comm.noteDirection := rfl
  unfold follow Commutator.mcpwmAdcIntHandler
  dsimp only
  rw [hnote]
  split
  next =>
    split
    next =>
      rw [comm_followBemf, comm_watchStuck]
      rfl
    next => exact comm_followHall sample.hall
  next =>
    split
    · exact (comm_commutate 0).1
    · rfl

/-! ## Starts -/

/-- The state is in its place but for what the control mode and the set points are. -/
theorem InSync.of_eq {t : Bridge} (h : s.InSync)
    (htype : t.comm.motor.motorType = s.comm.motor.motorType)
    (hstate : t.comm.motor.mcpwm.state = s.comm.motor.mcpwm.state)
    (hdirection : t.comm.motor.mcpwm.direction = s.comm.motor.mcpwm.direction)
    (hrest : (t.comm.hasCommutated, t.comm.directionBefore, t.comm.commStep, t.active, t.started) =
      (s.comm.hasCommutated, s.comm.directionBefore, s.comm.commStep, s.active, s.started)) :
    t.InSync := by
  simp only [Prod.mk.injEq] at hrest
  obtain ⟨hcommutated, hbefore, hstep, hactive, hstarted⟩ := hrest
  refine ⟨htype ▸ h.driven, fun hidle => ?_, fun hcommuted => ?_⟩
  · rw [hstate] at hidle
    rw [hactive]
    exact h.quiet hidle
  · have hstands : t.stands = s.stands := by
      simp only [stands, htype, hstarted, hdirection, hbefore]
    rw [hcommutated] at hcommuted
    rw [hactive, htype, hstands, hstep]
    exact h.synced hcommuted

/-- The command may come in this state: a motor that was started is not turned round before the
interrupt handler has noted its direction. -/
def StepOk (s : Bridge) : BridgeInput → Prop
  | .setDutyNoramp dutyCycle _ =>
      s.comm.motor.mcpwm.state = .running → s.comm.motor.motorType ≠ .dc → s.started →
        (s.comm.aim dutyCycle).motor.mcpwm.direction = s.comm.motor.mcpwm.direction
  | .setConfiguration c _ => Driven (.ofCode c.motorType)
  | _ => True

end Bridge

/-! ## The current -/

namespace Control

/-- `curr_tot_sample` of a motor that is not braked, from the two sensors of `channel1` and
`channel3`. -/
def currTotSample (found : Control) (curr0 curr1 : Rat) : Rat :=
  if found.motorType = .dc then if found.direction then -curr1 else -curr0
  else if found.direction then
    match found.commStep with
    | 1 | 2 => -curr1
    | 3 => curr0
    | 4 => curr1
    | 5 | 6 => -curr0
    | _ => 0
  else
    match found.commStep with
    | 1 => curr1
    | 2 => curr0
    | 3 | 4 => -curr1
    | 5 | 6 => -curr0
    | _ => 0

/-- One half bridge alone has the pulses of the duty cycle, another one is open, and the sample
is the current out of the first. -/
def Measures (found : Control) : Prop :=
  ∃ positive floating : Leg,
    (∀ leg, (found.active leg).mode = .pwm1 ↔ leg = positive) ∧
      found.active floating = ⟨.inactive, true, false⟩ ∧
      ∀ currents : Leg → Rat,
        currents .channel1 + currents .channel2 + currents .channel3 = 0 →
          currents floating = 0 →
            found.currTotSample (currents .channel1) (currents .channel3) = currents positive

end Control

end Bldc.Drive
