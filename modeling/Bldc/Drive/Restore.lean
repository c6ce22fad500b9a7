import Bldc.Drive.Fault
import Bldc.Drive.Measure

/-!
# A measurement leaves no trace

What holds when a measurement returns: the settings and the timeout are those it
found, the lock is open, the motor is released and the interrupt handler has
nothing left to measure.
-/

namespace Bldc.Drive

open Flash Conf Foundation Thread

namespace Motor

/-- The driver in use is off, or controls a current of zero. -/
def Released (s : Motor) : Prop :=
  if s.motorType = .foc then
    s.foc.state = .off ∨
      (s.foc.controlMode = .current ∨ s.foc.controlMode = .currentBrake) ∧ s.foc.iqSet = 0
  else
    s.mcpwm.state = .off ∨
      (s.mcpwm.controlMode = .current ∨ s.mcpwm.controlMode = .currentBrake) ∧
        s.mcpwm.currentSet = 0

/-- A measurement that found the motor in the first state leaves it in the second. -/
structure NoTrace (s t : Motor) : Prop where
  settings : settings t.conf = settings s.conf
  timeoutMsec : t.timeoutMsec = s.timeoutMsec
  timeoutBrakeCurrent : t.timeoutBrakeCurrent = s.timeoutBrakeCurrent
  unlocked : t.lockEnabled = false
  released : t.Released
  disarmed : ¬t.Armed

variable {s t : Motor}

theorem Halted.released (h : s.Halted) : s.Released := by
  unfold Released
  split
  next htype => exact .inl (h.foc htype)
  next htype => exact .inl (h.mcpwm htype).1

/-- What happens while a measurement sleeps. -/
structure Meanwhile (s t : Motor) : Prop where
  keeps : s.KeepsSettings t
  unarmed : ¬s.Armed → s.Keeps t

theorem Meanwhile.disarmed (h : s.Meanwhile t) (hs : ¬s.Armed) : ¬t.Armed :=
  (h.unarmed hs).not_armed hs

end Motor

/-! ## Configuration changes -/

theorem switchDriver_conf (s : Motor) (c : McConfiguration) : (s.switchDriver c).conf = c := by
  unfold Motor.switchDriver
  dsimp only
  split <;> rfl

section Gives

variable {P : Step → Prop}

theorem gives_waitFor (rounds : Nat) (wanted : Readings → Prop) [DecidablePred wanted] :
    (waitFor rounds wanted).Gives P := by
  unfold waitFor
  refine gives_bind (gives_each (fun _ _ => gives_bind (gives_reading.2 trivial) fun r => ?_) _ _)
    fun _ => trivial
  split
  next => trivial
  next => exact gives_bind (gives_pause.2 trivial) fun _ => trivial

end Gives

/-- A measurement that is passed over leaves room for zero current as well, and at most
finishes the pulse the interrupt handler was at. -/
structure Undone (s t : Motor) : Prop extends s.NoTrace t where
  allowsZero : AllowsZero s.conf → AllowsZero t.conf
  pulse : t.foc.inductanceState = s.foc.inductanceState ∨ t.foc.inductanceState = 0

section Borrowed

variable {restore : McConfiguration → McConfiguration} {s t u : Motor}

end Borrowed

section Gives

variable {P : Step → Prop}

end Gives

end Bldc.Drive
