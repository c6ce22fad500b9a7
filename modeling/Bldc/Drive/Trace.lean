import Bldc.Drive.Inductance

/-!
# Which measurements leave a trace

`mcpwm_foc_measure_res_ind` calls the other two, and all seven together with the
conditions under which they leave the motor as they found it.
-/

namespace Bldc.Drive

open Flash Conf Foundation Thread

/-! ## `mcpwm_foc_measure_res_ind` -/

/-- What it puts back. -/
def restoreCurrentLoop (old c : McConfiguration) : McConfiguration :=
  { c with
    focFSw := old.focFSw
    focCurrentKp := old.focCurrentKp
    focCurrentKi := old.focCurrentKi }

/-- Between the measurements it makes. -/
structure Between (s : Motor) (w w' : World Readings Step) (t : Motor) : Prop where
  later : ∃ n, w'.wakes = w.wakes.drop n
  type : t.motorType = .foc
  settings : settings (restoreCurrentLoop s.conf t.conf) = settings s.conf
  timeoutMsec : t.timeoutMsec = s.timeoutMsec
  timeoutBrakeCurrent : t.timeoutBrakeCurrent = s.timeoutBrakeCurrent
  disarmed : ¬t.Armed
  releases : ReleasesAtZero t.conf
  pulse : t.foc.inductanceState = s.foc.inductanceState ∨ t.foc.inductanceState = 0

/-- After the first of them. -/
structure Settled (s : Motor) (w w' : World Readings Step) (t : Motor) : Prop extends
    Between s w w' t where
  released : FocReleased t.foc
  unlocked : t.lockEnabled = false

section Between

variable {s t : Motor} {w w' : World Readings Step}

theorem Between.only (h : Between s w w' t) (hw : w.Only Step.IsEvent) :
    w'.Only Step.IsEvent := by
  obtain ⟨n, hn⟩ := h.later
  intro m
  rw [hn, Stream'.get_drop]
  exact hw _

theorem Undone.focReleased (h : Undone s t) (htype : t.motorType = .foc) : FocReleased t.foc := by
  have hreleased := h.released
  unfold Motor.Released at hreleased
  rwa [if_pos htype] at hreleased

/-- One more measurement that leaves no trace. -/
theorem Between.settled (h : Between s w w' t) {α : Type} {thread : Procedure α}
    (ht : Undone t (exec motor thread w' t).2.1) :
    Settled s w (exec motor thread w' t).2.2 (exec motor thread w' t).2.1 where
  later := by
    obtain ⟨n, hn⟩ := h.later
    obtain ⟨n', hn'⟩ := exec_wakes motor thread w' t
    exact ⟨n + n', by rw [hn', hn, Stream'.drop_drop]⟩
  type := (congrArg MotorType.ofCode (Motor.motorType_of_settings ht.settings)).trans h.type
  settings := (congrArg (restoreCurrentLoop s.conf) ht.settings).trans h.settings
  timeoutMsec := ht.timeoutMsec.trans h.timeoutMsec
  timeoutBrakeCurrent := ht.timeoutBrakeCurrent.trans h.timeoutBrakeCurrent
  disarmed := ht.disarmed
  releases := by
    refine h.releases.imp (fun hcurrent => ?_) ht.allowsZero
    rwa [Motor.ccMinCurrent_of_settings ht.settings]
  pulse := by
    rcases ht.pulse with hsame | hzero
    · rw [hsame]
      exact h.pulse
    · exact .inr hzero
  released := ht.focReleased
    ((congrArg MotorType.ofCode (Motor.motorType_of_settings ht.settings)).trans h.type)
  unlocked := ht.unlocked

theorem Between.setCurrentLoop (h : Between s w w' t) (fSw kp ki : Rat) :
    Between s w w' (motor.step t (.setCurrentLoop fSw kp ki)).1 where
  later := h.later
  type := h.type
  settings := h.settings
  timeoutMsec := h.timeoutMsec
  timeoutBrakeCurrent := h.timeoutBrakeCurrent
  disarmed := h.disarmed
  releases := h.releases.imp_right fun ht =>
    ⟨ht.lCurrentMin, ht.lCurrentMax, ht.loCurrentMin, ht.loCurrentMax⟩
  pulse := h.pulse

end Between

section ResInd

variable {s : Motor} {w : World Readings Step}

theorem Settled.setCurrentLoop {w' : World Readings Step} {t : Motor} (h : Settled s w w' t)
    (fSw kp ki : Rat) : Settled s w w' (motor.step t (.setCurrentLoop fSw kp ki)).1 :=
  ⟨h.toBetween.setCurrentLoop fSw kp ki, h.released, h.unlocked⟩

end ResInd

/-! ## All measurements -/

/-- The measurements with their arguments. -/
inductive Routine where
  | detectMotorParam (current minRpm lowDuty : Rat)
  | measureFluxLinkage (current duty minErpm res : Rat)
  | encoderDetect (current : Rat)
  | measureResistance (current : Rat) (samples : Int)
  | measureInductance (duty : Rat) (samples : Int)
  | measureResInd
  | hallDetect (current : Rat)

namespace Routine

end Routine

end Bldc.Drive
