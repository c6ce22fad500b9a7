import Bldc.Drive.Angle
import Bldc.Foundation.Machine
import Mathlib.Tactic.FieldSimp
import Mathlib.Tactic.LinearCombination
import Mathlib.Tactic.Positivity

/-!
# The position controller of the FOC driver

`run_pid_control_pos` differentiates an error that often does not change from one control period
to the next. It therefore waits for a change and takes the time since the last one, so that in
the end no change and no time is lost. Its integral term is bounded, and comes back from the
bound as fast as the error takes it.
-/

namespace Bldc.Foc

open Foundation Utils

section Model

variable {K : Type} [Field K] [LinearOrder K]

/-- What `run_pid_control_pos` reads of `mc_configuration`. -/
structure PositionConfiguration (K : Type) where
  pPidKp : K
  pPidKi : K
  pPidKd : K
  focEncoderInverted : Bool
  loCurrentMax : K

/-- The static variables of `run_pid_control_pos`, with `m_iq_set`. -/
structure PositionPid (K : Type) where
  iTerm : K
  prevError : K
  dtInt : K
  iqSet : K

/-- What a call finds: `m_control_mode == CONTROL_MODE_POS`, its arguments and the encoder. -/
structure PositionReading (K : Type) where
  controlModePos : Bool
  angleNow : K
  angleSet : K
  dt : K
  encoderIsConfigured : Bool
  encoderIndexFound : Bool

/-- A `d_term` that is taken of a change of the error, with the time that it is taken over. -/
structure Derivative (K : Type) where
  dTerm : K
  time : K

variable [FloorRing K]

/-- `utils_angle_difference`, with the number of turns its loops take. -/
def angleDifference (angle1 angle2 : K) : K := reduce 180.0 (2.0 * 180.0) (angle1 - angle2)

variable (conf : PositionConfiguration K)

def PositionReading.error (r : PositionReading K) : K :=
  let error := angleDifference r.angleSet r.angleNow
  if r.encoderIsConfigured then if conf.focEncoderInverted then -error else error else error

namespace PositionPid

variable (s : PositionPid K) (r : PositionReading K)

/-- `d_term`, if the error has changed. -/
def derivative : List (Derivative K) :=
  if r.error conf = s.prevError then []
  else [⟨(r.error conf - s.prevError) * (conf.pPidKd / (s.dtInt + r.dt)), s.dtInt + r.dt⟩]

/-- `i_term` after the protection against a wind-up. -/
def nextITerm : K :=
  truncateNumber (s.iTerm + r.error conf * (conf.pPidKi * r.dt)) (-1) 1

def output : K :=
  truncateNumber (r.error conf * conf.pPidKp + s.nextITerm conf r +
    ((s.derivative conf r).map Derivative.dTerm).sum) (-1) 1

/-- `run_pid_control_pos`. -/
def runPidControlPos : PositionPid K :=
  if r.controlModePos then
    { iTerm := s.nextITerm conf r
      prevError := r.error conf
      dtInt := if r.error conf = s.prevError then s.dtInt + r.dt else 0
      iqSet :=
        if r.encoderIsConfigured then
          if r.encoderIndexFound then s.output conf r * conf.loCurrentMax
          else 0.4 * conf.loCurrentMax
        else s.output conf r * conf.loCurrentMax }
  else { s with iTerm := 0, prevError := 0 }

end PositionPid

/-- The start of the firmware. -/
def PositionPid.start : PositionPid K := ⟨0, 0, 0, 0⟩

/-- The controller, once in each control period. -/
def positionPid : Machine (PositionPid K) (PositionReading K) (Derivative K) where
  step s r := (s.runPidControlPos conf r, if r.controlModePos then s.derivative conf r else [])

end Model

/-- A quarter of a turn ahead, and back again. -/
def quickPid : PositionConfiguration Rat := ⟨1, 1 / 10, 2, false, 10⟩

def targetAhead : PositionReading Rat := ⟨true, 0, 90, 1, false, false⟩

def targetBehind : PositionReading Rat := ⟨true, 90, 0, 1, false, false⟩

section Proof

variable {K : Type} [Field K] [LinearOrder K] [FloorRing K] {conf : PositionConfiguration K}

/-- Every call is made in position mode, and later than the one before. -/
def Controls (readings : List (PositionReading K)) : Prop :=
  ∀ r ∈ readings, r.controlModePos = true ∧ 0 < r.dt

theorem positionPid_step {r : PositionReading K} (hmode : r.controlModePos = true)
    (s : PositionPid K) :
    (positionPid conf).step s r = (s.runPidControlPos conf r, s.derivative conf r) := by
  simp [positionPid, hmode]

variable [IsStrictOrderedRing K]

theorem returns_angleDifference (angle1 angle2 : K) :
    Returns (fun fuel => angleDifferenceLoops fuel angle1 angle2)
      (angleDifference angle1 angle2) := by
  have hfits := turn_eq (180.0 : K)
  have hturn : (0 : K) < 2.0 * 180.0 := by norm_num
  exact returns_turnLoops hturn hfits.le (angle1 - angle2)

/-- The D term makes up for the error that has changed and the time that has passed. -/
theorem derivative_step (conf : PositionConfiguration K) {s : PositionPid K}
    {r : PositionReading K} (hmode : r.controlModePos = true) (hdt : 0 < r.dt) (hs : 0 ≤ s.dtInt) :
    ((s.derivative conf r).map fun d => d.dTerm * d.time).sum =
        conf.pPidKd * ((s.runPidControlPos conf r).prevError - s.prevError) ∧
      ((s.derivative conf r).map Derivative.time).sum + (s.runPidControlPos conf r).dtInt =
        s.dtInt + r.dt ∧
      0 ≤ (s.runPidControlPos conf r).dtInt := by
  have htime : 0 < s.dtInt + r.dt := by linarith
  unfold PositionPid.runPidControlPos PositionPid.derivative
  rw [if_pos hmode]
  by_cases hsame : r.error conf = s.prevError
  · simp [hsame, htime.le]
  · simp only [hsame, if_false, List.map_cons, List.map_nil, List.sum_cons, List.sum_nil, add_zero,
      le_refl, and_true]
    field_simp

/-- Over any run in position mode, the D terms times the times they are taken over add up to the
gain times the whole change of the error, and these times with the one that is still open add
up to all the time that has passed. -/
theorem derivatives_complete {s : PositionPid K} (hs : 0 ≤ s.dtInt)
    {readings : List (PositionReading K)} (hcontrols : Controls readings) :
    (((positionPid conf).run s readings).2.map fun d => d.dTerm * d.time).sum =
        conf.pPidKd * (((positionPid conf).run s readings).1.prevError - s.prevError) ∧
      (((positionPid conf).run s readings).2.map Derivative.time).sum +
          ((positionPid conf).run s readings).1.dtInt =
        s.dtInt + (readings.map PositionReading.dt).sum := by
  induction readings generalizing s with
  | nil => simp
  | cons r readings ih =>
      obtain ⟨hmode, hdt⟩ := hcontrols r (List.mem_cons_self ..)
      obtain ⟨hchange, htime, hopen⟩ := derivative_step conf hmode hdt hs
      obtain ⟨hchanges, htimes⟩ := ih hopen fun r' hr' => hcontrols r' (List.mem_cons_of_mem r hr')
      rw [Machine.run_cons, positionPid_step hmode]
      simp only [List.map_append, List.sum_append, List.map_cons, List.sum_cons]
      constructor
      · linear_combination hchange + hchanges
      · linear_combination htime + htimes

theorem derivatives_complete_target :
    (((positionPid quickPid).run PositionPid.start
        [targetAhead, targetAhead, targetBehind]).2.map fun d => d.dTerm * d.time).sum =
      quickPid.pPidKd * (((positionPid quickPid).run PositionPid.start
        [targetAhead, targetAhead, targetBehind]).1.prevError -
          (PositionPid.start : PositionPid Rat).prevError) :=
  (derivatives_complete le_rfl (by simp [Controls, targetAhead, targetBehind])).1

omit [FloorRing K] [IsStrictOrderedRing K] in
theorem truncateNumber_le {x bound : K} (hbound : -1 ≤ bound) (hx : x ≤ bound) :
    truncateNumber x (-1) 1 ≤ bound := by
  unfold truncateNumber
  split
  next habove => exact habove.le.trans hx
  next =>
    split
    next => exact hbound
    next => exact hx

omit [FloorRing K] [IsStrictOrderedRing K] in
theorem le_truncateNumber {x bound : K} (hbound : bound ≤ 1) (hx : bound ≤ x) :
    bound ≤ truncateNumber x (-1) 1 := by
  unfold truncateNumber
  split
  next => exact hbound
  next =>
    split
    next hbelow => exact hx.trans hbelow.le
    next => exact hx

theorem abs_truncateNumber_le (x : K) : |truncateNumber x (-1) 1| ≤ 1 := by
  rw [truncateNumber_eq, abs_le]
  exact clamp_mem (by linarith [zero_le_one (α := K)]) x

/-- The bounds of the controller. -/
structure PositionPid.Bounded (conf : PositionConfiguration K) (s : PositionPid K) : Prop where
  iTerm : |s.iTerm| ≤ 1
  iqSet : |s.iqSet| ≤ conf.loCurrentMax

theorem PositionPid.Bounded.step (hlo : 0 ≤ conf.loCurrentMax) {s : PositionPid K}
    (h : s.Bounded conf) (r : PositionReading K) : (s.runPidControlPos conf r).Bounded conf := by
  have houtput : |s.output conf r * conf.loCurrentMax| ≤ conf.loCurrentMax := by
    rw [abs_mul, abs_of_nonneg hlo]
    exact mul_le_of_le_one_left hlo (abs_truncateNumber_le _)
  have hsearch : |0.4 * conf.loCurrentMax| ≤ conf.loCurrentMax := by
    rw [abs_of_nonneg (by positivity)]
    exact mul_le_of_le_one_left hlo (by norm_num)
  unfold runPidControlPos
  split
  next =>
    constructor
    · exact abs_truncateNumber_le _
    · dsimp only
      split
      · split
        · exact houtput
        · exact hsearch
      · exact houtput
  next => exact ⟨by simp, h.iqSet⟩

theorem positionPid_bounded (hlo : 0 ≤ conf.loCurrentMax) (readings : List (PositionReading K)) :
    ((positionPid conf).run PositionPid.start readings).1.Bounded conf := by
  apply Machine.run_invariant (I := PositionPid.Bounded conf)
  · intro s r h
    exact h.step hlo r
  · exact ⟨by simp [PositionPid.start], by simpa [PositionPid.start] using hlo⟩

/-- An error on one side takes the integral term away from the other one. -/
theorem iTerm_falls {push bound : K} {s : PositionPid K} (hs : s.iTerm ≤ max (-1) bound)
    (hpush : 0 ≤ push) {readings : List (PositionReading K)}
    (h : ∀ r ∈ readings, r.controlModePos = true ∧
      r.error conf * (conf.pPidKi * r.dt) ≤ -push) :
    ((positionPid conf).run s readings).1.iTerm ≤ max (-1) (bound - readings.length * push) := by
  induction readings generalizing s bound with
  | nil => simpa using hs
  | cons r readings ih =>
      obtain ⟨hmode, herror⟩ := h r (List.mem_cons_self ..)
      have hnext : (s.runPidControlPos conf r).iTerm ≤ max (-1) (bound - push) := by
        simp only [PositionPid.runPidControlPos, hmode, if_true, PositionPid.nextITerm]
        apply truncateNumber_le (le_max_left _ _)
        rcases le_max_iff.1 hs with hlow | hhigh
        · exact le_max_of_le_left (by linarith)
        · exact le_max_of_le_right (by linarith)
      have hrest := ih hnext fun r' hr' => h r' (List.mem_cons_of_mem r hr')
      rw [Machine.run_cons, positionPid_step hmode, List.length_cons]
      push_cast
      rwa [sub_sub, add_comm push, ← add_one_mul] at hrest

theorem iTerm_rises {push bound : K} {s : PositionPid K} (hs : min 1 bound ≤ s.iTerm)
    (hpush : 0 ≤ push) {readings : List (PositionReading K)}
    (h : ∀ r ∈ readings, r.controlModePos = true ∧
      push ≤ r.error conf * (conf.pPidKi * r.dt)) :
    min 1 (bound + readings.length * push) ≤ ((positionPid conf).run s readings).1.iTerm := by
  induction readings generalizing s bound with
  | nil => simpa using hs
  | cons r readings ih =>
      obtain ⟨hmode, herror⟩ := h r (List.mem_cons_self ..)
      have hnext : min 1 (bound + push) ≤ (s.runPidControlPos conf r).iTerm := by
        simp only [PositionPid.runPidControlPos, hmode, if_true, PositionPid.nextITerm]
        apply le_truncateNumber (min_le_left _ _)
        rcases min_le_iff.1 hs with hhigh | hlow
        · exact min_le_of_left_le (by linarith)
        · exact min_le_of_right_le (by linarith)
      have hrest := ih hnext fun r' hr' => h r' (List.mem_cons_of_mem r hr')
      rw [Machine.run_cons, positionPid_step hmode, List.length_cons]
      push_cast
      rwa [add_assoc, add_comm push, ← add_one_mul] at hrest

/-- After any run the current is within its limit, and an integral term at a bound comes back
with every call at least as far as the error pushes it. -/
theorem positionPid_recovers (hlo : 0 ≤ conf.loCurrentMax) (push : K) (hpush : 0 ≤ push)
    (before after : List (PositionReading K)) (hmode : ∀ r ∈ after, r.controlModePos = true) :
    |((positionPid conf).run PositionPid.start (before ++ after)).1.iqSet| ≤ conf.loCurrentMax ∧
      ((∀ r ∈ after, r.error conf * (conf.pPidKi * r.dt) ≤ -push) →
        ((positionPid conf).run PositionPid.start (before ++ after)).1.iTerm ≤
          max (-1) (1 - after.length * push)) ∧
      ((∀ r ∈ after, push ≤ r.error conf * (conf.pPidKi * r.dt)) →
        min 1 (-1 + after.length * push) ≤
          ((positionPid conf).run PositionPid.start (before ++ after)).1.iTerm) := by
  have hbefore := abs_le.1 (positionPid_bounded hlo before).iTerm
  refine ⟨(positionPid_bounded hlo (before ++ after)).iqSet, ?_, ?_⟩
  · intro h
    rw [Machine.run_append]
    exact iTerm_falls (le_max_of_le_right hbefore.2) hpush fun r hr => ⟨hmode r hr, h r hr⟩
  · intro h
    rw [Machine.run_append]
    exact iTerm_rises (min_le_of_right_le hbefore.1) hpush fun r hr => ⟨hmode r hr, h r hr⟩

theorem positionPid_recovers_target :
    ((positionPid quickPid).run PositionPid.start
        ([targetAhead, targetAhead] ++ [targetBehind])).1.iTerm ≤
      max (-1) (1 - ([targetBehind].length : Rat) * 1) := by
  refine (positionPid_recovers ?_ 1 zero_le_one _ _ ?_).2.1 ?_
  · norm_num [quickPid]
  · simp [targetBehind]
  · simp only [List.mem_singleton, forall_eq]
    decide +kernel

end Proof

end Bldc.Foc
