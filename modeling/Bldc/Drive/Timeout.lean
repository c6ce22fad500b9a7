import Bldc.Drive.Guard
import Mathlib.Tactic.Linarith
import Mathlib.Tactic.Ring
import Mathlib.Tactic.NormNum

/-!
# The command timeout

`timeout_thread` brakes the motor when nobody has called `timeout_reset` for the
configured time. It compares a difference of 32-bit tick counts with a number of
ticks that is computed in 32 bits too, while the time that passes is not bounded.
-/

namespace Bldc.Drive

open Flash Conf Foundation

/-- `CH_CFG_ST_FREQUENCY`, in ticks per second. -/
def chCfgStFrequency : Nat := 10000

/-- `MS2ST`. -/
def ms2st (msec : Word) : Word := (msec * BitVec.ofNat 32 chCfgStFrequency + 999) / 1000

/-- The motor and its timeout, at a time that is counted without end. `lastReset` is
the time at which `timeout_reset` was called, which the code does not keep. -/
structure Timed where
  motor : Motor
  lastUpdateTime : Word
  now : Nat
  lastReset : Nat

namespace Timed

variable (s : Timed)

/-- `chVTGetSystemTimeX`. -/
def chVTGetSystemTime : Word := BitVec.ofNat 32 s.now

/-- `chVTTimeElapsedSinceX`. -/
def chVTTimeElapsedSince (start : Word) : Word := s.chVTGetSystemTime - start

/-- `timeout_configure`. -/
def timeoutConfigure (timeout : Word) (brakeCurrent : Rat) : Timed :=
  { s with motor.timeoutMsec := timeout, motor.timeoutBrakeCurrent := brakeCurrent }

/-- `timeout_reset`. -/
def timeoutReset : Timed :=
  { s with lastUpdateTime := s.chVTGetSystemTime, lastReset := s.now }

/-- The comparison in `timeout_thread`. -/
def tooLong : Bool := s.chVTTimeElapsedSince s.lastUpdateTime > ms2st s.motor.timeoutMsec

/-- One round of `timeout_thread`. -/
def check : Timed := { s with motor := s.motor.timeoutThread s.tooLong }

/-- The state after `timeout_init`, which takes the start of the counter for the last
call of `timeout_reset`. -/
def init (c : McConfiguration) (now : Nat) : Timed where
  motor := mcInterfaceInit c
  lastUpdateTime := 0
  now := now
  lastReset := 0

/-- The time since the last `timeout_reset`, in ticks. -/
def elapsed : Nat := s.now - s.lastReset

/-- The same in milliseconds. -/
def elapsedMsec : Rat := s.elapsed * 1000 / chCfgStFrequency

/-- There is a timeout, and more time has passed. -/
def Exceeded : Prop :=
  s.motor.timeoutMsec ≠ 0 ∧ (s.motor.timeoutMsec.toNat : Rat) < s.elapsedMsec

/-- A check that is made now is right. -/
def ChecksRight : Prop := s.check.motor.hasTimeout = true ↔ s.Exceeded

/-- The longest timeout, in milliseconds, whose ticks are computed without overflow. -/
def longestExact : Nat := 429496

/-- The time is one that the check judges rightly. A timeout that is converted exactly
is only missed when the tick counter has come round to a small difference. A longer
one is cut to fewer ticks, so that the time must be on the same side of both. -/
def InRange : Prop :=
  if s.motor.timeoutMsec.toNat ≤ longestExact then
    s.motor.timeoutMsec = 0 ∨ s.elapsed < 2 ^ 32 ∨
      10 * s.motor.timeoutMsec.toNat < s.elapsed % 2 ^ 32
  else
    s.elapsed ≤ 10 * s.motor.timeoutMsec.toNat ∧
        s.elapsed % 2 ^ 32 ≤ (ms2st s.motor.timeoutMsec).toNat ∨
      10 * s.motor.timeoutMsec.toNat < s.elapsed ∧
        (ms2st s.motor.timeoutMsec).toNat < s.elapsed % 2 ^ 32

end Timed

inductive TimeoutStep where
  | wait (ticks : Nat)
  | timeoutReset
  | timeoutConfigure (timeout : Word) (brakeCurrent : Rat)
  | check

/-- `timeout_thread` looks at the clock. -/
def TimeoutStep.isCheck : TimeoutStep → Bool
  | check => true
  | _ => false

/-- Nobody resets or configures the timeout. -/
def TimeoutStep.isQuiet : TimeoutStep → Bool
  | timeoutReset | timeoutConfigure .. => false
  | _ => true

def Timed.step (s : Timed) : TimeoutStep → Timed
  | .wait ticks => { s with now := s.now + ticks }
  | .timeoutReset => s.timeoutReset
  | .timeoutConfigure timeout brakeCurrent => s.timeoutConfigure timeout brakeCurrent
  | .check => s.check

def timeout : Machine Timed TimeoutStep Empty where
  step s step := (s.step step, [])

namespace Timed

variable {s : Timed}

/-! ## One check -/

/-- The tick count of the last reset is the time of the last reset, counted round. -/
structure Dated (s : Timed) : Prop where
  past : s.lastReset ≤ s.now
  count : s.lastUpdateTime = BitVec.ofNat 32 s.lastReset

theorem Dated.elapsedSince (h : s.Dated) :
    (s.chVTTimeElapsedSince s.lastUpdateTime).toNat = s.elapsed % 2 ^ 32 := by
  have hpast := h.past
  rw [chVTTimeElapsedSince, chVTGetSystemTime, h.count, BitVec.toNat_sub, BitVec.toNat_ofNat,
    BitVec.toNat_ofNat, elapsed]
  omega

theorem ms2st_toNat (msec : Word) :
    (ms2st msec).toNat = (msec.toNat * 10000 % 2 ^ 32 + 999) % 2 ^ 32 / 1000 := by
  simp [ms2st, chCfgStFrequency, BitVec.toNat_udiv, BitVec.toNat_add, BitVec.toNat_mul]

theorem ms2st_exact {msec : Word} (h : msec.toNat ≤ longestExact) :
    (ms2st msec).toNat = 10 * msec.toNat := by
  rw [ms2st_toNat]
  unfold longestExact at h
  omega

theorem lt_elapsedMsec_iff {msec : Nat} : (msec : Rat) < s.elapsedMsec ↔ 10 * msec < s.elapsed := by
  have hcast : s.elapsedMsec = (s.elapsed : Rat) / 10 := by
    unfold elapsedMsec chCfgStFrequency
    norm_num
    ring
  rw [hcast, lt_div_iff₀ (by norm_num), mul_comm]
  exact_mod_cast Iff.rfl

theorem check_hasTimeout (h : s.Dated) :
    s.check.motor.hasTimeout = true ↔
      s.motor.timeoutMsec ≠ 0 ∧ (ms2st s.motor.timeoutMsec).toNat < s.elapsed % 2 ^ 32 := by
  have hlong : s.tooLong = true ↔ (ms2st s.motor.timeoutMsec).toNat < s.elapsed % 2 ^ 32 := by
    rw [tooLong, decide_eq_true_iff, gt_iff_lt, BitVec.lt_def, h.elapsedSince]
  rw [← hlong, check, Motor.timeoutThread]
  split
  next hexceeded => exact ⟨fun _ => hexceeded, fun _ => rfl⟩
  next hnot => exact ⟨fun h => (Bool.false_ne_true h).elim, fun h => (hnot h).elim⟩

/-- A check is right exactly if the time is in range. -/
theorem checksRight_iff (h : s.Dated) : s.ChecksRight ↔ s.InRange := by
  unfold ChecksRight Exceeded InRange
  rw [check_hasTimeout h, lt_elapsedMsec_iff]
  split
  next hexact =>
    rw [ms2st_exact hexact]
    by_cases hzero : s.motor.timeoutMsec = 0
    · simp [hzero]
    · simp only [ne_eq, hzero, not_false_iff, true_and, false_or]
      unfold longestExact at hexact
      constructor <;> omega
  next hlong =>
    have hne : s.motor.timeoutMsec ≠ 0 := by
      intro hzero
      exact hlong (hzero ▸ Nat.zero_le _)
    simp only [ne_eq, hne, not_false_iff, true_and]
    constructor <;> omega

/-! ## Runs -/

theorem dated_step (h : s.Dated) (step : TimeoutStep) : (s.step step).Dated := by
  cases step with
  | wait ticks => exact ⟨h.past.trans (Nat.le_add_right _ _), h.count⟩
  | timeoutReset => exact ⟨Nat.le_refl _, rfl⟩
  | timeoutConfigure | check => exact ⟨h.past, h.count⟩

theorem dated_init (c : McConfiguration) (now : Nat) : (init c now).Dated :=
  ⟨Nat.zero_le _, rfl⟩

/-- The timeout has elapsed, and the last check said so. -/
structure Expired (s : Timed) : Prop where
  hasTimeout : s.motor.hasTimeout = true
  exceeded : s.Exceeded

theorem check_exceeded : s.check.Exceeded ↔ s.Exceeded := by
  have htimeout : s.check.motor.timeoutMsec = s.motor.timeoutMsec :=
    (Motor.keeps_timeoutThread s.motor s.tooLong).timeoutMsec
  unfold Exceeded
  rw [htimeout]
  exact Iff.rfl

theorem expired_check (hright : s.ChecksRight) (hset : s.check.motor.hasTimeout = true) :
    s.check.Expired :=
  ⟨hset, check_exceeded.2 (hright.1 hset)⟩

/-- As long as the checks are right, what is exceeded stays so until a reset or a
configuration. -/
theorem expired_step {step : TimeoutStep} (h : s.Expired)
    (hright : step.isCheck → s.ChecksRight) (hquiet : step.isQuiet) : (s.step step).Expired := by
  cases step with
  | wait ticks =>
      refine ⟨h.hasTimeout, h.exceeded.1, ?_⟩
      have hbefore := lt_elapsedMsec_iff.1 h.exceeded.2
      refine lt_elapsedMsec_iff.2 (hbefore.trans_le ?_)
      exact Nat.sub_le_sub_right (Nat.le_add_right _ _) _
  | check => exact expired_check (hright rfl) ((hright rfl).2 h.exceeded)
  | timeoutReset | timeoutConfigure => exact (Bool.false_ne_true hquiet).elim

end Timed

/-- Once a check has set it, `has_timeout` stays set until a reset or a configuration. -/
def StaysSet (s : Timed) (steps : List TimeoutStep) : Prop :=
  ∀ before middle after, steps = before ++ .check :: (middle ++ after) →
    (∀ step ∈ middle, step.isQuiet) →
    (timeout.run s (before ++ [.check])).1.motor.hasTimeout = true →
    (timeout.run s (before ++ .check :: middle)).1.motor.hasTimeout = true

/-- Every check of the run is right, and what is set stays set. -/
structure MeasuresTime (s : Timed) (steps : List TimeoutStep) : Prop where
  right : timeout.Always (fun s step => step.isCheck → s.ChecksRight) s steps
  stays : StaysSet s steps

theorem staysSet_of_right {s : Timed} {steps : List TimeoutStep}
    (hright : timeout.Always (fun s step => step.isCheck → s.ChecksRight) s steps) :
    StaysSet s steps := by
  intro before middle after hsteps hquiet hset
  rw [hsteps, Machine.always_append] at hright
  obtain ⟨-, hcheck, hrest⟩ := hright
  have hmiddle := ((Machine.always_append _ _ _ middle after).1 hrest).1
  rw [Machine.run_append] at hset ⊢
  have hquiet' := Machine.always_of_forall (M := timeout) (P := fun _ step => step.isQuiet)
    (fun _ => hquiet) (timeout.run s before).1.check
  have hexpired := Machine.run_invariant_of_always (M := timeout) (I := Timed.Expired)
    (fun _ _ h hstep => Timed.expired_step h hstep.1 hstep.2)
    (Timed.expired_check (hcheck rfl) hset) (hmiddle.and hquiet')
  exact hexpired.hasTimeout

/-- A run measures time exactly if all its checks come in range. -/
theorem measuresTime_iff (c : McConfiguration) (now : Nat) (steps : List TimeoutStep) :
    MeasuresTime (Timed.init c now) steps ↔
      timeout.Always (fun s step => step.isCheck → s.InRange) (Timed.init c now) steps := by
  have hright := Machine.always_congr_of_invariant (M := timeout) (I := Timed.Dated)
    (P := fun s step => step.isCheck → s.ChecksRight) (Q := fun s step => step.isCheck → s.InRange)
    (fun _ step h => Timed.dated_step h step)
    (fun _ _ h => imp_congr Iff.rfl (Timed.checksRight_iff h)) (Timed.dated_init c now) steps
  rw [← hright]
  exact ⟨MeasuresTime.right, fun h => ⟨h, staysSet_of_right h⟩⟩

/-- The ten minutes of the encoder detection are over after 171 seconds. -/
theorem not_measuresTime_encoder :
    ¬MeasuresTime (Timed.init default 0) [.timeoutConfigure 600000 0, .wait 1705034, .check] := by
  intro h
  obtain ⟨-, -, hright, -⟩ := h.right
  have hset := (hright rfl).1 (by decide +kernel)
  have hlt := Timed.lt_elapsedMsec_iff.1 hset.2
  exact absurd hlt (by decide +kernel)

end Bldc.Drive
