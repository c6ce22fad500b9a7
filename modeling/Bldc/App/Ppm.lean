import Bldc.App.SafeStart
import Bldc.Foundation.Machine

/-!
# The PPM app

`ppm_thread` is woken by every servo pulse and by a timer. An iteration makes a demand of
the servo value, or applies the brake as long as it waits for the safe start.
-/

namespace Bldc.App

open Flash Link Conf Drive Foundation

/-- `MIN_PULSES_WITHOUT_POWER`. -/
def minPulsesWithoutPower : Int := 50

/-- `ppm_control_type`, and the bytes that are none of its values. -/
inductive PpmCtrlType where
  | none
  | current
  | currentNorev
  | currentNorevBrake
  | duty
  | dutyNorev
  | pid
  | pidNorev
  | other
  deriving DecidableEq, Repr

namespace PpmCtrlType

def ofCode (code : Byte) : PpmCtrlType :=
  match code.toNat with
  | 0 => none
  | 1 => current
  | 2 => currentNorev
  | 3 => currentNorevBrake
  | 4 => duty
  | 5 => dutyNorev
  | 6 => pid
  | 7 => pidNorev
  | _ => other

/-- The test before `pulses_without_power++`. -/
def idle (servoVal : Rat) : PpmCtrlType → Bool
  | current | currentNorev | duty | dutyNorev | pid | pidNorev => |servoVal| < 1 / 1000
  | currentNorevBrake => servoVal < 1 / 1000
  | none | other => false

/-- What the switch makes of the servo value. Other types end the iteration. -/
def demand (config : PpmConfig) (mcconf : McConfiguration) (servoVal : Rat) :
    PpmCtrlType → Option Demand
  | current | currentNorev =>
      some (.drive (if servoVal ≥ 0 then servoVal * mcconf.lCurrentMax
        else servoVal * |mcconf.lCurrentMin|))
  | currentNorevBrake =>
      some (if servoVal ≥ 0 then .drive (servoVal * mcconf.lCurrentMax)
        else .brake |servoVal * mcconf.lCurrentMin|)
  | duty | dutyNorev =>
      some (.duty (utilsMap servoVal (-1) 1 (-mcconf.lMaxDuty) mcconf.lMaxDuty))
  | pid | pidNorev => some (.speed (servoVal * config.pidMaxErpm))
  | none | other => .none

end PpmCtrlType

/-- `++` of an `int`. -/
def increment (n : Int) : Int := if n = 2147483647 then -2147483648 else n + 1

/-- The variables of `app_ppm`, also the static one of the thread. -/
structure Ppm where
  config : PpmConfig
  pulsesWithoutPower : Int
  pulsesWithoutPowerBefore : Int

/-- What the thread reads in an iteration. -/
structure PpmReading where
  hasTimeout : Bool
  timeSinceUpdate : Word
  timeoutMsec : Word
  fault : FaultCode
  servo : Rat
  mcconf : McConfiguration
  brakeCurrent : Rat
  bus : Bus

namespace Ppm

variable (s : Ppm) (r : PpmReading)

def ctrlType : PpmCtrlType := .ofCode s.config.ctrlType

/-- `app_ppm_configure`. -/
def appPpmConfigure (conf : PpmConfig) : Ppm := { s with config := conf, pulsesWithoutPower := 0 }

def limits : Limits where
  rpmLimStart := s.config.rpmLimStart
  rpmLimEnd := s.config.rpmLimEnd
  multiEsc := s.config.multiEsc
  tc := s.config.tc
  tcMaxDiff := s.config.tcMaxDiff
  ccMinCurrent := r.mcconf.ccMinCurrent

/-- A timeout or a fault, with which an iteration ends at once. -/
def stops : Bool :=
  r.hasTimeout || r.timeSinceUpdate > r.timeoutMsec || r.fault ≠ .none

/-- The servo value, scaled for the types without reverse, and the deadband. -/
def servoVal : Rat :=
  utilsDeadband
    (match s.ctrlType with
      | .currentNorev | .dutyNorev | .pidNorev => (r.servo + 1) / 2
      | _ => r.servo)
    s.config.hyst 1

/-- `pulses_without_power++`, if the iteration is idle. -/
def countPulse : Ppm :=
  if s.ctrlType.idle (s.servoVal r) then
    { s with pulsesWithoutPower := increment s.pulsesWithoutPower }
  else s

/-- The safe start holds back. -/
def holds : Prop := s.pulsesWithoutPower < minPulsesWithoutPower ∧ s.config.safeStart

instance : Decidable s.holds := inferInstanceAs (Decidable (_ ∧ _))

/-- A count that has not changed begins anew. -/
def wait : Ppm :=
  let pulses := if s.pulsesWithoutPower = s.pulsesWithoutPowerBefore then 0
    else s.pulsesWithoutPower
  { s with pulsesWithoutPower := pulses, pulsesWithoutPowerBefore := pulses }

/-- The state after an iteration of `ppm_thread`, and its commands. -/
def next : Ppm × List Command :=
  if stops r then ({ s with pulsesWithoutPower := 0 }, [])
  else
    let t := s.countPulse r
    match s.ctrlType.demand s.config r.mcconf (s.servoVal r) with
    | none => (t, [])
    | some demand =>
        if t.holds then (t.wait, [.setBrakeCurrent r.brakeCurrent])
        else (t, demand.commands (s.limits r) r.bus)

/-- What an iteration of `ppm_thread` is. -/
def record : Happening :=
  .iteration
    { fault := stops r
      idle := !stops r && s.ctrlType.idle (s.servoVal r)
      weight := 1
      safeStart := s.config.safeStart
      commands := (s.next r).2 }

/-- When the thread is started. -/
def start (conf : PpmConfig) : Ppm where
  config := conf
  pulsesWithoutPower := 0
  pulsesWithoutPowerBefore := 0

end Ppm

inductive PpmStep where
  | configure (conf : PpmConfig)
  | iterate (reading : PpmReading)

/-- The app, with what happens to it. -/
def ppm : Machine Ppm PpmStep Happening where
  step s
    | .configure conf => (s.appPpmConfigure conf, [.configured])
    | .iterate reading => ((s.next reading).1, [s.record reading])

/-! ## One iteration -/

/-- A type with a branch of its own in the switch. -/
def PpmCtrlType.IsUsed (type : PpmCtrlType) : Prop := type ≠ none ∧ type ≠ other

theorem PpmCtrlType.demand_isSome {type : PpmCtrlType} (h : type.IsUsed) (config : PpmConfig)
    (mcconf : McConfiguration) (servoVal : Rat) :
    ∃ demand, type.demand config mcconf servoVal = some demand := by
  cases type with
  | none => exact absurd rfl h.1
  | other => exact absurd rfl h.2
  | _ => exact ⟨_, rfl⟩

theorem increment_le (n : Int) : increment n ≤ n + 1 := by
  unfold increment
  split <;> omega

namespace Ppm

variable {s : Ppm} {r : PpmReading} {history : List Happening}

/-- What holds of the history and the variables, once a configuration with a safe start
is in force. -/
structure Tracks (history : List Happening) (s : Ppm) : Prop where
  safely : StartsSafely (IdleSince 50) history
  disjoint : ∀ e ∈ history, e.IsIdle → ¬e.IsReset
  waiting : s.config.safeStart → s.ctrlType.IsUsed →
    Waiting 50 history s.pulsesWithoutPower s.pulsesWithoutPowerBefore

theorem record_disjoint (s : Ppm) (r : PpmReading) :
    (s.record r).IsIdle → ¬(s.record r).IsReset := by
  unfold record Happening.IsIdle Happening.IsReset
  cases stops r <;> simp

theorem countPulse_settings (s : Ppm) (r : PpmReading) :
    (s.countPulse r).config = s.config ∧
      (s.countPulse r).pulsesWithoutPowerBefore = s.pulsesWithoutPowerBefore := by
  unfold countPulse
  split <;> exact ⟨rfl, rfl⟩

theorem next_config (s : Ppm) (r : PpmReading) : (s.next r).1.config = s.config := by
  unfold next
  dsimp only
  split
  · rfl
  · split
    · exact (s.countPulse_settings r).1
    · split
      · exact (s.countPulse_settings r).1
      · exact (s.countPulse_settings r).1

/-- The count is that of `holdBack`. -/
theorem wait_count (s : Ppm) : (s.wait.pulsesWithoutPower : Rat) =
    holdBack s.pulsesWithoutPower s.pulsesWithoutPowerBefore := by
  unfold wait holdBack
  simp only [Int.cast_inj]
  split <;> simp

theorem wait_before (s : Ppm) : s.wait.pulsesWithoutPowerBefore =
    truncate (holdBack s.pulsesWithoutPower s.pulsesWithoutPowerBefore) := by
  rw [← wait_count, truncate_intCast]
  rfl

theorem countPulse_of_idle (hidle : s.ctrlType.idle (s.servoVal r) = true) :
    ((s.countPulse r).pulsesWithoutPower : Rat) ≤ s.pulsesWithoutPower + 1 := by
  unfold countPulse
  rw [if_pos hidle]
  exact_mod_cast increment_le s.pulsesWithoutPower

/-- The count after `pulses_without_power++`, if there is one. -/
theorem idleNow_of_idle
    (h : Waiting 50 history s.pulsesWithoutPower s.pulsesWithoutPowerBefore)
    (hstops : stops r = false) (hidle : s.ctrlType.idle (s.servoVal r) = true) :
    IdleFrom 50 (history ++ [s.record r]) ∨
      IdleNow (s.countPulse r).pulsesWithoutPower (history ++ [s.record r]) := by
  apply h.idleNow
  · simp [record, Happening.IsIdle, hstops, hidle]
  · simp [record, Happening.IsReset, hstops]
  · exact fun _ => countPulse_of_idle hidle

/-- If the count is high enough after an iteration, there was a long row. -/
theorem idleFrom_of_count
    (h : Waiting 50 history s.pulsesWithoutPower s.pulsesWithoutPowerBefore)
    (hstops : stops r = false) (hcount : 50 ≤ (s.countPulse r).pulsesWithoutPower) :
    IdleFrom 50 (history ++ [s.record r]) := by
  have hleast : (50 : Rat) ≤ (s.countPulse r).pulsesWithoutPower := by exact_mod_cast hcount
  by_cases hidle : s.ctrlType.idle (s.servoVal r) = true
  · exact idleFrom_of_le (idleNow_of_idle h hstops hidle) hleast
  · rw [countPulse, if_neg hidle] at hleast
    apply (idleFrom_of_le (h.imp_right And.left) hleast).snoc
    simp [record, Happening.IsReset, hstops]

/-- An iteration that is held back. -/
theorem waiting_wait (h : Waiting 50 history s.pulsesWithoutPower s.pulsesWithoutPowerBefore)
    (hstops : stops r = false) :
    Waiting 50 (history ++ [s.record r]) (s.countPulse r).wait.pulsesWithoutPower
      (s.countPulse r).wait.pulsesWithoutPowerBefore := by
  rw [wait_count, wait_before, (s.countPulse_settings r).2]
  by_cases hidle : s.ctrlType.idle (s.servoVal r) = true
  · exact waiting_holdBack (idleNow_of_idle h hstops hidle)
  · rw [countPulse, if_neg hidle]
    apply h.holdBack_powered
    · simp [record, Happening.IsReset, hstops]
    · rw [truncate_intCast]

/-- Other types do not get beyond the switch. -/
theorem isUsed_of_drives (h : ∃ command ∈ (s.next r).2, command.drives) : s.ctrlType.IsUsed := by
  obtain ⟨command, hmem, -⟩ := h
  have hnone : s.ctrlType.demand s.config r.mcconf (s.servoVal r) ≠ none := by
    intro hnone
    unfold next at hmem
    rw [hnone] at hmem
    dsimp only at hmem
    split at hmem <;> cases hmem
  constructor <;>
  · intro htype
    rw [htype] at hnone
    exact hnone rfl

theorem tracks_next (h : Tracks history s) (r : PpmReading) :
    Tracks (history ++ [s.record r]) (s.next r).1 := by
  have hdisjoint : ∀ e ∈ history ++ [s.record r], e.IsIdle → ¬e.IsReset := by
    rw [List.forall_mem_append, List.forall_mem_singleton]
    exact ⟨h.disjoint, s.record_disjoint r⟩
  have hconfig := s.next_config r
  have hwaiting : s.config.safeStart → s.ctrlType.IsUsed →
      Waiting 50 (history ++ [s.record r]) (s.next r).1.pulsesWithoutPower
          (s.next r).1.pulsesWithoutPowerBefore ∧
        ((∃ command ∈ (s.next r).2, command.drives) → IdleFrom 50 (history ++ [s.record r])) := by
    intro hsafe hused
    have hbefore := h.waiting hsafe hused
    obtain ⟨demand, hdemand⟩ := PpmCtrlType.demand_isSome hused s.config r.mcconf (s.servoVal r)
    unfold next
    rw [hdemand]
    dsimp only
    split
    next =>
      refine ⟨?_, by simp⟩
      rw [Int.cast_zero]
      exact waiting_zero _ _ _
    next hstops =>
      rw [Bool.not_eq_true] at hstops
      split
      next hholds => exact ⟨waiting_wait hbefore hstops, by simp [Command.drives]⟩
      next hholds =>
        have hcount : 50 ≤ (s.countPulse r).pulsesWithoutPower := by
          rw [holds, (s.countPulse_settings r).1, not_and_or, not_lt] at hholds
          exact hholds.resolve_right (not_not.2 hsafe)
        have hrow := idleFrom_of_count hbefore hstops hcount
        exact ⟨.inl hrow, fun _ => hrow⟩
  refine ⟨h.safely.snoc ?_, hdisjoint, ?_⟩
  · intro i hi hsafe hdrives
    obtain rfl := Happening.iteration.inj hi
    have hrow := (hwaiting hsafe (isUsed_of_drives hdrives)).2 hdrives
    exact hrow.rowSince (by norm_num) hdisjoint
  · rw [ctrlType, hconfig]
    exact fun hsafe hused => (hwaiting hsafe hused).1

theorem tracks_configure (h : Tracks history s) (conf : PpmConfig) :
    Tracks (history ++ [.configured]) (s.appPpmConfigure conf) := by
  refine ⟨h.safely.snoc nofun, ?_, fun _ _ => ?_⟩
  · rw [List.forall_mem_append, List.forall_mem_singleton]
    exact ⟨h.disjoint, fun hidle => hidle.elim⟩
  · unfold appPpmConfigure
    rw [Int.cast_zero]
    exact waiting_zero _ _ _

theorem tracks_start (conf : PpmConfig) : Tracks [] (start conf) := by
  refine ⟨startsSafely_nil _, by simp, fun _ _ => ?_⟩
  unfold start
  rw [Int.cast_zero]
  exact waiting_zero _ _ _

end Ppm

/-- In every run an iteration with a safe start drives only if 50 idle iterations in an
unbroken row have come since the last timeout, fault or configuration. -/
theorem ppm_startsSafely (conf : PpmConfig) (steps : List PpmStep) :
    StartsSafely (IdleSince 50) (ppm.run (.start conf) steps).2 := by
  have htracks := Machine.run_history_of_always (M := ppm) (P := fun _ _ => True)
    (I := Ppm.Tracks) (fun history s step h _ => ?_) (Ppm.tracks_start conf)
    (Machine.always_of_forall (fun _ _ _ => trivial) _ : ppm.Always _ _ steps)
  · exact htracks.safely
  · cases step with
    | configure conf => exact Ppm.tracks_configure h conf
    | iterate reading => exact Ppm.tracks_next h reading

end Bldc.App
