import Bldc.App.SafeStart
import Bldc.System.Periodic

/-!
# The ADC app

`adc_thread` reads a throttle, and perhaps a brake and buttons, at the configured rate. For
the safe start it adds up the milliseconds that it has slept before idle iterations, which
need not be a whole number, while it remembers the sum as an integer.
-/

namespace Bldc.App

open Flash Link Conf Drive Foundation

/-- `MIN_MS_WITHOUT_POWER`. -/
def minMsWithoutPower : Rat := 500

/-- `FILTER_SAMPLES` and `RPM_FILTER_SAMPLES`. -/
def filterSamples : Nat := 5

def rpmFilterSamples : Nat := 8

/-- `V_REG`. -/
def vReg : Rat := 33 / 10

/-- `adc_control_type`, and the bytes that are none of its values. -/
inductive AdcCtrlType where
  | none
  | current
  | currentRevCenter
  | currentRevButton
  | currentNorevBrakeCenter
  | currentNorevBrakeButton
  | currentNorevBrakeAdc
  | duty
  | dutyRevCenter
  | dutyRevButton
  | other
  deriving DecidableEq, Repr

namespace AdcCtrlType

def ofCode (code : Byte) : AdcCtrlType :=
  match code.toNat with
  | 0 => none
  | 1 => current
  | 2 => currentRevCenter
  | 3 => currentRevButton
  | 4 => currentNorevBrakeCenter
  | 5 => currentNorevBrakeButton
  | 6 => currentNorevBrakeAdc
  | 7 => duty
  | 8 => dutyRevCenter
  | 9 => dutyRevButton
  | _ => other

/-- The types with a button for the reverse direction. -/
def hasRevButton : AdcCtrlType → Bool
  | currentRevButton | currentNorevBrakeButton | dutyRevButton => true
  | _ => false

/-- The throttle with its zero at the center, with the brake or with the button. -/
def scale (pwr brake : Rat) (revButton : Bool) : AdcCtrlType → Rat
  | currentRevCenter | currentNorevBrakeCenter | dutyRevCenter => pwr * 2 - 1
  | currentNorevBrakeAdc => if brake > 1 / 100 then -brake else pwr
  | currentRevButton | currentNorevBrakeButton | dutyRevButton => if revButton then -pwr else pwr
  | none | current | duty | other => pwr

/-- The test before `ms_without_power` is increased. -/
def idle (pwr : Rat) : AdcCtrlType → Bool
  | current | currentRevCenter | currentRevButton | duty | dutyRevCenter | dutyRevButton =>
      |pwr| < 1 / 1000
  | currentNorevBrakeCenter | currentNorevBrakeButton | currentNorevBrakeAdc => pwr < 1 / 1000
  | none | other => false

/-- What the switch makes of the throttle. Other types end the iteration. -/
def demand (mcconf : McConfiguration) (pwr : Rat) : AdcCtrlType → Option Demand
  | current | currentRevCenter | currentRevButton =>
      some (.drive (if pwr ≥ 0 then pwr * mcconf.lCurrentMax else pwr * |mcconf.lCurrentMin|))
  | currentNorevBrakeCenter | currentNorevBrakeButton | currentNorevBrakeAdc =>
      some (if pwr ≥ 0 then .drive (pwr * mcconf.lCurrentMax)
        else .brake |pwr * mcconf.lCurrentMin|)
  | duty | dutyRevCenter | dutyRevButton =>
      some (.duty (utilsMap pwr (-1) 1 (-mcconf.lMaxDuty) mcconf.lMaxDuty))
  | none | other => .none

end AdcCtrlType

/-- `current_mode`. -/
def Demand.currentMode : Demand → Bool
  | drive _ | brake _ => true
  | duty _ | speed _ => false

/-- A ring of samples. -/
structure MeanFilter where
  buffer : List Rat
  ptr : Nat

def MeanFilter.init (samples : Nat) : MeanFilter := ⟨List.replicate samples 0, 0⟩

/-- Store one sample, and take the mean of all. -/
def MeanFilter.add (f : MeanFilter) (sample : Rat) : MeanFilter × Rat :=
  let buffer := f.buffer.set f.ptr sample
  (⟨buffer, if f.ptr + 1 ≥ buffer.length then 0 else f.ptr + 1⟩, buffer.sum / buffer.length)

/-- The variables of `app_adc`, also the static ones of the thread. -/
structure Adc where
  config : AdcConfig
  msWithoutPower : Rat
  pulsesWithoutPowerBefore : Int
  useRxTxAsButtons : Bool
  sleepTime : Word
  filter : MeanFilter
  filter2 : MeanFilter
  rpmFilter : MeanFilter
  wasPid : Bool
  pidRpm : Rat

/-- What the thread reads in an iteration: the two inputs of the ADC and the pins. -/
structure AdcReading where
  fault : FaultCode
  adcExt : Nat
  adcExt2 : Nat
  uartTxPin : Bool
  uartRxPin : Bool
  icuPin : Bool
  mcconf : McConfiguration
  brakeCurrent : Rat
  bus : Bus

/-- A voltage mapped to the range from 0 to 1. -/
def decodeLevel (config : AdcConfig) (voltage : Rat) : Rat :=
  let pwr := utilsMap voltage config.voltageStart config.voltageEnd 0 1
  let pwr := utilsTruncateNumber pwr 0 1
  if config.voltageInverted then 1 - pwr else pwr

namespace Adc

variable (s : Adc) (r : AdcReading)

def ctrlType : AdcCtrlType := .ofCode s.config.ctrlType

/-- `app_adc_configure`. -/
def appAdcConfigure (conf : AdcConfig) : Adc := { s with config := conf, msWithoutPower := 0 }

def limits : Limits where
  rpmLimStart := s.config.rpmLimStart
  rpmLimEnd := s.config.rpmLimEnd
  multiEsc := s.config.multiEsc
  tc := s.config.tc
  tcMaxDiff := s.config.tcMaxDiff
  ccMinCurrent := r.mcconf.ccMinCurrent

/-- The beginning of the loop: `sleep_time`. The rate is not 0. -/
def sleep : Adc := { s with sleepTime := (Sys.sleepTime s.config.updateRateHz).getD 1 }

/-- The time that has been slept, in milliseconds. -/
def sleptMs : Rat := 1000 * (s.sleepTime.toNat : Rat) / chCfgStFrequency

/-- A fault resets the wait, and the iteration goes on. -/
def seeFault : Adc := if r.fault ≠ .none then { s with msWithoutPower := 0 } else s

/-- An input in volts, as it is and filtered. -/
def voltage (value : Nat) : Rat := (value : Rat) / 4095 * vReg

def filtered (f : MeanFilter) (value : Nat) : MeanFilter × Rat :=
  if s.config.useFilter then f.add (voltage value) else (f, voltage value)

def readInputs : Adc :=
  { s with
    filter := (s.filtered s.filter r.adcExt).1
    filter2 := (s.filtered s.filter2 r.adcExt2).1 }

/-- A pin, low if the button is pressed. -/
def button (pin inverted : Bool) : Bool := if inverted then pin else !pin

def ccButton : Bool :=
  if s.useRxTxAsButtons then button r.uartTxPin s.config.ccButtonInverted
  else !s.ctrlType.hasRevButton && button r.icuPin s.config.ccButtonInverted

def revButton : Bool :=
  if s.useRxTxAsButtons then button r.uartRxPin s.config.revButtonInverted
  else s.ctrlType.hasRevButton && button r.icuPin s.config.revButtonInverted

/-- The throttle. -/
def pwr : Rat :=
  let pwr := decodeLevel s.config (s.filtered s.filter r.adcExt).2
  let brake := decodeLevel s.config (s.filtered s.filter2 r.adcExt2).2
  utilsDeadband (s.ctrlType.scale pwr brake (s.revButton r)) s.config.hyst 1

/-- `ms_without_power` is increased, if the iteration is idle. -/
def countMs (idle : Bool) : Adc :=
  if idle then { s with msWithoutPower := s.msWithoutPower + s.sleptMs } else s

/-- The safe start holds back. -/
def holds : Prop := s.msWithoutPower < minMsWithoutPower ∧ s.config.safeStart

instance : Decidable s.holds := inferInstanceAs (Decidable (_ ∧ _))

/-- A sum that has not changed begins anew. The sum is remembered as an integer. -/
def wait : Adc :=
  let ms := if s.msWithoutPower = s.pulsesWithoutPowerBefore then 0 else s.msWithoutPower
  { s with msWithoutPower := ms, pulsesWithoutPowerBefore := truncate ms }

/-- The brake, also for the others. -/
def waitCommands : List Command :=
  .setBrakeCurrent r.brakeCurrent ::
    if s.config.multiEsc then
      r.bus.recentMsgs.map fun msg => .canSetCurrentBrake msg.id r.brakeCurrent
    else []

/-- Beyond the safe start: the button holds the present speed, or the demand is met. -/
def drive (demand : Demand) (pressed : Bool) : Adc × List Command :=
  let rpmFiltered := s.rpmFilter.add r.bus.rpm
  let s := { s with rpmFilter := rpmFiltered.1 }
  if pressed then
    let pidRpm := if s.wasPid then s.pidRpm else rpmFiltered.2
    ({ s with wasPid := true, pidRpm := pidRpm },
      .setPidSpeed pidRpm :: (s.limits r).sendDuty r.bus)
  else ({ s with wasPid := false }, demand.commands (s.limits r) r.bus)

/-- The variables when the throttle is judged. -/
def judge : Adc := (s.seeFault r).readInputs r

/-- The state after an iteration of `adc_thread`, and its commands. -/
def next : Adc × List Command :=
  let t := s.judge r
  match s.ctrlType.demand r.mcconf (s.pwr r) with
  | none => (t, [])
  | some demand =>
      let t := t.countMs (s.ctrlType.idle (s.pwr r))
      if t.holds then (t.wait, t.waitCommands r)
      else t.drive r demand (demand.currentMode && s.ccButton r && |s.pwr r| < 1 / 1000)

/-- What an iteration of `adc_thread` is. -/
def record : Happening :=
  .iteration
    { fault := r.fault ≠ .none
      idle := s.ctrlType.idle (s.pwr r)
      weight := s.sleptMs
      safeStart := s.config.safeStart
      commands := (s.next r).2 }

/-- When the thread is started. -/
def start (conf : AdcConfig) (useRxTxAsButtons : Bool) : Adc where
  config := conf
  msWithoutPower := 0
  pulsesWithoutPowerBefore := 0
  useRxTxAsButtons := useRxTxAsButtons
  sleepTime := 0
  filter := .init filterSamples
  filter2 := .init filterSamples
  rpmFilter := .init rpmFilterSamples
  wasPid := false
  pidRpm := 0

end Adc

inductive AdcStep where
  | configure (conf : AdcConfig)
  -- `sleep_time` is computed at the beginning of the loop, so that a configuration may
  -- come before it or during the sleep
  | sleep
  | iterate (reading : AdcReading)

/-- A type with a branch of its own in the switch. -/
def AdcCtrlType.IsUsed (type : AdcCtrlType) : Prop := type ≠ none ∧ type ≠ other

theorem AdcCtrlType.demand_isSome {type : AdcCtrlType} (h : type.IsUsed)
    (mcconf : McConfiguration) (pwr : Rat) : ∃ demand, type.demand mcconf pwr = some demand := by
  cases type with
  | none => exact absurd rfl h.1
  | other => exact absurd rfl h.2
  | _ => exact ⟨_, rfl⟩

namespace Adc

/-- The idle row, also the one behind the last fault if no fault is seen by an idle
iteration. -/
def IdleRow (history : List Happening) : Prop :=
  IdleFrom 500 history ∧
    ((∀ e ∈ history, e.IsIdle → ¬e.IsReset) → IdleSince 500 history)

/-- An iteration with power finds a whole number of milliseconds, if it has to wait. -/
def WholeMs (s : Adc) : AdcStep → Prop
  | .iterate r =>
      s.config.safeStart → r.fault = .none → s.ctrlType.idle (s.pwr r) = false →
        s.msWithoutPower < 500 → (truncate s.msWithoutPower : Rat) = s.msWithoutPower
  | .configure _ | .sleep => True

variable {s : Adc} {r : AdcReading} {history : List Happening}

theorem judge_settings (s : Adc) (r : AdcReading) :
    (s.judge r).config = s.config ∧
      (s.judge r).pulsesWithoutPowerBefore = s.pulsesWithoutPowerBefore ∧
      (s.judge r).sleptMs = s.sleptMs ∧
      (s.judge r).msWithoutPower = if r.fault ≠ .none then 0 else s.msWithoutPower := by
  unfold judge seeFault readInputs sleptMs
  dsimp only
  split <;> exact ⟨rfl, rfl, rfl, rfl⟩

theorem countMs_settings (s : Adc) (idle : Bool) :
    (s.countMs idle).config = s.config ∧
      (s.countMs idle).pulsesWithoutPowerBefore = s.pulsesWithoutPowerBefore := by
  unfold countMs
  split <;> exact ⟨rfl, rfl⟩

theorem drive_settings (s : Adc) (r : AdcReading) (demand : Demand) (pressed : Bool) :
    (s.drive r demand pressed).1.config = s.config := by
  unfold drive
  dsimp only
  split <;> rfl

theorem next_config (s : Adc) (r : AdcReading) : (s.next r).1.config = s.config := by
  have hjudge := (s.judge_settings r).1
  unfold next
  dsimp only
  split
  · exact hjudge
  · have hcount := ((s.judge r).countMs_settings (s.ctrlType.idle (s.pwr r))).1.trans hjudge
    split
    · exact hcount
    · rw [drive_settings, hcount]

/-- The sum in an idle iteration. A fault lets it begin with this iteration. -/
theorem idleNow_of_idle (h : Waiting 500 history s.msWithoutPower s.pulsesWithoutPowerBefore)
    (hidle : s.ctrlType.idle (s.pwr r) = true) :
    IdleFrom 500 (history ++ [s.record r]) ∨
      IdleNow ((s.judge r).countMs true).msWithoutPower (history ++ [s.record r]) := by
  obtain ⟨-, -, hslept, hms⟩ := s.judge_settings r
  have hcount : ((s.judge r).countMs true).msWithoutPower =
      (if r.fault ≠ .none then 0 else s.msWithoutPower) + s.sleptMs := by
    rw [countMs, if_pos rfl, hms, hslept]
  rw [hcount]
  apply h.idleNow
  · exact hidle
  · intro hreset
    rw [if_pos (of_decide_eq_true hreset), zero_add]
    exact le_rfl
  · intro hreset
    rw [if_neg (fun hfault => hreset (decide_eq_true hfault))]
    exact le_rfl

/-- If the sum is large enough after an iteration, there was a long row. -/
theorem idleFrom_of_count (h : Waiting 500 history s.msWithoutPower s.pulsesWithoutPowerBefore)
    (hcount : 500 ≤ ((s.judge r).countMs (s.ctrlType.idle (s.pwr r))).msWithoutPower) :
    IdleFrom 500 (history ++ [s.record r]) := by
  cases hidle : s.ctrlType.idle (s.pwr r) with
  | true =>
      rw [hidle] at hcount
      exact idleFrom_of_le (idleNow_of_idle h hidle) hcount
  | false =>
      rw [hidle, countMs, if_neg Bool.false_ne_true, (s.judge_settings r).2.2.2] at hcount
      split at hcount
      next => exact absurd hcount (by norm_num)
      next hfault =>
        apply (idleFrom_of_le (h.imp_right And.left) hcount).snoc
        exact fun hreset => hfault (of_decide_eq_true hreset)

/-- An iteration that is held back. -/
theorem waiting_wait (h : Waiting 500 history s.msWithoutPower s.pulsesWithoutPowerBefore)
    (hwhole : s.ctrlType.idle (s.pwr r) = false → r.fault = .none →
      (truncate s.msWithoutPower : Rat) = s.msWithoutPower) :
    Waiting 500 (history ++ [s.record r])
      ((s.judge r).countMs (s.ctrlType.idle (s.pwr r))).wait.msWithoutPower
      ((s.judge r).countMs (s.ctrlType.idle (s.pwr r))).wait.pulsesWithoutPowerBefore := by
  cases hidle : s.ctrlType.idle (s.pwr r) with
  | true => exact waiting_holdBack (idleNow_of_idle h hidle)
  | false =>
      obtain ⟨-, hbefore, -, hms⟩ := s.judge_settings r
      rw [countMs, if_neg Bool.false_ne_true]
      change Waiting 500 _ (holdBack (s.judge r).msWithoutPower _)
        (truncate (holdBack (s.judge r).msWithoutPower _))
      rw [hms, hbefore]
      split
      next =>
        rw [holdBack, ite_self]
        exact waiting_zero _ _ _
      next hfault =>
        apply h.holdBack_powered
        · exact fun hreset => hfault (of_decide_eq_true hreset)
        · exact hwhole hidle (not_not.1 hfault)

/-- Other types do not get beyond the switch. -/
theorem isUsed_of_drives (h : ∃ command ∈ (s.next r).2, command.drives) : s.ctrlType.IsUsed := by
  obtain ⟨command, hmem, -⟩ := h
  have hnone : s.ctrlType.demand r.mcconf (s.pwr r) ≠ none := by
    intro hnone
    unfold next at hmem
    rw [hnone] at hmem
    cases hmem
  constructor <;>
  · intro htype
    rw [htype] at hnone
    exact hnone rfl

theorem waitCommands_brake (s : Adc) (r : AdcReading) :
    ¬∃ command ∈ s.waitCommands r, command.drives := by
  unfold waitCommands
  split <;> simp [Command.drives]

/-- What holds of the history and the variables. -/
structure Tracks (history : List Happening) (s : Adc) : Prop where
  safely : StartsSafely IdleRow history
  waiting : s.config.safeStart → s.ctrlType.IsUsed →
    Waiting 500 history s.msWithoutPower s.pulsesWithoutPowerBefore

theorem IdleFrom.idleRow (h : IdleFrom 500 history) : IdleRow history :=
  ⟨h, h.rowSince (by norm_num)⟩

theorem tracks_next (h : Tracks history s) (hwhole : s.WholeMs (.iterate r)) :
    Tracks (history ++ [s.record r]) (s.next r).1 := by
  have hwaiting : s.config.safeStart → s.ctrlType.IsUsed →
      Waiting 500 (history ++ [s.record r]) (s.next r).1.msWithoutPower
          (s.next r).1.pulsesWithoutPowerBefore ∧
        ((∃ command ∈ (s.next r).2, command.drives) → IdleFrom 500 (history ++ [s.record r])) := by
    intro hsafe hused
    have hbefore := h.waiting hsafe hused
    obtain ⟨demand, hdemand⟩ := AdcCtrlType.demand_isSome hused r.mcconf (s.pwr r)
    unfold next
    rw [hdemand]
    dsimp only
    split
    next hholds =>
      refine ⟨waiting_wait hbefore fun hidle hfault => hwhole hsafe hfault hidle ?_,
        fun hdrives => absurd hdrives (waitCommands_brake _ r)⟩
      have hms := hholds.1
      rw [hidle, countMs, if_neg Bool.false_ne_true, (s.judge_settings r).2.2.2,
        if_neg (not_not.2 hfault)] at hms
      exact hms
    next hholds =>
      have hcount : 500 ≤ ((s.judge r).countMs (s.ctrlType.idle (s.pwr r))).msWithoutPower := by
        rw [holds, (countMs_settings _ _).1, (s.judge_settings r).1, not_and_or, not_lt] at hholds
        exact hholds.resolve_right (not_not.2 hsafe)
      have hrow := idleFrom_of_count hbefore hcount
      exact ⟨.inl hrow, fun _ => hrow⟩
  refine ⟨h.safely.snoc ?_, ?_⟩
  · intro i hi hsafe hdrives
    obtain rfl := Happening.iteration.inj hi
    exact IdleFrom.idleRow ((hwaiting hsafe (isUsed_of_drives hdrives)).2 hdrives)
  · rw [ctrlType, s.next_config r]
    exact fun hsafe hused => (hwaiting hsafe hused).1

theorem tracks_configure (h : Tracks history s) (conf : AdcConfig) :
    Tracks (history ++ [.configured]) (s.appAdcConfigure conf) :=
  ⟨h.safely.snoc nofun, fun _ _ => waiting_zero _ _ _⟩

theorem tracks_start (conf : AdcConfig) (useRxTxAsButtons : Bool) :
    Tracks [] (start conf useRxTxAsButtons) :=
  ⟨startsSafely_nil _, fun _ _ => waiting_zero _ _ _⟩

end Adc

/-- The sleep time of the rate is a whole number of milliseconds. -/
def WholeRate (config : AdcConfig) : Prop :=
  10 ∣ ((Sys.sleepTime config.updateRateHz).getD 1).toNat

namespace Adc

/-- Every sum is a whole number of milliseconds. -/
structure Whole (s : Adc) : Prop where
  rate : WholeRate s.config
  sleep : 10 ∣ s.sleepTime.toNat
  ms : ∃ n : Int, s.msWithoutPower = n

variable {s : Adc}

theorem Whole.congr (h : s.Whole) {t : Adc} (hconfig : t.config = s.config)
    (hsleep : t.sleepTime = s.sleepTime) (hms : ∃ n : Int, t.msWithoutPower = n) : t.Whole :=
  ⟨hconfig ▸ h.rate, hsleep ▸ h.sleep, hms⟩

end Adc

end Bldc.App
