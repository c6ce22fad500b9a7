import Bldc.App.Limit
import Bldc.Conf.Record
import Bldc.Drive.Utils
import Bldc.Foundation.Switch

/-!
# The nunchuk app

`chuk_thread` polls the nunchuk, and `output_thread` makes currents and speeds of the stick.
The z button turns the direction round when next to no current flows, and the c button holds
the speed.
-/

namespace Bldc.App

open Flash Link Conf Drive Foundation

/-- `chuck_data`. -/
structure ChuckData where
  jsX : Int
  jsY : Int
  accX : Int
  accY : Int
  accZ : Int
  btC : Bool
  btZ : Bool
  deriving DecidableEq, Repr

/-- The six bytes of a report. -/
abbrev ChukReport := Fin 6 → Byte

/-- Two of the lowest bits of an acceleration are in the last byte. -/
def accOf (rxbuf : ChukReport) (high : Fin 6) (shift : Nat) : Int :=
  ((rxbuf high).toNat <<< 2 ||| (rxbuf 5).toNat >>> shift &&& 3 : Nat)

/-- A pressed button is a cleared bit. -/
def pressed (rxbuf : ChukReport) (bit : Nat) : Bool := (rxbuf 5).toNat >>> bit &&& 1 = 0

/-- What `chuk_thread` makes of a report. -/
def chuckData (rxbuf : ChukReport) : ChuckData where
  jsX := (rxbuf 0).toNat
  jsY := (rxbuf 1).toNat
  accX := accOf rxbuf 2 2
  accY := accOf rxbuf 3 4
  accZ := accOf rxbuf 4 6
  btZ := pressed rxbuf 0
  btC := pressed rxbuf 1

/-- `LED_EXT_STATE`, as far as the app uses it. -/
inductive LedExtState where
  | normal
  | brake
  | turnLeft
  | turnRight
  | brakeTurnLeft
  | brakeTurnRight
  | batt
  deriving DecidableEq, Repr

/-- `chuk_control_type`, and the bytes that are none of its values. -/
inductive ChukCtrlType where
  | none
  | current
  | currentNorev
  | other
  deriving DecidableEq, Repr

def ChukCtrlType.ofCode (code : Byte) : ChukCtrlType :=
  match code.toNat with
  | 0 => none
  | 1 => current
  | 2 => currentNorev
  | _ => other

/-- `RPM_FILTER_SAMPLES`. -/
def chukRpmFilterSamples : Nat := 8

/-- `MAX_CURR_DIFFERENCE`. -/
def maxCurrDifference : Rat := 5

/-- The variables of `app_nunchuk`, also the static ones of the threads. -/
structure Nunchuk where
  config : ChukConfig
  chuckD : ChuckData
  chuckError : Int
  outputRunning : Bool
  lastBuffer : ChukReport
  isReverse : Bool
  wasZ : Bool
  prevCurrent : Rat
  wasPid : Bool
  filterBuffer : Nat → Rat
  filterPtr : Nat
  pidRpm : Rat

/-- What `output_thread` reads in an iteration. -/
structure ChukReading where
  hasTimeout : Bool
  currentNow : Rat
  rpmSample : Rat
  mcconf : McConfiguration
  bus : Bus

/-- What an iteration does that is not held up at its start. -/
structure ChukRecord where
  chuckD : ChuckData
  config : ChukConfig
  currentNow : Rat
  led : LedExtState
  reversed : Option Bool
  commands : List Command

namespace Nunchuk

variable (s : Nunchuk) (r : ChukReading)

/-- `app_nunchuk_configure`. -/
def appNunchukConfigure (conf : ChukConfig) : Nunchuk := { s with config := conf }

/-- `app_nunchuk_get_decoded_chuk`. -/
def appNunchukGetDecodedChuk : Rat := (s.chuckD.jsY - 128) / 128

/-- `app_nunchuk_update_output`, which starts the thread and resets the timeout. -/
def appNunchukUpdateOutput (data : ChuckData) : Nunchuk :=
  { s with chuckD := data, outputRunning := true }

/-- An iteration of `chuk_thread` in which every transfer is right, with `timeout_has_timeout`. -/
def chukReport (rxbuf : ChukReport) (hasTimeout : Bool) : Nunchuk :=
  let t := { s with lastBuffer := rxbuf }
  let t := if s.lastBuffer = rxbuf then t
    else { t with chuckError := 0 }.appNunchukUpdateOutput (chuckData rxbuf)
  if hasTimeout then { t with chuckError := 1 } else t

/-- An iteration of `chuk_thread` in which a transfer fails. -/
def chukFailure : Nunchuk := { s with chuckError := 2 }

def ctrlType : ChukCtrlType := .ofCode s.config.ctrlType

/-- What lets an iteration end at once. -/
def stops : Bool := r.hasTimeout || s.chuckError ≠ 0 || s.ctrlType = .none

/-- The z button turns the direction round. -/
def turns : Prop :=
  s.chuckD.btZ ∧ ¬s.wasZ ∧ s.ctrlType = .current ∧ |r.currentNow| < maxCurrDifference

instance : Decidable (s.turns r) := inferInstanceAs (Decidable (_ ∧ _ ∧ _ ∧ _))

/-- `out_val`, after the deadband. -/
def outVal : Rat := utilsDeadband s.appNunchukGetDecodedChuk s.config.hyst 1

/-- The state of the LEDs. -/
def ledState : LedExtState :=
  let xAxis : Rat := (s.chuckD.jsX - 128) / 128
  if s.outVal < -(1 / 1000) then
    if xAxis < -(4 / 10) then .brakeTurnLeft else if xAxis > 4 / 10 then .brakeTurnRight
    else .brake
  else if xAxis < -(4 / 10) then .turnLeft else if xAxis > 4 / 10 then .turnRight
  else .normal

/-- The sample is put into `filter_buffer`. -/
def filterRpm : Nunchuk :=
  { s with
    filterBuffer := Function.update s.filterBuffer s.filterPtr r.rpmSample
    filterPtr := if s.filterPtr + 1 ≥ chukRpmFilterSamples then 0 else s.filterPtr + 1 }

/-- `rpm_filtered`. -/
def rpmFiltered : Rat :=
  (List.range chukRpmFilterSamples).foldl (fun sum i => sum + s.filterBuffer i) 0 / chukRpmFilterSamples

/-- The sign of a speed or a current in the direction of travel. -/
def directional (x : Rat) : Rat := if s.isReverse then -x else x

def limits : Limits where
  rpmLimStart := s.config.rpmLimStart
  rpmLimEnd := s.config.rpmLimEnd
  multiEsc := s.config.multiEsc
  tc := s.config.tc
  tcMaxDiff := s.config.tcMaxDiff
  ccMinCurrent := r.mcconf.ccMinCurrent

/-- The speed that is held when the c button has just been pressed, if it is not too fast in the
other direction. -/
def startPid : Option Rat :=
  if (s.isReverse ∧ s.rpmFiltered > 0) ∨ (¬s.isReverse ∧ s.rpmFiltered < 0) then
    if |s.rpmFiltered| > r.mcconf.sPidMinErpm then none else some 0
  else some s.rpmFiltered

/-- The stick changes the speed that is held. -/
def stepPid : Rat :=
  let step := s.outVal * s.config.stickErpmPerSInCc / 1000
  if s.isReverse then (if s.pidRpm > 0 then 0 else s.pidRpm) - step
  else (if s.pidRpm < 0 then 0 else s.pidRpm) + step

/-- The iteration while the c button is pressed. -/
def holdSpeed : Nunchuk × List Command :=
  match if s.wasPid then some s.stepPid else s.startPid r with
  | none => ({ s with pidRpm := s.rpmFiltered }, [])
  | some pidRpm =>
      ({ s with pidRpm := pidRpm, wasPid := true, prevCurrent := r.currentNow },
        (Demand.speed pidRpm).commands (s.limits r) r.bus)

/-- The current that the stick asks for. -/
def stickCurrent : Rat :=
  if s.outVal ≥ 0 then s.outVal * r.mcconf.lCurrentMax else s.outVal * |r.mcconf.lCurrentMin|

/-- `rpm_lowest`. -/
def rpmLowest : Rat :=
  if s.config.multiEsc then
    r.bus.recentMsgs.foldl (fun lowest msg =>
      if s.directional msg.rpm < lowest then s.directional msg.rpm else lowest)
      (s.directional r.bus.rpm)
  else s.directional r.bus.rpm

/-- The current of a status message in the direction of its duty cycle. -/
def msgCurrent (msg : CanStatusMsg) : Rat := if msg.duty < 0 then -msg.current else msg.current

/-- `current_highest_abs`. -/
def currentHighestAbs : Rat :=
  if s.config.multiEsc then
    r.bus.recentMsgs.foldl (fun highest msg =>
      if |msgCurrent msg| > |highest| then msgCurrent msg else highest) r.currentNow
  else r.currentNow

/-- `ramp_time`. -/
def rampTime : Rat :=
  if |s.stickCurrent r| > |s.prevCurrent| then s.config.rampTimePos else s.config.rampTimeNeg

/-- `ramp_step`. -/
def rampStep : Rat :=
  (r.mcconf.lCurrentMax + |r.mcconf.lCurrentMin|) / (s.rampTime r * 1000)

/-- The current after the ramp. -/
def ramped : Rat :=
  if s.rampTime r > 1 / 100 then
    let currentGoal := Utils.stepTowards s.prevCurrent (s.stickCurrent r) (s.rampStep r)
    let isDecreasing := currentGoal < s.prevCurrent
    let highest := s.directional (s.currentHighestAbs r)
    let goalTmp2 := if |currentGoal - highest| > maxCurrDifference then
        Utils.stepTowards currentGoal highest (2 * s.rampStep r) else currentGoal
    let isDecreasing2 := goalTmp2 < currentGoal
    if (¬isDecreasing ∨ isDecreasing2) ∧ |s.outVal| > 1 / 1000 then goalTmp2 else currentGoal
  else s.stickCurrent r

/-- `current_out` for one controller, whose speed is `rpm`. -/
def currentOut (current rpm : Rat) : Rat :=
  if s.config.multiEsc ∧ s.config.tc then
    (s.limits r).tractionControl current (s.directional rpm - s.rpmLowest r)
  else current

/-- The iteration while the c button is not pressed. -/
def drive : Nunchuk × List Command :=
  let current := s.ramped r
  ({ s with prevCurrent := current, wasPid := false },
    if current < 0 then (Demand.brake current).commands (s.limits r) r.bus
    else
      let current := (s.limits r).softLimit (s.rpmLowest r) current
      (if s.config.multiEsc then
        r.bus.recentMsgs.map fun msg =>
          .canSetCurrent msg.id (s.directional (s.currentOut r current msg.rpm))
      else []) ++ [.setCurrent (s.directional (s.currentOut r current r.bus.rpm))])

/-- The state after an iteration of `output_thread`, and what it has done. -/
def iterate : Nunchuk × List ChukRecord :=
  if ¬s.outputRunning ∨ s.stops r then (s, [])
  else if s.chuckD.btC ∧ s.chuckD.btZ then
    (s, [⟨s.chuckD, s.config, r.currentNow, .batt, none, []⟩])
  else
    let t := if s.turns r then { s with isReverse := !s.isReverse } else s
    let t := { t with wasZ := s.chuckD.btZ }.filterRpm r
    let after := if s.chuckD.btC then t.holdSpeed r else t.drive r
    (after.1,
      [⟨s.chuckD, s.config, r.currentNow, t.ledState, some t.isReverse, after.2⟩])

/-- When the app is started. -/
def start (conf : ChukConfig) : Nunchuk where
  config := conf
  chuckD := ⟨0, 128, 0, 0, 0, false, false⟩
  chuckError := 0
  outputRunning := false
  lastBuffer _ := 0
  isReverse := false
  wasZ := false
  prevCurrent := 0
  wasPid := false
  filterBuffer _ := 0
  filterPtr := 0
  pidRpm := 0

end Nunchuk

inductive ChukStep where
  | configure (conf : ChukConfig)
  | update (data : ChuckData)
  | report (rxbuf : ChukReport) (hasTimeout : Bool)
  | failure
  | iterate (reading : ChukReading)

/-- The app, with what happens to it. -/
def nunchuk : Machine Nunchuk ChukStep ChukRecord where
  step s
    | .configure conf => (s.appNunchukConfigure conf, [])
    | .update data => (s.appNunchukUpdateOutput data, [])
    | .report rxbuf hasTimeout => (s.chukReport rxbuf hasTimeout, [])
    | .failure => (s.chukFailure, [])
    | .iterate reading => s.iterate reading

/-! ## The direction of travel -/

/-- A current or a speed in the direction of travel. -/
def forwards (reverse : Bool) (x : Rat) : Rat := if reverse then -x else x

namespace ChukRecord

variable (e : ChukRecord)

/-- How far the stick moves the speed that is held. -/
def stickStep : Rat :=
  utilsDeadband ((e.chuckD.jsY - 128) / 128) e.config.hyst 1 * e.config.stickErpmPerSInCc / 1000

/-- The iteration drives in this direction. -/
def Drives (reverse : Bool) : Prop :=
  ∃ command ∈ e.commands, ∃ current, command.driveCurrent? = some current ∧
    0 < forwards reverse current

/-- Nothing goes against the direction that the LEDs show, but for one step of the stick while a
speed is held. -/
structure InDirection : Prop where
  drive : ∀ reverse, e.reversed = some reverse → ∀ command ∈ e.commands, ∀ current,
    command.driveCurrent? = some current → 0 ≤ forwards reverse current
  speed : ∀ reverse, e.reversed = some reverse → ∀ rpm, .setPidSpeed rpm ∈ e.commands →
    -|e.stickStep| ≤ forwards reverse rpm

end ChukRecord

section Limit

variable {l : Limits} {current : Rat}

/-- The soft limit leaves a current between the smallest one and the one that came in. -/
theorem softLimit_range (hmin : 0 ≤ l.ccMinCurrent) (hcurrent : 0 ≤ current) (rpmLowest : Rat) :
    0 ≤ l.softLimit rpmLowest current ∧
      l.softLimit rpmLowest current ≤ max current l.ccMinCurrent := by
  unfold Limits.softLimit
  have hback : ¬current < 0 := not_lt.2 hcurrent
  simp only [hback, and_false, if_false]
  split
  next => exact ⟨hmin, le_max_right _ _⟩
  next hend =>
    split
    next hstart =>
      obtain ⟨hstart, hpos⟩ := hstart
      have hend : rpmLowest ≤ l.rpmLimEnd := not_lt.1 fun h => hend ⟨h, hpos⟩
      have hwidth : 0 < l.rpmLimEnd - l.rpmLimStart := by linarith
      obtain ⟨share, hshare⟩ : ∃ share, share =
        (rpmLowest - l.rpmLimStart) / (l.rpmLimEnd - l.rpmLimStart) := ⟨_, rfl⟩
      have hnonneg : 0 ≤ share := hshare ▸ div_nonneg (by linarith) hwidth.le
      have hone : share ≤ 1 := hshare ▸ (div_le_one hwidth).2 (by linarith)
      have hmap : utilsMap rpmLowest l.rpmLimStart l.rpmLimEnd current l.ccMinCurrent =
          share * l.ccMinCurrent + (1 - share) * current := by
        rw [utilsMap, hshare]
        ring
      rw [hmap]
      refine ⟨add_nonneg (mul_nonneg hnonneg hmin) (mul_nonneg (by linarith) hcurrent), ?_⟩
      calc share * l.ccMinCurrent + (1 - share) * current
          ≤ share * max current l.ccMinCurrent + (1 - share) * max current l.ccMinCurrent :=
            add_le_add (mul_le_mul_of_nonneg_left (le_max_right _ _) hnonneg)
              (mul_le_mul_of_nonneg_left (le_max_left _ _) (by linarith))
        _ = max current l.ccMinCurrent := by ring
    next => exact ⟨hcurrent, le_max_left _ _⟩

theorem tractionControl_nonneg (hmin : 0 ≤ l.ccMinCurrent) (current diff : Rat) :
    0 ≤ l.tractionControl current diff := by
  unfold Limits.tractionControl
  split
  next => exact le_rfl
  next h => exact hmin.trans (not_lt.1 h)

/-- A controller that is ahead of the slowest one gets no more than that. -/
theorem tractionControl_le (hdiff : 0 < l.tcMaxDiff) (hcurrent : 0 ≤ current) {diff : Rat}
    (hahead : 0 ≤ diff) : l.tractionControl current diff ≤ current := by
  unfold Limits.tractionControl
  split
  next => exact hcurrent
  next =>
    have hmap : utilsMap diff 0 l.tcMaxDiff current 0 = current - current * (diff / l.tcMaxDiff) := by
      rw [utilsMap]
      ring
    rw [hmap]
    exact sub_le_self _ (mul_nonneg hcurrent (div_nonneg hahead hdiff.le))

end Limit

namespace Nunchuk

variable {s : Nunchuk} {r : ChukReading}

theorem foldl_lowest_le (f : CanStatusMsg → Rat) (msgs : List CanStatusMsg) (first : Rat) :
    msgs.foldl (fun lowest msg => if f msg < lowest then f msg else lowest) first ≤ first ∧
      ∀ msg ∈ msgs,
        msgs.foldl (fun lowest msg => if f msg < lowest then f msg else lowest) first ≤ f msg := by
  induction msgs generalizing first with
  | nil => exact ⟨le_rfl, by simp⟩
  | cons head msgs ih =>
      rw [List.foldl_cons]
      obtain ⟨hfirst, hrest⟩ := ih (if f head < first then f head else first)
      have hle : (if f head < first then f head else first) ≤ first ∧
          (if f head < first then f head else first) ≤ f head := by
        split
        next h => exact ⟨h.le, le_rfl⟩
        next h => exact ⟨le_rfl, not_lt.1 h⟩
      refine ⟨hfirst.trans hle.1, fun msg hmsg => ?_⟩
      obtain rfl | hmem := List.mem_cons.1 hmsg
      · exact hfirst.trans hle.2
      · exact hrest msg hmem

/-- No controller that gets a current is slower than the slowest one. -/
theorem rpmLowest_le (hesc : s.config.multiEsc = true) {rpm : Rat}
    (hrpm : rpm = r.bus.rpm ∨ ∃ msg ∈ r.bus.recentMsgs, rpm = msg.rpm) :
    s.rpmLowest r ≤ s.directional rpm := by
  obtain ⟨hown, hothers⟩ := foldl_lowest_le (fun msg => s.directional msg.rpm) r.bus.recentMsgs
    (s.directional r.bus.rpm)
  rw [rpmLowest, if_pos hesc]
  obtain rfl | ⟨msg, hmem, rfl⟩ := hrpm
  · exact hown
  · exact hothers msg hmem

theorem currentOut_nonneg (hmin : 0 ≤ r.mcconf.ccMinCurrent) {current : Rat}
    (hcurrent : 0 ≤ current) (rpm : Rat) : 0 ≤ s.currentOut r current rpm := by
  unfold currentOut
  split
  next => exact tractionControl_nonneg hmin _ _
  next => exact hcurrent

theorem currentOut_le (hdiff : 0 < s.config.tcMaxDiff) {current : Rat} (hcurrent : 0 ≤ current)
    {rpm : Rat} (hrpm : rpm = r.bus.rpm ∨ ∃ msg ∈ r.bus.recentMsgs, rpm = msg.rpm) :
    s.currentOut r current rpm ≤ current := by
  unfold currentOut
  split
  next h => exact tractionControl_le hdiff hcurrent (sub_nonneg.2 (rpmLowest_le h.1 hrpm))
  next => exact le_rfl

theorem directional_eq (s : Nunchuk) (x : Rat) : s.directional x = forwards s.isReverse x := rfl

theorem abs_forwards (reverse : Bool) (x : Rat) : |forwards reverse x| = |x| := by
  cases reverse
  · rfl
  · exact abs_neg x

/-- The drive currents of an iteration, if it does not brake. -/
theorem drive_commands (hdrive : ¬s.ramped r < 0) {command : Command}
    (hmem : command ∈ (s.drive r).2) : ∃ rpm,
      (rpm = r.bus.rpm ∨ ∃ msg ∈ r.bus.recentMsgs, rpm = msg.rpm) ∧
      command.driveCurrent? = some (forwards s.isReverse
        (s.currentOut r ((s.limits r).softLimit (s.rpmLowest r) (s.ramped r)) rpm)) := by
  unfold drive at hmem
  simp only [if_neg hdrive, List.mem_append, List.mem_singleton] at hmem
  obtain hothers | rfl := hmem
  · split at hothers
    next =>
      obtain ⟨msg, hmsg, rfl⟩ := List.mem_map.1 hothers
      exact ⟨msg.rpm, .inr ⟨msg, hmsg, rfl⟩, rfl⟩
    next => simp at hothers
  · exact ⟨r.bus.rpm, .inl rfl, rfl⟩

/-- A brake command is none of the drive commands. -/
theorem brake_commands (hbrake : s.ramped r < 0) {command : Command}
    (hmem : command ∈ (s.drive r).2) :
    command = .setBrakeCurrent (s.ramped r) ∨
      ∃ id, command = .canSetCurrentBrake id (s.ramped r) := by
  unfold drive Demand.commands at hmem
  simp only [if_pos hbrake, List.mem_cons, List.mem_map] at hmem
  exact hmem.imp_right fun ⟨msg, _, heq⟩ => ⟨msg.id, heq.symm⟩

/-- The part of an iteration behind the LEDs. -/
def act (s : Nunchuk) (r : ChukReading) : Nunchuk × List Command :=
  if s.chuckD.btC then s.holdSpeed r else s.drive r

/-- An iteration that goes on behind the buttons. -/
theorem iterate_eq (hrunning : ¬(¬s.outputRunning ∨ s.stops r))
    (hbuttons : ¬(s.chuckD.btC ∧ s.chuckD.btZ)) :
    ∃ ready : Nunchuk,
      s.iterate r = ((ready.act r).1, [⟨ready.chuckD, ready.config, r.currentNow, ready.ledState,
        some ready.isReverse, (ready.act r).2⟩]) ∧
      ready.chuckD = s.chuckD ∧ ready.config = s.config ∧ ready.prevCurrent = s.prevCurrent ∧
      ready.wasPid = s.wasPid ∧ (ready.isReverse = s.isReverse ∨ s.turns r) := by
  refine ⟨{ (if s.turns r then { s with isReverse := !s.isReverse } else s) with
    wasZ := s.chuckD.btZ }.filterRpm r, ?_, ?_⟩
  · unfold iterate
    rw [if_neg hrunning, if_neg hbuttons]
    split <;> rfl
  · by_cases hturns : s.turns r
    · simp only [if_pos hturns]
      exact ⟨rfl, rfl, rfl, rfl, .inr hturns⟩
    · simp only [if_neg hturns]
      exact ⟨rfl, rfl, rfl, rfl, .inl rfl⟩

end Nunchuk

theorem ChukRecord.InDirection.shown {e : ChukRecord} (h : e.InDirection) {position : Bool}
    (hshown : e.reversed = some position) {reverse : Bool} (hdrives : e.Drives reverse) :
    reverse = position := by
  obtain ⟨command, hmem, current, hcurrent, hpos⟩ := hdrives
  have hnonneg := h.drive position hshown command hmem current hcurrent
  unfold forwards at hpos hnonneg
  cases reverse <;> cases position <;> simp_all <;> linarith

namespace Nunchuk

variable {s : Nunchuk} {r : ChukReading}

end Nunchuk

theorem ChukStep.iterate_or_not (step : ChukStep) :
    (∃ reading, step = .iterate reading) ∨ ∀ reading, step ≠ .iterate reading := by
  cases step with
  | iterate reading => exact .inl ⟨reading, rfl⟩
  | _ =>
    refine .inr fun reading heq => ?_
    cases heq

/-- The other steps change neither the direction nor the current of the ramp. -/
theorem Nunchuk.step_other {step : ChukStep} (h : ∀ reading, step ≠ .iterate reading)
    (s : Nunchuk) :
    (nunchuk.step s step).2 = [] ∧ (nunchuk.step s step).1.isReverse = s.isReverse ∧
      (nunchuk.step s step).1.prevCurrent = s.prevCurrent := by
  cases step with
  | iterate reading => exact absurd rfl (h reading)
  | report rxbuf hasTimeout =>
    simp only [nunchuk, chukReport, appNunchukUpdateOutput, true_and]
    split <;> split <;> exact ⟨rfl, rfl⟩
  | _ => exact ⟨rfl, rfl, rfl⟩

/-- With reverse, and ramps of 0.4 s and 0.2 s. -/
def chukConf : ChukConfig where
  ctrlType := 1
  hyst := 15 / 100
  rpmLimStart := 150000
  rpmLimEnd := 250000
  rampTimePos := 4 / 10
  rampTimeNeg := 2 / 10
  stickErpmPerSInCc := 3000
  multiEsc := false
  tc := false
  tcMaxDiff := 3000

/-- At standstill, with 60 A in both directions. -/
def standing : ChukReading where
  hasTimeout := false
  currentNow := 0
  rpmSample := 0
  mcconf := { (default : McConfiguration) with
    lCurrentMax := 60, lCurrentMin := -60, ccMinCurrent := 5 / 100 }
  bus := ⟨0, 0, 0, []⟩

/-- The stick is pushed to the end, and an iteration follows. -/
def pushed : List ChukStep :=
  [.update ⟨128, 255, 512, 512, 512, false, false⟩, .iterate standing]

section Ramp

theorem abs_stepTowards_sub_le {step : Rat} (hstep : 0 ≤ step) (value goal : Rat) :
    |Utils.stepTowards value goal step - value| ≤ step := by
  unfold Utils.stepTowards
  rw [abs_le]
  split
  next =>
    split
    next => exact ⟨by linarith, by linarith⟩
    next => exact ⟨by linarith, by linarith⟩
  next =>
    split
    next =>
      split
      next => exact ⟨by linarith, by linarith⟩
      next => exact ⟨by linarith, by linarith⟩
    next => exact ⟨by linarith, by linarith⟩

variable {s : Nunchuk} {r : ChukReading}

namespace Nunchuk

/-- The ramp moves the current by three steps at most. -/
theorem abs_ramped_sub_le (htime : s.rampTime r > 1 / 100) (hstep : 0 ≤ s.rampStep r) :
    |s.ramped r - s.prevCurrent| ≤ 3 * s.rampStep r := by
  unfold ramped
  rw [if_pos htime]
  dsimp only
  have hfirst := abs_stepTowards_sub_le hstep s.prevCurrent (s.stickCurrent r)
  generalize Utils.stepTowards s.prevCurrent (s.stickCurrent r) (s.rampStep r) = goal at hfirst ⊢
  have hsecond : |(if |goal - s.directional (s.currentHighestAbs r)| > maxCurrDifference then
      Utils.stepTowards goal (s.directional (s.currentHighestAbs r)) (2 * s.rampStep r)
      else goal) - goal| ≤ 2 * s.rampStep r := by
    split
    next => exact abs_stepTowards_sub_le (mul_nonneg zero_le_two hstep) goal _
    next =>
      rw [sub_self, abs_zero]
      exact mul_nonneg zero_le_two hstep
  generalize (if |goal - s.directional (s.currentHighestAbs r)| > maxCurrDifference then
    Utils.stepTowards goal (s.directional (s.currentHighestAbs r)) (2 * s.rampStep r)
    else goal) = goal2 at hsecond ⊢
  split
  next =>
    calc |goal2 - s.prevCurrent|
        ≤ |goal2 - goal| + |goal - s.prevCurrent| := abs_sub_le _ _ _
      _ ≤ 3 * s.rampStep r := by linarith
  next => linarith

end Nunchuk

end Ramp

/-- The current of a drive or a brake command. -/
def Command.current? : Command → Option Rat
  | .setCurrent current | .setBrakeCurrent current => some current
  | .canSetCurrent _ current | .canSetCurrentBrake _ current => some current
  | _ => none

/-- No current is larger. -/
def ChukRecord.Within (e : ChukRecord) (bound : Rat) : Prop :=
  ∀ command ∈ e.commands, ∀ current, command.current? = some current → |current| ≤ bound

namespace Nunchuk

/-- An iteration without a held speed, with a ramp whose steps are not larger than `most`. -/
structure Ramping (most floor : Rat) (s : Nunchuk) (r : ChukReading) : Prop where
  notHeld : s.chuckD.btC → s.chuckD.btZ
  time : s.rampTime r > 1 / 100
  nonneg : 0 ≤ s.rampStep r
  step : s.rampStep r ≤ most
  min : 0 ≤ r.mcconf.ccMinCurrent
  floor : r.mcconf.ccMinCurrent ≤ floor
  diff : 0 < s.config.tcMaxDiff

/-- An iteration with the stick in the middle and no button, and steps of the ramp that are not
smaller than `least`. -/
structure Released (least : Rat) (s : Nunchuk) (r : ChukReading) : Prop where
  running : s.outputRunning
  goesOn : ¬s.stops r
  button : ¬s.chuckD.btC
  stick : |s.appNunchukGetDecodedChuk| < s.config.hyst
  step : s.rampTime r > 1 / 100 → least ≤ s.rampStep r

variable {s : Nunchuk} {r : ChukReading}

theorem drive_within (hmin : 0 ≤ r.mcconf.ccMinCurrent) (hdiff : 0 < s.config.tcMaxDiff)
    {command : Command} (hmem : command ∈ (s.drive r).2) {current : Rat}
    (hcurrent : command.current? = some current) :
    |current| ≤ max |s.ramped r| r.mcconf.ccMinCurrent := by
  by_cases hbrake : s.ramped r < 0
  · obtain rfl | ⟨id, rfl⟩ := brake_commands hbrake hmem
    · obtain rfl := Option.some.inj hcurrent
      exact le_max_left _ _
    · obtain rfl := Option.some.inj hcurrent
      exact le_max_left _ _
  · have hnonneg := not_lt.1 hbrake
    obtain ⟨rpm, hrpm, heq⟩ := drive_commands hbrake hmem
    have hsame : command.current? = command.driveCurrent? := by
      cases command <;> first | rfl | cases heq
    rw [← hsame, hcurrent, Option.some_inj] at heq
    obtain ⟨hsoft, hle⟩ := softLimit_range (l := s.limits r) hmin hnonneg (s.rpmLowest r)
    rw [heq, abs_forwards, abs_of_nonneg (currentOut_nonneg hmin hsoft rpm),
      abs_of_nonneg hnonneg]
    exact (currentOut_le hdiff hsoft hrpm).trans hle

/-- What the ramp depends on. -/
theorem ramp_congr {t : Nunchuk} (hchuck : t.chuckD = s.chuckD) (hconfig : t.config = s.config)
    (hprev : t.prevCurrent = s.prevCurrent) :
    t.outVal = s.outVal ∧ t.rampTime r = s.rampTime r ∧ t.rampStep r = s.rampStep r := by
  have hout : t.outVal = s.outVal := by
    rw [outVal, outVal, appNunchukGetDecodedChuk, appNunchukGetDecodedChuk, hchuck, hconfig]
  have htime : t.rampTime r = s.rampTime r := by
    rw [rampTime, rampTime, stickCurrent, stickCurrent, hout, hconfig, hprev]
  exact ⟨hout, htime, by rw [rampStep, rampStep, htime]⟩

theorem iterate_ramping {most floor : Rat} (h : s.outputRunning → ¬s.stops r →
      s.Ramping most floor r) :
    |(s.iterate r).1.prevCurrent - s.prevCurrent| ≤ 3 * most * (s.iterate r).2.length ∧
      ∀ e ∈ (s.iterate r).2, e.Within (max (|s.prevCurrent| + 3 * most) floor) := by
  by_cases hrunning : ¬s.outputRunning ∨ s.stops r
  · rw [iterate, if_pos hrunning]
    simp
  · obtain ⟨hnot, htime, hnonneg, hmost, hmin, hfloor, hdiff⟩ := h
      (not_not.1 fun hstopped => hrunning (.inl hstopped)) fun hstops => hrunning (.inr hstops)
    have hmostNonneg := hnonneg.trans hmost
    by_cases hbuttons : s.chuckD.btC ∧ s.chuckD.btZ
    · rw [iterate, if_neg hrunning, if_pos hbuttons]
      refine ⟨by simpa using hmostNonneg, ?_⟩
      rw [List.forall_mem_singleton]
      exact fun command hmem => absurd hmem List.not_mem_nil
    · obtain ⟨ready, heq, hchuck, hconfig, hprev, -, -⟩ := iterate_eq hrunning hbuttons
      obtain ⟨-, hready, hsame⟩ := ramp_congr (r := r) hchuck hconfig hprev
      have hact : ready.act r = ready.drive r := by
        rw [act, if_neg]
        rw [hchuck]
        exact fun hc => hbuttons ⟨hc, hnot hc⟩
      have hstep := abs_ramped_sub_le (s := ready) (r := r) (hready ▸ htime) (hsame ▸ hnonneg)
      rw [hsame, hprev] at hstep
      have hramped : |ready.ramped r - s.prevCurrent| ≤ 3 * most := by linarith
      rw [heq, hact]
      refine ⟨by simpa [drive] using hramped, ?_⟩
      rw [List.forall_mem_singleton]
      intro command hmem current hcurrent
      refine (drive_within hmin (hconfig ▸ hdiff) hmem hcurrent).trans (max_le_max ?_ hfloor)
      have htriangle := abs_sub_abs_le_abs_sub (ready.ramped r) s.prevCurrent
      linarith

end Nunchuk

/-- Iterations whose ramp goes on in small steps. -/
def RampsBy (most floor : Rat) (s : Nunchuk) : ChukStep → Prop
  | .iterate reading =>
      s.outputRunning → ¬s.stops reading → s.Ramping most floor reading
  | _ => True

theorem ChukRecord.Within.mono {e : ChukRecord} {bound bound' : Rat} (h : e.Within bound)
    (hle : bound ≤ bound') : e.Within bound' :=
  fun command hmem current hcurrent => (h command hmem current hcurrent).trans hle

/-- In a run without a held speed the currents rise by at most three steps of the ramp in an
iteration, whatever stick, buttons and the other controllers do. -/
theorem nunchuk_ramps {most floor : Rat} (hmost : 0 ≤ most) {s : Nunchuk} {steps : List ChukStep}
    (h : nunchuk.Always (RampsBy most floor) s steps) :
    ∀ e ∈ (nunchuk.run s steps).2,
      e.Within (max (|s.prevCurrent| + 3 * most * (nunchuk.run s steps).2.length) floor) := by
  have hstart : |s.prevCurrent| ≤ |s.prevCurrent| + 3 * most * ([] : List ChukRecord).length ∧
      ∀ e ∈ ([] : List ChukRecord),
        e.Within (max (|s.prevCurrent| + 3 * most * ([] : List ChukRecord).length) floor) := by
    simp
  have hrun := Machine.run_history_of_always (M := nunchuk) (P := RampsBy most floor)
    (I := fun log t => |t.prevCurrent| ≤ |s.prevCurrent| + 3 * most * log.length ∧
      ∀ e ∈ log, e.Within (max (|s.prevCurrent| + 3 * most * log.length) floor))
    (fun log t step hlog hstep => ?_) hstart h
  · rw [List.nil_append] at hrun
    exact hrun.2
  · obtain ⟨hprev, hall⟩ := hlog
    obtain ⟨reading, rfl⟩ | hother := step.iterate_or_not
    · obtain ⟨hmoves, hnew⟩ := Nunchuk.iterate_ramping hstep
      have hnext : |(t.iterate reading).1.prevCurrent| ≤
          |s.prevCurrent| + 3 * most * (log ++ (t.iterate reading).2).length := by
        have htriangle := abs_sub_abs_le_abs_sub (t.iterate reading).1.prevCurrent t.prevCurrent
        rw [List.length_append, Nat.cast_add, mul_add]
        linarith
      refine ⟨hnext, fun e hmem => ?_⟩
      obtain hold | hmem := List.mem_append.1 hmem
      · refine (hall e hold).mono (max_le_max ?_ le_rfl)
        rw [List.length_append, Nat.cast_add, mul_add]
        have hmore : 0 ≤ 3 * most * ((nunchuk.step t (.iterate reading)).2.length : Rat) := by
          positivity
        linarith
      · refine (hnew e hmem).mono (max_le_max ?_ le_rfl)
        have hone : (1 : Rat) ≤ (t.iterate reading).2.length := by
          exact_mod_cast List.length_pos_of_mem hmem
        have hstep := mul_le_mul_of_nonneg_left hone (mul_nonneg zero_le_three hmost)
        change _ ≤ _ + 3 * most * ((log ++ (t.iterate reading).2).length : Rat)
        rw [List.length_append, Nat.cast_add, mul_add]
        linarith
    · obtain ⟨hsilent, -, hsame⟩ := Nunchuk.step_other hother t
      rw [hsilent, List.append_nil, hsame]
      exact ⟨hprev, hall⟩

theorem nunchuk_ramps_pushed :
    nunchuk.Always (RampsBy (3 / 10) (5 / 100)) (.start chukConf) pushed ∧
      ∀ e ∈ (nunchuk.run (.start chukConf) pushed).2,
        e.Within (max (|(0 : Rat)| + 3 * (3 / 10) * (nunchuk.run (.start chukConf) pushed).2.length)
          (5 / 100)) := by
  have hall : nunchuk.Always (RampsBy (3 / 10) (5 / 100)) (.start chukConf) pushed := by
    refine ⟨trivial, fun _ _ => ?_, trivial⟩
    constructor <;> decide +kernel
  exact ⟨hall, nunchuk_ramps (by norm_num) hall⟩

end Bldc.App
