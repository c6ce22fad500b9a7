import Bldc.Drive.State
import Bldc.Link.Can
import Mathlib.Algebra.Order.Field.Basic
import Mathlib.Tactic.Linarith
import Mathlib.Tactic.Ring
import Mathlib.Tactic.NormNum
import Mathlib.Tactic.FieldSimp

/-!
# The current limits of the apps

`ppm_thread` and `adc_thread` end with the same code: a drive current is lowered near the
highest speed, and between several controllers the slowest wheel decides how much current
the others get. The status messages of one iteration are a snapshot here.
-/

namespace Bldc.App

open Link Drive

/-- What an app asks of its own motor, and over CAN of the others. -/
inductive Command where
  | setDuty (dutyCycle : Rat)
  | setPidSpeed (rpm : Rat)
  | setCurrent (current : Rat)
  | setBrakeCurrent (current : Rat)
  | canSetDuty (id : Int) (duty : Rat)
  | canSetCurrent (id : Int) (current : Rat)
  | canSetCurrentBrake (id : Int) (current : Rat)
  deriving DecidableEq, Repr

/-- The settings of `ppm_config` and `adc_config` for the limits, and `cc_min_current`. -/
structure Limits where
  rpmLimStart : Rat
  rpmLimEnd : Rat
  multiEsc : Bool
  tc : Bool
  tcMaxDiff : Rat
  ccMinCurrent : Rat

/-- `UTILS_AGE_S`. -/
def utilsAgeS (now rxTime : Nat) : Rat :=
  ((BitVec.ofNat 32 now - BitVec.ofNat 32 rxTime).toNat : Rat) / 10000

/-- The slots that every loop over the status messages visits: `MAX_CAN_AGE` is 0.1. -/
def recentMsgs (now : Nat) (msgs : List CanStatusMsg) : List CanStatusMsg :=
  msgs.filter fun msg => msg.id ≥ 0 ∧ utilsAgeS now msg.rxTime < 1 / 10

namespace Limits

variable (l : Limits)

/-- `rpm_lowest`. -/
def rpmLowest (rpmLocal : Rat) (msgs : List CanStatusMsg) : Rat :=
  if l.multiEsc then
    msgs.foldl (fun lowest msg => if |msg.rpm| < |lowest| then msg.rpm else lowest) rpmLocal
  else rpmLocal

/-- The soft rpm limit. -/
def softLimit (rpmLowest current : Rat) : Rat :=
  if rpmLowest > l.rpmLimEnd ∧ current > 0 then l.ccMinCurrent
  else if rpmLowest > l.rpmLimStart ∧ current > 0 then
    utilsMap rpmLowest l.rpmLimStart l.rpmLimEnd current l.ccMinCurrent
  -- as in the forward direction
  else if rpmLowest < -l.rpmLimEnd ∧ current < 0 then l.ccMinCurrent
  else if rpmLowest < -l.rpmLimStart ∧ current < 0 then
    -utilsMap (-rpmLowest) l.rpmLimStart l.rpmLimEnd (-current) l.ccMinCurrent
  else current

/-- The traction control for one controller: its difference to the slowest one. -/
def tractionControl (current diff : Rat) : Rat :=
  if utilsMap diff 0 l.tcMaxDiff current 0 < l.ccMinCurrent then 0
  else utilsMap diff 0 l.tcMaxDiff current 0

/-- The current of one controller, whose speed is `rpm`. In reverse everything is negated
before the traction control and the current once more after it. -/
def currentOut (current rpmLowest rpm : Rat) : Rat :=
  let flip (x : Rat) := if current < 0 then -x else x
  if l.multiEsc ∧ l.tc then
    flip (l.tractionControl (flip current) (flip rpm - flip rpmLowest))
  else flip (flip current)

/-- From the soft rpm limit to the end of the iteration: the others, and then the own motor. -/
def driveCurrent (rpmLocal : Rat) (msgs : List CanStatusMsg) (current : Rat) : List Command :=
  let rpmLowest := l.rpmLowest rpmLocal msgs
  let current := l.softLimit rpmLowest current
  (if l.multiEsc then
    msgs.map fun msg => .canSetCurrent msg.id (l.currentOut current rpmLowest msg.rpm)
  else []) ++ [.setCurrent (l.currentOut current rpmLowest rpmLocal)]

end Limits

/-- What an app makes of its input: a duty cycle, a speed, a drive or a brake current. -/
inductive Demand where
  | duty (dutyCycle : Rat)
  | speed (rpm : Rat)
  | drive (current : Rat)
  | brake (current : Rat)

/-- What an app reads of the own motor and of the CAN bus. -/
structure Bus where
  rpm : Rat
  dutyCycleNow : Rat
  now : Nat
  statMsgs : List CanStatusMsg

def Bus.recentMsgs (bus : Bus) : List CanStatusMsg := App.recentMsgs bus.now bus.statMsgs

/-- The duty cycle of the own motor is sent to the others. -/
def Limits.sendDuty (l : Limits) (bus : Bus) : List Command :=
  if l.multiEsc then bus.recentMsgs.map fun msg => .canSetDuty msg.id bus.dutyCycleNow else []

/-- The commands for a demand, up to the end of the iteration. -/
def Demand.commands (l : Limits) (bus : Bus) : Demand → List Command
  | .duty dutyCycle => .setDuty dutyCycle :: l.sendDuty bus
  | .speed rpm => .setPidSpeed rpm :: l.sendDuty bus
  | .drive current => l.driveCurrent bus.rpm bus.recentMsgs current
  -- the brake is sent to all of them, also without `multi_esc`
  | .brake current =>
      .setBrakeCurrent current :: bus.recentMsgs.map fun msg => .canSetCurrentBrake msg.id current

/-! ## What the limits are for -/

/-- The drive current of a command. -/
def Command.driveCurrent? : Command → Option Rat
  | .setCurrent current | .canSetCurrent _ current => some current
  | _ => none

/-- The message of a controller that turns the other way. -/
def reversed (msg : CanStatusMsg) : CanStatusMsg := { msg with rpm := -msg.rpm }

/-- A speed in the direction of the request. -/
def along (request rpm : Rat) : Rat := if request < 0 then -rpm else rpm

namespace Limits

variable (l : Limits)

/-- How far the slowest speed is on its way through the soft limit. -/
def share (rpm : Rat) : Rat :=
  if rpm ≤ l.rpmLimStart then 0
  else if rpm ≤ l.rpmLimEnd then (rpm - l.rpmLimStart) / (l.rpmLimEnd - l.rpmLimStart)
  else 1

/-- What the soft limit is to take away from the request. -/
def reduction (rpmLowest request : Rat) : Rat :=
  l.share (along request rpmLowest) * (|request| - l.ccMinCurrent)

/-- The slowest wheel is not behind the soft limit, and no wheel is slower than it, in the
direction of the request, than makes up for what the soft limit takes away. -/
structure Harmless (rpmLocal : Rat) (msgs : List CanStatusMsg) (request : Rat) : Prop where
  soft : request = 0 ∨ along request (l.rpmLowest rpmLocal msgs) ≤ l.rpmLimEnd ∨
    l.ccMinCurrent = 0
  traction : l.multiEsc → l.tc → ∀ rpm ∈ rpmLocal :: msgs.map (·.rpm),
    (|request| - l.reduction (l.rpmLowest rpmLocal msgs) request) *
        (along request (l.rpmLowest rpmLocal msgs) - along request rpm) ≤
      l.tcMaxDiff * l.reduction (l.rpmLowest rpmLocal msgs) request

/-- Limits for which the functions are what they are meant to be, and a current that is
worth sending. -/
structure Admits (request : Rat) : Prop where
  start : 0 ≤ l.rpmLimStart
  lim : l.rpmLimStart < l.rpmLimEnd
  diff : 0 < l.tcMaxDiff
  min : 0 ≤ l.ccMinCurrent
  request : l.ccMinCurrent ≤ |request|

end Limits

/-! ## The commands, one controller at a time -/

section Speeds

variable (l : Limits) (rpmLocal : Rat) (msgs : List CanStatusMsg)

end Speeds

/-! ## One controller -/

namespace Limits

variable {l : Limits} {request : Rat}

end Limits

/-! ## All of them -/

section All

variable {l : Limits} {request : Rat}

end All

end Bldc.App
