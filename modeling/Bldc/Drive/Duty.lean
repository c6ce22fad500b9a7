import Bldc.Drive.Guard
import Mathlib.Data.Rat.Floor
import Mathlib.Tactic.Linarith
import Mathlib.Tactic.Ring
import Mathlib.Tactic.NormNum
import Mathlib.Tactic.FieldSimp

/-!
# The duty cycle of the timer

`set_duty_cycle_hw` gives the timer a compare value and a top. The switching frequency,
and with it the top, depends on the duty cycle, and the compare value is computed from
the top of the settings before.
-/

namespace Bldc.Drive

open Flash Conf Foundation

/-- `SYSTEM_CORE_CLOCK`. -/
def systemCoreClock : Nat := 168000000

/-- `MCPWM_SWITCH_FREQUENCY_MIN`, `MCPWM_SWITCH_FREQUENCY_MAX` and
`MCPWM_SWITCH_FREQUENCY_DC_MOTOR`. -/
def mcpwmSwitchFrequencyMin : Rat := 3000

def mcpwmSwitchFrequencyMax : Rat := 40000

def mcpwmSwitchFrequencyDcMotor : Rat := 25000

/-- `PWM_MODE_BIPOLAR`. -/
def pwmModeBipolar : Byte := 2

/-- The top of the timer for a switching frequency. -/
def topOf (frequency : Rat) : Nat := systemCoreClock / ⌊frequency⌋₊

/-- The motor, and the `top` and `duty` of `timer_struct`. -/
structure PwmTimer where
  motor : Motor
  top : Nat
  duty : Nat

/-- A call of `set_duty_cycle_hw`: the state before it, and the argument. -/
structure HwCall where
  timer : PwmTimer
  dutyCycle : Rat

namespace PwmTimer

variable (s : PwmTimer)

/-- The argument of `set_duty_cycle_hw` within the limits of the configuration. -/
def limitedDuty (dutyCycle : Rat) : Rat :=
  utilsTruncateNumber dutyCycle s.motor.conf.lMinDuty s.motor.conf.lMaxDuty

/-- The compare value of `set_duty_cycle_hw`, in 16 bits. -/
def nextDuty (dutyCycle : Rat) : Nat :=
  if s.motor.motorType = .bldc ∧ s.motor.conf.pwmMode = pwmModeBipolar ∧
      s.motor.mcpwm.state ≠ .detecting then
    ⌊(s.top : Rat) / 2 * s.limitedDuty dutyCycle + (s.top : Rat) / 2⌋₊ % 2 ^ 16
  else ⌊(s.top : Rat) * s.limitedDuty dutyCycle⌋₊ % 2 ^ 16

/-- The switching frequency that `set_duty_cycle_hw` chooses. -/
def nextFrequency (dutyCycle : Rat) : Rat :=
  if s.motor.motorType = .dc then mcpwmSwitchFrequencyDcMotor
  else if s.motor.mcpwm.state = .detecting ∨ s.motor.conf.pwmMode = pwmModeBipolar then
    mcpwmSwitchFrequencyMax
  else
    mcpwmSwitchFrequencyMin * (1 - |s.limitedDuty dutyCycle|) +
      mcpwmSwitchFrequencyMax * |s.limitedDuty dutyCycle|

/-- `set_duty_cycle_hw`. The compare value comes first. -/
def setDutyCycleHw (dutyCycle : Rat) : PwmTimer × List HwCall :=
  ({ s with duty := s.nextDuty dutyCycle, top := topOf (s.nextFrequency dutyCycle) },
    [⟨s, dutyCycle⟩])

/-- `set_switching_frequency`. -/
def setSwitchingFrequency (frequency : Rat) : PwmTimer := { s with top := topOf frequency }

/-- `stop_pwm_ll` and the `stop_pwm_hw` in it. -/
def stopPwmLl : PwmTimer :=
  { s with motor := s.motor.stopPwmLl }.setSwitchingFrequency mcpwmSwitchFrequencyMax

/-- `full_brake_ll` and the `full_brake_hw` in it. -/
def fullBrakeLl : PwmTimer :=
  { s with motor := s.motor.fullBrakeLl }.setSwitchingFrequency mcpwmSwitchFrequencyMax

/-- `set_duty_cycle_ll`. The motor is as `Motor.setDutyCycleLl` leaves it. -/
def setDutyCycleLl (dutyCycle : Rat) : PwmTimer × List HwCall :=
  let c := s.motor.conf
  let magnitude :=
    if ¬dutyCycle ≥ c.lMinDuty ∧ dutyCycle ≤ -c.lMinDuty then -dutyCycle else dutyCycle
  let next := s.motor.setDutyCycleLl dutyCycle
  let t :=
    if magnitude < c.lMinDuty then
      match s.motor.mcpwm.state with
      | .running =>
          if |s.motor.mcpwm.rpmNow| > s.motor.maxErpmFbrake then s.setDutyCycleHw c.lMinDuty
          else (s.fullBrakeLl, [])
      | .detecting => (s.stopPwmLl, [])
      | .off | .fullBrake => (s, [])
    else s.setDutyCycleHw (if magnitude > c.lMaxDuty then c.lMaxDuty else magnitude)
  ({ t.1 with motor := next }, t.2)

/-- The brake of `set_duty_cycle_hl` for a motor that is not to be driven. -/
def brakeOrRampDown : PwmTimer :=
  if s.motor.brakeOrRampDown.mcpwm.state = .fullBrake then s.fullBrakeLl
  else { s with motor := s.motor.brakeOrRampDown }

/-- `set_duty_cycle_hl`. -/
def setDutyCycleHl (dutyCycle : Rat) : PwmTimer × List HwCall :=
  let c := s.motor.conf
  let dutyCycle := utilsTruncateNumber dutyCycle (-c.lMaxDuty) c.lMaxDuty
  if s.motor.mcpwm.state = .detecting then (s.stopPwmLl, [])
  else
    let s := { s with motor.mcpwm.dutycycleSet := dutyCycle }
    if s.motor.mcpwm.state = .running then (s, [])
    else if |dutyCycle| ≥ c.lMinDuty then
      let now := if |s.motor.mcpwm.dutycycleNow| < c.lMinDuty then sign dutyCycle * c.lMinDuty
        else s.motor.mcpwm.dutycycleNow
      { s with motor.mcpwm.dutycycleNow := now }.setDutyCycleLl now
    else (s.brakeOrRampDown, [])

/-- `mcpwm_set_duty`. -/
def mcpwmSetDuty (dutyCycle : Rat) : PwmTimer × List HwCall :=
  { s with motor.mcpwm.controlMode := .duty }.setDutyCycleHl dutyCycle

/-- `mcpwm_set_duty_noramp`. -/
def mcpwmSetDutyNoramp (dutyCycle : Rat) : PwmTimer × List HwCall :=
  let s := { s with motor.mcpwm.controlMode := .duty }
  if s.motor.mcpwm.state ≠ .running then s.setDutyCycleHl dutyCycle
  else
    { s with
      motor.mcpwm.dutycycleSet := dutyCycle
      motor.mcpwm.dutycycleNow := dutyCycle }.setDutyCycleLl dutyCycle

/-- `mcpwm_init`: half the top of the highest frequency, with the outputs off. -/
def mcpwmInit (c : McConfiguration) : PwmTimer :=
  { motor := mcInterfaceInit c
    top := topOf mcpwmSwitchFrequencyMax
    duty := topOf mcpwmSwitchFrequencyMax / 2 }

end PwmTimer

inductive PwmStep where
  | setDuty (dutyCycle : Rat)
  | setDutyNoramp (dutyCycle : Rat)
  -- one step of the ramp in the control law of `mcpwm_adc_int_handler`
  | ramp (dutyCycle : Rat)
  | stopPwm
  | fullBrake
  | commutate
  -- one pulse of the detection
  | detectPulse
  -- whatever else becomes of the driver: state, speed, control mode
  | drive (mcpwm : Mcpwm)

def PwmTimer.step (s : PwmTimer) : PwmStep → PwmTimer × List HwCall
  | .setDuty dutyCycle => s.mcpwmSetDuty dutyCycle
  | .setDutyNoramp dutyCycle => s.mcpwmSetDutyNoramp dutyCycle
  | .ramp dutyCycle => s.setDutyCycleLl dutyCycle
  | .stopPwm => (s.stopPwmLl, [])
  | .fullBrake => (s.fullBrakeLl, [])
  -- the settings are set once more as they are
  | .commutate => ({ s with motor := s.motor.commutate }, [])
  | .detectPulse => s.setDutyCycleHw (1 / 5)
  | .drive mcpwm => ({ s with motor.mcpwm := mcpwm }, [])

/-- The timer, with the calls of `set_duty_cycle_hw`. -/
def pwmTimer : Machine PwmTimer PwmStep HwCall where
  step := PwmTimer.step

/-! ## The limit -/

/-- The duty cycle is limited, and the timer counts each cycle in one direction. -/
structure AdmitsDuty (c : McConfiguration) : Prop where
  pos : 0 < c.lMinDuty
  le : c.lMinDuty ≤ c.lMaxDuty
  max_le : c.lMaxDuty ≤ 1
  pwmMode : c.pwmMode ≠ pwmModeBipolar

namespace HwCall

variable (call : HwCall)

/-- The settings after the call. -/
def after : PwmTimer := (call.timer.setDutyCycleHw call.dutyCycle).1

/-- The compare value is within the limit, and the ratio is that of the duty cycle, up to
one count. -/
structure Respects : Prop where
  limit : (call.after.duty : Rat) ≤ call.timer.motor.conf.lMaxDuty * call.after.top
  ratio : |(call.after.duty : Rat) / call.after.top - call.timer.limitedDuty call.dutyCycle| ≤
    1 / call.after.top

/-- What is cut off when the duty cycle is made a number of counts of the old top. -/
def rest : Rat :=
  call.timer.top * call.timer.limitedDuty call.dutyCycle -
    ⌊(call.timer.top : Rat) * call.timer.limitedDuty call.dutyCycle⌋₊

/-- The top is already that of the duty cycle, or so close to it that one count, and what
is left to the limit, make up for the difference. -/
def TopKept : Prop :=
  let t := call.timer.limitedDuty call.dutyCycle
  let top' := topOf (call.timer.nextFrequency call.dutyCycle)
  if call.timer.top ≤ top' then t * (top' - call.timer.top) ≤ 1 - call.rest
  else
    t * (call.timer.top - top') ≤
      call.rest + min 1 ((call.timer.motor.conf.lMaxDuty - t) * top')

end HwCall

/-! ## One call -/

theorem AdmitsDuty.congr {c c' : McConfiguration} (h : AdmitsDuty c)
    (hsettings : settings c' = settings c) : AdmitsDuty c' := by
  have hmin : c'.lMinDuty = c.lMinDuty :=
    show (settings c').lMinDuty = (settings c).lMinDuty by rw [hsettings]
  have hmax : c'.lMaxDuty = c.lMaxDuty :=
    show (settings c').lMaxDuty = (settings c).lMaxDuty by rw [hsettings]
  have hmode : c'.pwmMode = c.pwmMode :=
    show (settings c').pwmMode = (settings c).pwmMode by rw [hsettings]
  constructor
  · rw [hmin]
    exact h.pos
  · rw [hmin, hmax]
    exact h.le
  · rw [hmax]
    exact h.max_le
  · rw [hmode]
    exact h.pwmMode

/-- The highest top, that of the lowest frequency. -/
def maxTop : Nat := 56000

theorem topOf_pos {frequency : Rat} (hmin : 3000 ≤ frequency) (hmax : frequency ≤ 40000) :
    0 < topOf frequency := by
  have hle : ⌊frequency⌋₊ ≤ 40000 := Nat.floor_le_of_le (by exact_mod_cast hmax)
  have hge : 3000 ≤ ⌊frequency⌋₊ := Nat.le_floor (by exact_mod_cast hmin)
  exact Nat.div_pos (hle.trans (by decide)) (by omega)

theorem topOf_le {frequency : Rat} (hmin : 3000 ≤ frequency) : topOf frequency ≤ maxTop := by
  have hge : 3000 ≤ ⌊frequency⌋₊ := Nat.le_floor (by exact_mod_cast hmin)
  exact Nat.div_le_div_left hge (by decide)

theorem topOf_max_le : topOf mcpwmSwitchFrequencyMax ≤ maxTop :=
  topOf_le (by norm_num [mcpwmSwitchFrequencyMax])

namespace PwmTimer

variable {s : PwmTimer}

theorem limitedDuty_range (h : AdmitsDuty s.motor.conf) (dutyCycle : Rat) :
    s.motor.conf.lMinDuty ≤ s.limitedDuty dutyCycle ∧
      s.limitedDuty dutyCycle ≤ s.motor.conf.lMaxDuty := by
  unfold limitedDuty utilsTruncateNumber
  split
  next => exact ⟨h.le, le_refl _⟩
  next hmax =>
    split
    next => exact ⟨le_refl _, h.le⟩
    next hmin => exact ⟨not_lt.1 hmin, not_lt.1 hmax⟩

theorem nextFrequency_range (h : AdmitsDuty s.motor.conf) (dutyCycle : Rat) :
    3000 ≤ s.nextFrequency dutyCycle ∧ s.nextFrequency dutyCycle ≤ 40000 := by
  obtain ⟨hmin, hmax⟩ := limitedDuty_range h dutyCycle
  have hpos := h.pos.le.trans hmin
  have hle := hmax.trans h.max_le
  unfold nextFrequency mcpwmSwitchFrequencyMin mcpwmSwitchFrequencyMax mcpwmSwitchFrequencyDcMotor
  rw [abs_of_nonneg hpos]
  split
  · norm_num
  · split
    · norm_num
    · constructor <;> linarith

theorem nextDuty_eq (h : AdmitsDuty s.motor.conf) (htop : s.top ≤ maxTop) (dutyCycle : Rat) :
    s.nextDuty dutyCycle = ⌊(s.top : Rat) * s.limitedDuty dutyCycle⌋₊ := by
  obtain ⟨hmin, hmax⟩ := limitedDuty_range h dutyCycle
  have hle : (s.top : Rat) * s.limitedDuty dutyCycle ≤ s.top :=
    mul_le_of_le_one_right (Nat.cast_nonneg _) (hmax.trans h.max_le)
  have hfloor : ⌊(s.top : Rat) * s.limitedDuty dutyCycle⌋₊ ≤ s.top := Nat.floor_le_of_le hle
  unfold nextDuty
  rw [if_neg (fun hbipolar => h.pwmMode hbipolar.2.1), Nat.mod_eq_of_lt]
  unfold maxTop at htop
  omega

end PwmTimer

theorem ratio_close_iff {duty top t : Rat} (htop : 0 < top) :
    |duty / top - t| ≤ 1 / top ↔ |duty - t * top| ≤ 1 := by
  have hratio : duty / top - t = (duty - t * top) / top := by
    field_simp
  rw [hratio, abs_div, abs_of_pos htop, div_le_div_iff_of_pos_right htop]

/-- A call does what it is asked for exactly if the top is kept. -/
theorem respects_iff {call : HwCall} (h : AdmitsDuty call.timer.motor.conf)
    (htop : call.timer.top ≤ maxTop) : call.Respects ↔ call.TopKept := by
  obtain ⟨hmin, hmax⟩ := PwmTimer.limitedDuty_range h call.dutyCycle
  obtain ⟨hslow, hfast⟩ := PwmTimer.nextFrequency_range h call.dutyCycle
  have hduty : call.after.duty =
      ⌊(call.timer.top : Rat) * call.timer.limitedDuty call.dutyCycle⌋₊ :=
    PwmTimer.nextDuty_eq h htop call.dutyCycle
  have hafter : call.after.top = topOf (call.timer.nextFrequency call.dutyCycle) := rfl
  have hpos : (0 : Rat) < topOf (call.timer.nextFrequency call.dutyCycle) :=
    Nat.cast_pos.2 (topOf_pos hslow hfast)
  have hnonneg : 0 ≤ call.timer.limitedDuty call.dutyCycle := h.pos.le.trans hmin
  have hcounts : 0 ≤ (call.timer.top : Rat) * call.timer.limitedDuty call.dutyCycle :=
    mul_nonneg (Nat.cast_nonneg _) hnonneg
  have hfloor := Nat.floor_le hcounts
  have hceil := Nat.lt_floor_add_one
    ((call.timer.top : Rat) * call.timer.limitedDuty call.dutyCycle)
  have hiff : call.Respects ↔ (call.after.duty : Rat) ≤
      call.timer.motor.conf.lMaxDuty * call.after.top ∧
      |(call.after.duty : Rat) - call.timer.limitedDuty call.dutyCycle * call.after.top| ≤ 1 := by
    rw [← ratio_close_iff (hafter ▸ hpos)]
    exact ⟨fun hrespects => ⟨hrespects.limit, hrespects.ratio⟩, fun hboth => ⟨hboth.1, hboth.2⟩⟩
  rw [hiff, hduty, hafter, abs_le]
  unfold HwCall.TopKept HwCall.rest
  generalize call.timer.limitedDuty call.dutyCycle = t at *
  generalize (topOf (call.timer.nextFrequency call.dutyCycle)) = top' at *
  generalize call.timer.top = top at *
  dsimp only
  split
  next hgrows =>
    have hgrows' : t * top ≤ t * top' := mul_le_mul_of_nonneg_left (Nat.cast_le.2 hgrows) hnonneg
    have hlimit : t * top' ≤ call.timer.motor.conf.lMaxDuty * top' :=
      mul_le_mul_of_nonneg_right hmax hpos.le
    constructor
    · rintro ⟨-, hlow, -⟩
      linarith
    · intro hkept
      exact ⟨by linarith, by linarith, by linarith⟩
  next hshrinks =>
    have hshrinks' : t * top' ≤ t * top :=
      mul_le_mul_of_nonneg_left (Nat.cast_le.2 (not_le.1 hshrinks).le) hnonneg
    rw [← sub_le_iff_le_add', le_min_iff]
    constructor
    · rintro ⟨hlimit, -, hhigh⟩
      exact ⟨by linarith, by linarith⟩
    · rintro ⟨hhigh, hlimit⟩
      exact ⟨by linarith, by linarith, by linarith⟩

/-- With the same top the duty cycle is what it should be. -/
theorem topKept_of_eq {call : HwCall} (h : AdmitsDuty call.timer.motor.conf)
    (heq : call.timer.top = topOf (call.timer.nextFrequency call.dutyCycle)) : call.TopKept := by
  obtain ⟨hmin, -⟩ := PwmTimer.limitedDuty_range h call.dutyCycle
  have hceil := Nat.lt_floor_add_one
    ((call.timer.top : Rat) * call.timer.limitedDuty call.dutyCycle)
  unfold HwCall.TopKept HwCall.rest
  rw [← heq]
  simp only [le_refl, if_true, sub_self, mul_zero]
  linarith

/-! ## Runs -/

namespace PwmTimer

/-- The limits are those of the beginning, and the top is one of those that are set. -/
structure Admits (s : PwmTimer) : Prop where
  conf : AdmitsDuty s.motor.conf
  top : s.top ≤ maxTop

variable {s : PwmTimer}

theorem Admits.keeps (h : s.Admits) {motor : Motor} (hkeeps : s.motor.Keeps motor) :
    { s with motor := motor }.Admits :=
  ⟨h.conf.congr hkeeps.settings, h.top⟩

theorem admits_mcpwmInit {c : McConfiguration} (hc : AdmitsDuty c) : (mcpwmInit c).Admits := by
  refine ⟨hc.congr ?_, topOf_max_le⟩
  unfold mcpwmInit mcInterfaceInit Motor.dispatch
  split <;> rfl

/-- The next state is within the limits, and so is the one of every call. -/
structure Allowed (t : PwmTimer × List HwCall) : Prop where
  next : t.1.Admits
  calls : ∀ call ∈ t.2, call.timer.Admits

theorem Admits.allowed (h : s.Admits) : Allowed (s, []) := ⟨h, by simp⟩

theorem allowed_setDutyCycleHw (h : s.Admits) (dutyCycle : Rat) :
    Allowed (s.setDutyCycleHw dutyCycle) := by
  refine ⟨⟨h.conf, topOf_le (nextFrequency_range h.conf dutyCycle).1⟩, fun call hcall => ?_⟩
  rw [List.mem_singleton.1 hcall]
  exact h

theorem admits_stopPwmLl (h : s.Admits) : s.stopPwmLl.Admits := ⟨h.conf, topOf_max_le⟩

theorem admits_fullBrakeLl (h : s.Admits) : s.fullBrakeLl.Admits := ⟨h.conf, topOf_max_le⟩

theorem Allowed.withMotor {t : PwmTimer × List HwCall} (h : Allowed t) {motor : Motor}
    (hconf : AdmitsDuty motor.conf) : Allowed ({ t.1 with motor := motor }, t.2) :=
  ⟨⟨hconf, h.next.top⟩, h.calls⟩

theorem allowed_setDutyCycleLl (h : s.Admits) (dutyCycle : Rat) :
    Allowed (s.setDutyCycleLl dutyCycle) := by
  have hconf := h.conf.congr (s.motor.keeps_setDutyCycleLl dutyCycle).settings
  unfold setDutyCycleLl
  dsimp only
  refine Allowed.withMotor ?_ hconf
  repeat' split
  all_goals first
    | exact allowed_setDutyCycleHw h _
    | exact (admits_fullBrakeLl h).allowed
    | exact (admits_stopPwmLl h).allowed
    | exact h.allowed

theorem admits_brakeOrRampDown (h : s.Admits) : s.brakeOrRampDown.Admits := by
  unfold brakeOrRampDown
  split
  · exact admits_fullBrakeLl h
  · exact h.keeps s.motor.keeps_brakeOrRampDown

theorem allowed_setDutyCycleHl (h : s.Admits) (dutyCycle : Rat) :
    Allowed (s.setDutyCycleHl dutyCycle) := by
  unfold setDutyCycleHl
  dsimp only
  split
  · exact (admits_stopPwmLl h).allowed
  · split
    · exact Admits.allowed ⟨h.conf, h.top⟩
    · split
      · apply allowed_setDutyCycleLl
        exact ⟨h.conf, h.top⟩
      · apply Admits.allowed
        exact admits_brakeOrRampDown ⟨h.conf, h.top⟩

theorem allowed_mcpwmSetDuty (h : s.Admits) (dutyCycle : Rat) :
    Allowed (s.mcpwmSetDuty dutyCycle) := by
  apply allowed_setDutyCycleHl
  exact ⟨h.conf, h.top⟩

theorem allowed_mcpwmSetDutyNoramp (h : s.Admits) (dutyCycle : Rat) :
    Allowed (s.mcpwmSetDutyNoramp dutyCycle) := by
  unfold mcpwmSetDutyNoramp
  dsimp only
  split
  · apply allowed_setDutyCycleHl
    exact ⟨h.conf, h.top⟩
  · apply allowed_setDutyCycleLl
    exact ⟨h.conf, h.top⟩

theorem allowed_step (h : s.Admits) (i : PwmStep) : Allowed (pwmTimer.step s i) := by
  cases i with
  | setDuty dutyCycle => exact allowed_mcpwmSetDuty h dutyCycle
  | setDutyNoramp dutyCycle => exact allowed_mcpwmSetDutyNoramp h dutyCycle
  | ramp dutyCycle => exact allowed_setDutyCycleLl h dutyCycle
  | stopPwm => exact (admits_stopPwmLl h).allowed
  | fullBrake => exact (admits_fullBrakeLl h).allowed
  | commutate => exact (h.keeps s.motor.keeps_commutate).allowed
  | detectPulse => exact allowed_setDutyCycleHw h (1 / 5)
  | drive mcpwm => exact Admits.allowed ⟨h.conf, h.top⟩

theorem run_admits {c : McConfiguration} (hc : AdmitsDuty c) (steps : List PwmStep) :
    ∀ call ∈ (pwmTimer.run (mcpwmInit c) steps).2, call.timer.Admits :=
  Machine.run_outputs_of_invariant (I := Admits) (P := fun _ _ => True)
    (fun _ i h _ => (allowed_step h i).next) (fun _ i h _ => (allowed_step h i).calls)
    (admits_mcpwmInit hc) (Machine.always_of_forall (fun _ _ _ => trivial) _)

end PwmTimer

/-- In every run the calls that respect the duty cycle are those that keep the top. -/
theorem respects_run_iff {c : McConfiguration} (hc : AdmitsDuty c) (steps : List PwmStep) :
    ∀ call ∈ (pwmTimer.run (PwmTimer.mcpwmInit c) steps).2, call.Respects ↔ call.TopKept := by
  intro call hcall
  obtain ⟨hconf, htop⟩ := PwmTimer.run_admits hc steps call hcall
  exact respects_iff hconf htop

/-! ## A run -/

/-- A BLDC motor with a duty cycle from 0.005 to 0.95, in the synchronous mode. -/
def rampedBldc : McConfiguration :=
  { (default : McConfiguration) with lMinDuty := 1 / 200, lMaxDuty := 19 / 20, pwmMode := 1 }

theorem admitsDuty_rampedBldc : AdmitsDuty rampedBldc := by
  constructor <;> decide +kernel

/-- The duty cycle is set to its limit right after the motor was started. -/
def fullThrottle : List PwmStep := [.setDuty (1 / 2), .setDutyNoramp (19 / 20)]

/-- Both settings reach `set_duty_cycle_hw`. -/
theorem respects_run_iff_fullThrottle :
    (pwmTimer.run (PwmTimer.mcpwmInit rampedBldc) fullThrottle).2.length = 2 ∧
      ∀ call ∈ (pwmTimer.run (PwmTimer.mcpwmInit rampedBldc) fullThrottle).2,
        call.Respects ↔ call.TopKept :=
  ⟨by decide +kernel, respects_run_iff admitsDuty_rampedBldc fullThrottle⟩

/-- It is 50109 counts of 4403. -/
theorem not_respects_fullThrottle : AdmitsDuty rampedBldc ∧
    ¬∀ call ∈ (pwmTimer.run (PwmTimer.mcpwmInit rampedBldc) fullThrottle).2, call.Respects := by
  refine ⟨admitsDuty_rampedBldc, fun hall => ?_⟩
  have hsecond : ∃ call ∈ (pwmTimer.run (PwmTimer.mcpwmInit rampedBldc) fullThrottle).2,
      ¬(call.after.duty : Rat) ≤ call.timer.motor.conf.lMaxDuty * call.after.top := by
    decide +kernel
  obtain ⟨call, hcall, hover⟩ := hsecond
  exact hover (hall call hcall).limit

end Bldc.Drive
