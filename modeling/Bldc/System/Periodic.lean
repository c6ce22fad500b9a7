import Bldc.Conf.Codec
import Bldc.Drive.Duty
import Bldc.Drive.Timeout

/-!
# Settings as divisors

The periodic code divides by settings that the packet thread installs as they arrive: the
sleep times of two threads, the top of the timers for the field oriented control, and the
last count of the encoder.
-/

namespace Bldc.Sys

open Flash Link Conf Foundation Drive

/-- `SENSOR_PORT_MODE_ABI`. -/
def sensorPortModeAbi : Byte := 1

/-- `APP_ADC` and `APP_ADC_UART`, with which `app_init` starts `adc_thread`. -/
def startsAdc (appToUse : Byte) : Prop := appToUse = 2 ∨ appToUse = 5

instance (appToUse : Byte) : Decidable (startsAdc appToUse) :=
  inferInstanceAs (Decidable (_ ∨ _))

/-- The value of `enc_counts` before an encoder is initialized. -/
def encCountsInit : Word := 10000

/-- The division of `int`, which has no value for the divisor 0. -/
def divide (a b : Int) : Option Int := if b = 0 then none else some (a.tdiv b)

/-- The division of `uint32_t`. -/
def divideUnsigned (a b : Word) : Option Word := if b = 0 then none else some (a / b)

/-- `SYSTEM_CORE_CLOCK / (int)m_conf->foc_f_sw`. -/
def focTop (c : McConfiguration) : Option Int := divide systemCoreClock (truncate c.focFSw)

/-- The ticks for which a thread sleeps that runs at this rate. -/
def sleepTime (rateHz : Word) : Option Word :=
  (divideUnsigned (BitVec.ofNat 32 chCfgStFrequency) rateHz).map fun t => if t = 0 then 1 else t

/-- What the code computes from a setting. -/
inductive Result where
  | top (value : Option Int)
  | sleep (value : Option Word)
  -- the counts, and what `TIM_SetAutoreload` is given for them
  | reload (counts value : Word)
  deriving DecidableEq

/-- The division is defined and fits the register, and the difference does not wrap. -/
def Result.InRange : Result → Prop
  | .top value => ∃ top, value = some top ∧ 3 ≤ top ∧ top ≤ 65535
  | .sleep value => value ≠ none
  | .reload counts value => counts.toNat = value.toNat + 1

/-- The settings in force, the counts the encoder has, the copy that `adc_thread` works with,
and whether that thread runs. -/
structure Controller where
  conf : McConfiguration
  encCounts : Word
  appconf : AppConfiguration
  adcConfig : AdcConfig
  adcRunning : Bool

namespace Controller

variable (s : Controller)

/-- `encoder_init_abi`. -/
def encoderInitAbi (counts : Word) : Controller × List Result :=
  ({ s with encCounts := counts }, [.reload counts (counts - 1)])

/-- `encoder_set_counts`. -/
def encoderSetCounts (counts : Word) : Controller × List Result :=
  if counts ≠ s.encCounts then ({ s with encCounts := counts }, [.reload counts (counts - 1)])
  else (s, [])

/-- The encoder in `mc_interface_set_configuration`. -/
def setEncoder (c : McConfiguration) : Controller × List Result :=
  let t := if s.conf.mSensorPortMode ≠ c.mSensorPortMode ∧ c.mSensorPortMode = sensorPortModeAbi
    then s.encoderInitAbi c.mEncoderCounts else (s, [])
  if c.mSensorPortMode = sensorPortModeAbi then
    ((t.1.encoderSetCounts c.mEncoderCounts).1,
      t.2 ++ (t.1.encoderSetCounts c.mEncoderCounts).2)
  else t

/-- `mcpwm_foc_init`: the periods of both timers. -/
def mcpwmFocInit (c : McConfiguration) : List Result := [.top (focTop c), .top (focTop c)]

/-- `mcpwm_foc_set_configuration`. -/
def mcpwmFocSetConfiguration (c : McConfiguration) : List Result := [.top (focTop c)]

/-- `mc_interface_set_configuration`. -/
def mcInterfaceSetConfiguration (c : McConfiguration) : Controller × List Result :=
  let t := s.setEncoder c
  let init := if MotorType.ofCode s.conf.motorType ≠ .foc ∧ MotorType.ofCode c.motorType = .foc
    then mcpwmFocInit c else []
  let set := if MotorType.ofCode c.motorType = .foc then mcpwmFocSetConfiguration c else []
  ({ t.1 with conf := c }, t.2 ++ init ++ set)

/-- `app_set_configuration` and the `app_adc_configure` in it. -/
def appSetConfiguration (c : AppConfiguration) : Controller :=
  { s with appconf := c, adcConfig := c.appAdcConf }

/-- The start of the firmware, with the settings that were stored when they were installed. -/
def restart : Controller × List Result :=
  let t := if s.conf.mSensorPortMode = sensorPortModeAbi
    then { s with encCounts := encCountsInit }.encoderInitAbi s.conf.mEncoderCounts
    else ({ s with encCounts := encCountsInit }, [])
  ({ t.1.appSetConfiguration s.appconf with adcRunning := startsAdc s.appconf.appToUse },
    t.2 ++ if MotorType.ofCode s.conf.motorType = .foc then mcpwmFocInit s.conf else [])

end Controller

inductive Event where
  -- `COMM_SET_MCCONF` and `COMM_SET_APPCONF`, which accept every payload
  | setMcconf (data : Buffer)
  | setAppconf (data : Buffer)
  | cancomStatusThread
  | adcThread
  | restart

def Controller.step (s : Controller) : Event → Controller × List Result
  | .setMcconf data => s.mcInterfaceSetConfiguration (setMcconf data s.conf)
  | .setAppconf data => (s.appSetConfiguration (setAppconf data s.appconf), [])
  | .cancomStatusThread => (s, [.sleep (sleepTime s.appconf.sendCanStatusRateHz)])
  | .adcThread => (s, if s.adcRunning then [.sleep (sleepTime s.adcConfig.updateRateHz)] else [])
  | .restart => s.restart

/-- The controller, with what it computes from its settings. -/
def controller : Machine Controller Event Result where
  step := Controller.step

/-- A round of a thread, or a restart. -/
def Event.isRound : Event → Prop
  | .cancomStatusThread | .adcThread | .restart => True
  | .setMcconf _ | .setAppconf _ => False

/-- Whichever rounds come, what they compute is in range. -/
def Controller.Sound (s : Controller) : Prop :=
  ∀ rounds : List Event, (∀ round ∈ rounds, round.isRound) →
    ∀ result ∈ (controller.run s rounds).2, result.InRange

/-! ## What is in range -/

/-- The motor settings that are used as divisors. -/
structure McDivides (c : McConfiguration) : Prop where
  foc : MotorType.ofCode c.motorType = .foc → (Result.top (focTop c)).InRange
  encoder : c.mSensorPortMode = sensorPortModeAbi → c.mEncoderCounts ≠ 0

theorem reload_inRange_iff (counts : Word) :
    (Result.reload counts (counts - 1)).InRange ↔ counts ≠ 0 := by
  have hlt := counts.isLt
  change counts.toNat = (counts - 1).toNat + 1 ↔ counts ≠ 0
  rw [ne_eq, ← BitVec.toNat_inj, BitVec.toNat_sub]
  change counts.toNat = (2 ^ 32 - 1 + counts.toNat) % 2 ^ 32 + 1 ↔ ¬counts.toNat = 0
  omega

/-- What is computed from a motor configuration. -/
def ComputedFrom (c : McConfiguration) (result : Result) : Prop :=
  c.mSensorPortMode = sensorPortModeAbi ∧
      result = .reload c.mEncoderCounts (c.mEncoderCounts - 1) ∨
    MotorType.ofCode c.motorType = .foc ∧ result = .top (focTop c)

theorem McDivides.inRange {c : McConfiguration} (h : McDivides c) {result : Result}
    (hresult : ComputedFrom c result) : result.InRange := by
  obtain ⟨hmode, rfl⟩ | ⟨hfoc, rfl⟩ := hresult
  · exact (reload_inRange_iff _).2 (h.encoder hmode)
  · exact h.foc hfoc

namespace Controller

variable {s : Controller} {result : Result}

end Controller

end Bldc.Sys
