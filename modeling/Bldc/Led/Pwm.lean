import Bldc.Foundation.Machine
import Mathlib.Analysis.SpecialFunctions.Pow.Real
import Mathlib.Data.Rat.Floor
import Mathlib.Data.Nat.Periodic

/-!
# The brightness of the LEDs on the board

`ledpwm_update_pwm` is called from the timer thread and switches the LEDs on and off. An
intensity is looked up in a gamma table, and the entry is the number of calls in each period
in which the LED is on, wherever the period begins.
-/

namespace Bldc.Led

open Foundation

/-- An entry of the tables of `ledpwm_init` and `ws2811_init`, which reach from zero to `top`. -/
noncomputable def gammaCorrection (top i : Nat) : Nat :=
  ⌊((i : ℝ) / top) ^ (1.0 / 0.45 : ℝ) * top + 0.5⌋₊

/-- `LEDPWM_LED_NUM`. -/
def ledpwmLedNum : Nat := 2

/-- `LEDPWM_CNT_TOP`. -/
def ledpwmCntTop : Nat := 200

/-- The variables of `ledpwm.c`, with the static counter of `ledpwm_update_pwm`. -/
structure LedPwm where
  ledValues : Nat → Nat
  gammaTable : Nat → Nat
  cnt : Nat

/-- The two LEDs. -/
structure LedPins where
  green : Bool
  red : Bool

/-- One of them by its number. -/
def LedPins.lit (pins : LedPins) (led : Nat) : Bool := if led = 0 then pins.green else pins.red

namespace LedPwm

variable (s : LedPwm)

/-- `ledpwm_init`. -/
noncomputable def ledpwmInit : LedPwm :=
  { s with ledValues := fun _ => 0, gammaTable := gammaCorrection ledpwmCntTop }

/-- The value of one LED, if there is such a one. -/
def setValue (led value : Nat) : LedPwm :=
  if led ≥ ledpwmLedNum then s else { s with ledValues := Function.update s.ledValues led value }

/-- The entry of the table that an intensity leads to. -/
def entry (intensity : Rat) : Nat :=
  let intensity := if intensity < 0 then 0 else intensity
  let intensity := if intensity > 1 then 1 else intensity
  ⌊intensity * ledpwmCntTop⌋₊

/-- `ledpwm_set_intensity`. -/
def ledpwmSetIntensity (led : Nat) (intensity : Rat) : LedPwm :=
  s.setValue led (s.gammaTable (entry intensity))

/-- `ledpwm_led_on`. -/
def ledpwmLedOn (led : Nat) : LedPwm := s.setValue led ledpwmCntTop

/-- `ledpwm_led_off`. -/
def ledpwmLedOff (led : Nat) : LedPwm := s.setValue led 0

/-- `ledpwm_update_pwm`. -/
def ledpwmUpdatePwm : LedPwm × LedPins :=
  let cnt := if s.cnt + 1 = ledpwmCntTop then 0 else s.cnt + 1
  ({ s with cnt := cnt }, ⟨¬cnt ≥ s.ledValues 0, ¬cnt ≥ s.ledValues 1⟩)

end LedPwm

inductive LedStep where
  | setIntensity (led : Nat) (intensity : Rat)
  | ledOn (led : Nat)
  | ledOff (led : Nat)
  | updatePwm

/-- The calls of other threads between those of the timer thread. -/
def ledpwm : Machine LedPwm LedStep LedPins where
  step s
    | .setIntensity led intensity => (s.ledpwmSetIntensity led intensity, [])
    | .ledOn led => (s.ledpwmLedOn led, [])
    | .ledOff led => (s.ledpwmLedOff led, [])
    | .updatePwm => (s.ledpwmUpdatePwm.1, [s.ledpwmUpdatePwm.2])

/-- What the step asks of this LED: the number of calls in each period in which it is on. -/
noncomputable def LedStep.brightness? (led : Nat) : LedStep → Option Nat
  | setIntensity led' intensity =>
      if led' = led then
        some (gammaCorrection ledpwmCntTop ⌊min 1 (max 0 intensity) * ledpwmCntTop⌋₊)
      else none
  | ledOn led' => if led' = led then some ledpwmCntTop else none
  | ledOff led' => if led' = led then some 0 else none
  | updatePwm => none

/-- The step is one of the timer thread. -/
def LedStep.updates : LedStep → Bool
  | updatePwm => true
  | _ => false

/-! ## The table -/

section Gamma

variable {top : Nat}

theorem gamma_exponent_pos : (0 : ℝ) < 1.0 / 0.45 := by norm_num

/-- The darkest entry. -/
theorem gammaCorrection_zero (top : Nat) : gammaCorrection top 0 = 0 := by
  rw [gammaCorrection, Nat.cast_zero, zero_div, Real.zero_rpow gamma_exponent_pos.ne', zero_mul,
    zero_add, Nat.floor_eq_zero]
  norm_num

/-- The brightest entry. -/
theorem gammaCorrection_top (htop : 0 < top) : gammaCorrection top top = top := by
  have hne : (top : ℝ) ≠ 0 := Nat.cast_ne_zero.2 htop.ne'
  rw [gammaCorrection, div_self hne, Real.one_rpow, one_mul, Nat.floor_eq_iff (by positivity)]
  constructor <;> norm_num

theorem gammaCorrection_mono {i j : Nat} (h : i ≤ j) :
    gammaCorrection top i ≤ gammaCorrection top j := by
  have hratio : (i : ℝ) / top ≤ (j : ℝ) / top :=
    div_le_div_of_nonneg_right (Nat.cast_le.2 h) (Nat.cast_nonneg top)
  have hpow := Real.rpow_le_rpow (by positivity) hratio gamma_exponent_pos.le
  refine Nat.floor_le_floor ?_
  gcongr

end Gamma

theorem entry_le (intensity : Rat) : LedPwm.entry intensity ≤ ledpwmCntTop := by
  have hle : ∀ x : Rat, (if x > 1 then 1 else x) ≤ 1 := by
    intro x
    split
    next => exact le_refl _
    next h => exact not_lt.1 h
  exact Nat.floor_le_of_le (mul_le_of_le_one_left (Nat.cast_nonneg _) (hle _))

/-! ## One period -/

/-- The counter is in its period, and no LED is on for longer than that. -/
structure InPeriod (s : LedPwm) : Prop where
  cnt : s.cnt < ledpwmCntTop
  values : ∀ led, s.ledValues led ≤ ledpwmCntTop
  table : s.gammaTable = gammaCorrection ledpwmCntTop

theorem InPeriod.setValue {s : LedPwm} (h : InPeriod s) (led : Nat) {value : Nat}
    (hvalue : value ≤ ledpwmCntTop) : InPeriod (s.setValue led value) := by
  unfold LedPwm.setValue
  split
  next => exact h
  next =>
    refine ⟨h.cnt, fun led' => ?_, h.table⟩
    dsimp only
    by_cases hsame : led' = led
    · subst hsame
      rw [Function.update_self]
      exact hvalue
    · rw [Function.update_of_ne hsame]
      exact h.values led'

theorem InPeriod.step {s : LedPwm} (h : InPeriod s) (step : LedStep) :
    InPeriod (ledpwm.step s step).1 := by
  cases step with
  | setIntensity led intensity =>
      have hgamma : s.gammaTable (LedPwm.entry intensity) ≤ ledpwmCntTop := by
        rw [h.table]
        exact (gammaCorrection_mono (entry_le intensity)).trans_eq
          (gammaCorrection_top (by decide))
      exact h.setValue led hgamma
  | ledOn led => exact h.setValue led (le_refl _)
  | ledOff led => exact h.setValue led (Nat.zero_le _)
  | updatePwm =>
      refine ⟨?_, h.values, h.table⟩
      have hcnt := h.cnt
      simp only [ledpwm, LedPwm.ledpwmUpdatePwm]
      split
      next => decide
      next hne => omega

/-- The counter goes round. -/
theorem cnt_update {s : LedPwm} (h : s.cnt < ledpwmCntTop) :
    s.ledpwmUpdatePwm.1.cnt = (s.cnt + 1) % ledpwmCntTop := by
  simp only [LedPwm.ledpwmUpdatePwm]
  split
  next hwrap => rw [hwrap, Nat.mod_self]
  next hne => rw [Nat.mod_eq_of_lt (by omega)]

theorem lit_update {s : LedPwm} {led : Nat} (hled : led < ledpwmLedNum)
    (h : s.cnt < ledpwmCntTop) :
    s.ledpwmUpdatePwm.2.lit led =
      decide ((s.cnt + 1) % ledpwmCntTop < s.ledValues led) := by
  rw [← cnt_update h]
  unfold ledpwmLedNum at hled
  obtain rfl | rfl : led = 0 ∨ led = 1 := by omega
  · simp [LedPins.lit, LedPwm.ledpwmUpdatePwm]
  · simp [LedPins.lit, LedPwm.ledpwmUpdatePwm]

theorem setValue_other {s : LedPwm} {led led' : Nat} (h : led' ≠ led) (value : Nat) :
    (s.setValue led' value).ledValues led = s.ledValues led ∧
      (s.setValue led' value).cnt = s.cnt := by
  unfold LedPwm.setValue
  split
  next => exact ⟨rfl, rfl⟩
  next => exact ⟨Function.update_of_ne (Ne.symm h) _ _, rfl⟩

theorem ledValues_step {s : LedPwm} {led : Nat} {step : LedStep}
    (h : step.brightness? led = none) (hupdates : step.updates = false) :
    (ledpwm.step s step).1.ledValues led = s.ledValues led ∧
      (ledpwm.step s step).1.cnt = s.cnt ∧ (ledpwm.step s step).2 = [] := by
  have hother : ∀ {led' value : Nat}, (if led' = led then some value else none) = none →
      led' ≠ led := by
    rintro led' value hnone rfl
    rw [if_pos rfl] at hnone
    cases hnone
  cases step with
  | setIntensity led' intensity =>
      exact ⟨(setValue_other (hother h) _).1, (setValue_other (hother h) _).2, rfl⟩
  | ledOn led' => exact ⟨(setValue_other (hother h) _).1, (setValue_other (hother h) _).2, rfl⟩
  | ledOff led' => exact ⟨(setValue_other (hother h) _).1, (setValue_other (hother h) _).2, rfl⟩
  | updatePwm => cases hupdates

/-- While it is not set, an LED is lit in the calls in which the counter is below its value. -/
theorem lit_run {s : LedPwm} {led c : Nat} (hled : led < ledpwmLedNum)
    (hc : s.cnt = c % ledpwmCntTop) {steps : List LedStep}
    (hkeeps : ∀ step ∈ steps, step.brightness? led = none) :
    (ledpwm.run s steps).2.map (fun pins => pins.lit led) =
      (List.range' (c + 1) (steps.countP LedStep.updates)).map fun cnt =>
        decide (cnt % ledpwmCntTop < s.ledValues led) := by
  have hlt : s.cnt < ledpwmCntTop := hc ▸ Nat.mod_lt c (by decide)
  induction steps generalizing s c with
  | nil => rfl
  | cons step steps ih =>
      obtain ⟨hfirst, hrest⟩ := List.forall_mem_cons.1 hkeeps
      rw [Machine.run_cons, List.map_append, List.countP_cons]
      cases hupdates : step.updates with
      | false =>
          obtain ⟨hvalue, hcnt, hout⟩ := ledValues_step (s := s) hfirst hupdates
          rw [hout, ih (hcnt.trans hc) hrest (hcnt.trans_lt hlt), hvalue]
          rfl
      | true =>
          cases step with
          | updatePwm =>
              have hnext : s.ledpwmUpdatePwm.1.cnt = (c + 1) % ledpwmCntTop := by
                rw [cnt_update hlt, hc, Nat.mod_add_mod]
              have hstep : ledpwm.step s .updatePwm =
                  (s.ledpwmUpdatePwm.1, [s.ledpwmUpdatePwm.2]) := rfl
              rw [hstep, ih hnext hrest (hnext ▸ Nat.mod_lt _ (by decide)), if_pos rfl,
                List.range'_succ, List.map_cons, List.map_cons, lit_update hled hlt, hc,
                Nat.mod_add_mod]
              rfl
          | setIntensity => cases hupdates
          | ledOn => cases hupdates
          | ledOff => cases hupdates

/-- In a full period the counter is below a value as often as the value says. -/
theorem countP_period {value top : Nat} (h : value ≤ top) (start : Nat) :
    (List.range' start top).countP (fun cnt => decide (cnt % top < value)) = value := by
  have hperiodic : Function.Periodic (fun cnt => cnt % top < value) top := by
    intro cnt
    simp only [Nat.add_mod_right]
  have hcard : (Multiset.filter (fun cnt => cnt % top < value)
      (List.range' start (start + top - start) : Multiset Nat)).card =
        Nat.count (fun cnt => cnt % top < value) top :=
    Nat.filter_multiset_Ico_card_eq_of_periodic start top _ hperiodic
  have hfirst : (Finset.range top).filter (fun cnt => cnt % top < value) = Finset.range value := by
    ext cnt
    rw [Finset.mem_filter, Finset.mem_range, Finset.mem_range]
    constructor
    · rintro ⟨hcnt, hlow⟩
      rwa [Nat.mod_eq_of_lt hcnt] at hlow
    · intro hlow
      have hcnt := hlow.trans_le h
      exact ⟨hcnt, by rwa [Nat.mod_eq_of_lt hcnt]⟩
  rw [Nat.add_sub_cancel_left, Multiset.filter_coe, Multiset.coe_card,
    ← List.countP_eq_length_filter] at hcard
  rw [hcard, Nat.count_eq_card_filter_range, hfirst, Finset.card_range]

/-! ## Runs -/

theorem inPeriod_init {s : LedPwm} (h : s.cnt < ledpwmCntTop) : InPeriod s.ledpwmInit :=
  ⟨h, fun _ => Nat.zero_le _, rfl⟩

theorem InPeriod.run {s : LedPwm} (h : InPeriod s) (steps : List LedStep) :
    InPeriod (ledpwm.run s steps).1 :=
  Machine.run_invariant (fun _ step hs => hs.step step) h steps

/-- What an LED is set to, it keeps until it is set again. -/
theorem ledValues_run (s : LedPwm) {led : Nat} {steps : List LedStep}
    (hkeeps : ∀ step ∈ steps, step.brightness? led = none) :
    (ledpwm.run s steps).1.ledValues led = s.ledValues led := by
  induction steps generalizing s with
  | nil => rfl
  | cons step steps ih =>
      obtain ⟨hfirst, hrest⟩ := List.forall_mem_cons.1 hkeeps
      rw [Machine.run_cons, ih _ hrest]
      cases hupdates : step.updates with
      | false => exact (ledValues_step hfirst hupdates).1
      | true =>
          cases step with
          | updatePwm => rfl
          | setIntensity => cases hupdates
          | ledOn => cases hupdates
          | ledOff => cases hupdates

theorem entry_eq (intensity : Rat) :
    LedPwm.entry intensity = ⌊min 1 (max 0 intensity) * ledpwmCntTop⌋₊ := by
  unfold LedPwm.entry
  dsimp only
  congr 2
  grind

theorem setValue_self (s : LedPwm) {led : Nat} (hled : led < ledpwmLedNum) (value : Nat) :
    (s.setValue led value).ledValues led = value := by
  rw [LedPwm.setValue, if_neg (Nat.not_le.2 hled)]
  exact Function.update_self _ _ _

/-- An LED is set to what is asked of it. -/
theorem ledValues_brightness {s : LedPwm} (h : InPeriod s) {led : Nat} (hled : led < ledpwmLedNum)
    {step : LedStep} {value : Nat} (hvalue : step.brightness? led = some value) :
    (ledpwm.step s step).1.ledValues led = value := by
  cases step with
  | setIntensity led' intensity =>
      obtain ⟨rfl, heq⟩ := Option.ite_none_right_eq_some.1 hvalue
      rw [← Option.some.inj heq, ← entry_eq, ← h.table]
      exact setValue_self s hled _
  | ledOn led' =>
      obtain ⟨rfl, heq⟩ := Option.ite_none_right_eq_some.1 hvalue
      rw [← Option.some.inj heq]
      exact setValue_self s hled _
  | ledOff led' =>
      obtain ⟨rfl, heq⟩ := Option.ite_none_right_eq_some.1 hvalue
      rw [← Option.some.inj heq]
      exact setValue_self s hled _
  | updatePwm => cases hvalue

/-- A period of updates shows the value of an LED. -/
theorem countP_lit {s : LedPwm} (h : InPeriod s) {led : Nat} (hled : led < ledpwmLedNum)
    {period : List LedStep} (hkeeps : ∀ step ∈ period, step.brightness? led = none)
    (hperiod : period.countP LedStep.updates = ledpwmCntTop) :
    (ledpwm.run s period).2.countP (fun pins => pins.lit led) = s.ledValues led := by
  have hlit := lit_run hled (Nat.mod_eq_of_lt h.cnt).symm hkeeps
  have hcount := countP_period (h.values led) (s.cnt + 1)
  rw [hperiod] at hlit
  have hmap : (ledpwm.run s period).2.countP (fun pins => pins.lit led) =
      ((ledpwm.run s period).2.map fun pins => pins.lit led).countP id := by
    rw [List.countP_map]
    rfl
  rw [hmap, hlit, List.countP_map]
  exact hcount

/-- After an LED is set, and until it is set again, every stretch of the run with as many
updates as a period has shows it as bright as was asked, wherever the stretch begins and
whatever becomes of the other LED. -/
theorem ledpwm_brightness (boot : LedPwm) (hboot : boot.cnt = 0) (before : List LedStep) {led : Nat}
    (hled : led < ledpwmLedNum) {set : LedStep} {value : Nat}
    (hset : set.brightness? led = some value) {between period : List LedStep}
    (hkeeps : ∀ step ∈ between ++ period, step.brightness? led = none)
    (hperiod : period.countP LedStep.updates = ledpwmCntTop) :
    (ledpwm.run (ledpwm.run boot.ledpwmInit (before ++ set :: between)).1 period).2.countP
      (fun pins => pins.lit led) = value := by
  obtain ⟨hbetween, hlast⟩ := List.forall_mem_append.1 hkeeps
  have hin : InPeriod boot.ledpwmInit := inPeriod_init (hboot ▸ (by decide))
  rw [countP_lit (hin.run _) hled hlast hperiod, Machine.run_append, Machine.run_cons,
    ledValues_run _ hbetween]
  exact ledValues_brightness (hin.run before) hled hset

/-- The green LED at full intensity, with the red one switched in the middle of the period. -/
theorem ledpwm_brightness_full :
    (ledpwm.run (ledpwm.run (LedPwm.ledpwmInit ⟨fun _ => 7, fun _ => 0, 0⟩)
        ([.updatePwm] ++ .setIntensity 0 2 :: [.ledOff 1])).1
      (List.replicate 150 .updatePwm ++ .ledOn 1 :: List.replicate 50 .updatePwm)).2.countP
      (fun pins => pins.lit 0) = 200 := by
  have hset : (LedStep.setIntensity 0 2).brightness? 0 = some 200 := by
    have hfull : ⌊min 1 (max 0 (2 : Rat)) * ledpwmCntTop⌋₊ = ledpwmCntTop := by decide +kernel
    rw [LedStep.brightness?, if_pos rfl, hfull, gammaCorrection_top (by decide)]
    rfl
  refine ledpwm_brightness _ rfl [.updatePwm] (by decide) hset ?_ ?_
  · intro step hstep
    simp only [List.mem_append, List.mem_cons, List.mem_replicate, List.not_mem_nil,
      or_false] at hstep
    obtain rfl | ⟨-, rfl⟩ | rfl | ⟨-, rfl⟩ := hstep <;> rfl
  · decide +kernel

end Bldc.Led
