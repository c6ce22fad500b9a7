import Bldc.Drive.Duty
import Bldc.Drive.Inductance
import Mathlib.Tactic.NormNum

/-!
# The timing of the inductance pulses

While an inductance is measured, the interrupt handler turns the duty cycle into a number
of timer ticks and samples a few ticks before the end of the pulse. The duty cycle comes
from a search that may find none, or from an argument of the terminal.
-/

namespace Bldc.Drive

open Flash Foundation Thread

/-- `MCPWM_FOC_INDUCTANCE_SAMPLE_CNT_OFFSET`. -/
def inductanceSampleCntOffset : Word := 10

/-- `duty_cnt`. The conversion to an `uint32_t` keeps to the range of the type. -/
def dutyCnt (arr : Nat) (duty : Rat) : Word := BitVec.ofNat 32 (min ⌊arr * duty⌋₊ (2 ^ 32 - 1))

/-- `samp_time`. -/
def sampTime (arr : Nat) (duty : Rat) : Word := dutyCnt arr duty - inductanceSampleCntOffset

/-- What the handler writes to the timer: the compare values of the phases, and where it
samples. -/
inductive TimerWrite where
  | dutyCurrentSamp (duty1 duty2 duty3 currentSamp : Word)
  | duty (duty1 duty2 duty3 : Word)
  | samp (currentSamp voltageSamp : Word)
  deriving DecidableEq, Repr

def TimerWrite.compares : TimerWrite → List Word
  | .dutyCurrentSamp duty1 duty2 duty3 currentSamp => [duty1, duty2, duty3, currentSamp]
  | .duty duty1 duty2 duty3 => [duty1, duty2, duty3]
  | .samp currentSamp voltageSamp => [currentSamp, voltageSamp]

/-- What is written in a pass, by `inductance_state`. -/
def pulseWrites (arr : Nat) (duty : Rat) : (inductanceState : Nat) → List TimerWrite
  | 0 => [.dutyCurrentSamp 0 0 0 (sampTime arr duty)]
  | 2 => [.duty (dutyCnt arr duty) 0 (dutyCnt arr duty)]
  | 3 | 6 => [.duty 0 0 0]
  | 5 => [.duty 0 (dutyCnt arr duty) (dutyCnt arr duty)]
  | 8 => [.duty 0 0 (dutyCnt arr duty)]
  | 9 => [.samp (BitVec.ofNat 32 (arr - 2)) 5]
  | _ => []

/-- The last current of the resistance measurements: the first that is large enough for the
resistance it has measured, or half the limit. -/
def lastCurrent (lCurrentMax : Rat) (resistances : Nat → Rat) : Rat :=
  let iLast := (search (fun i res => decide (i > 1 / 2 / res)) (geometric 2 (lCurrentMax / 2))
    resistances).2.getD 0
  if iLast < 1 / 100 then lCurrentMax / 2 else iLast

/-- The duty cycles under which `mcpwm_foc_measure_res_ind` measures an inductance, by the
resistances and the currents that it measures. -/
def resIndDuties (lCurrentMax : Rat) (resistances currents : Nat → Rat) : List Rat :=
  let found := search (fun _ current => decide (current ≥ lastCurrent lCurrentMax resistances))
    (geometric (1 / 50) (1 / 2)) currents
  found.1 ++ [found.2.getD 0]

/-- The pulse is longer than the distance of the sample to its end, and not longer than the
period. -/
def PulseFits (arr : Nat) (duty : Rat) : Prop :=
  inductanceSampleCntOffset ≤ dutyCnt arr duty ∧ (dutyCnt arr duty).toNat ≤ arr

/-- Then the sample lies in the period, and before the end of the pulse. -/
theorem PulseFits.sampTime {arr : Nat} {duty : Rat} (h : PulseFits arr duty) :
    (sampTime arr duty).toNat + 10 = (dutyCnt arr duty).toNat ∧
      (sampTime arr duty).toNat ≤ arr := by
  obtain ⟨hoffset, hperiod⟩ := h
  have hsub := BitVec.toNat_sub_of_le hoffset
  have hle : (10 : Nat) ≤ (dutyCnt arr duty).toNat := hoffset
  have hten : inductanceSampleCntOffset.toNat = 10 := rfl
  rw [Drive.sampTime, hsub, hten]
  omega

/-- Whatever the pass, no compare value lies outside the period. -/
theorem pulseWrites_inside {arr : Nat} {duty : Rat} (h : PulseFits arr duty)
    (inductanceState : Nat) :
    ∀ write ∈ pulseWrites arr duty inductanceState, ∀ value ∈ write.compares,
      value.toNat ≤ arr := by
  obtain ⟨hlength, hsamp⟩ := h.sampTime
  have hcnt := h.2
  have hend : (BitVec.ofNat 32 (arr - 2)).toNat ≤ arr := by
    rw [BitVec.toNat_ofNat]
    exact (Nat.mod_le _ _).trans (Nat.sub_le arr 2)
  have hstart : 5 ≤ arr := by omega
  unfold pulseWrites
  split
  case h_7 =>
    simp only [forall_eq, TimerWrite.compares, List.mem_cons, List.not_mem_nil, or_false,
      forall_eq_or_imp]
    exact ⟨hend, hstart⟩
  all_goals simp [TimerWrite.compares, hsamp, hcnt]

/-- The duty cycle that the interrupt handler is given. -/
def Step.duty : Step → Option Rat
  | .prepareInductance duty => some duty
  | _ => none

theorem filterMap_duty_of_gives {α : Type} {thread : Procedure α}
    (h : thread.Gives (Step.duty · = none)) (w : World Readings Step) (s : Motor) :
    (given motor thread w s).filterMap Step.duty = [] :=
  List.filterMap_eq_nil_iff.2 (given_of_gives h w s)

theorem duties_measureResistance (current : Rat) (samples : Int) (w : World Readings Step)
    (s : Motor) :
    (given motor (mcpwmFocMeasureResistance current samples) w s).filterMap Step.duty = [] := by
  refine filterMap_duty_of_gives ?_ w s
  refine gives_bind (gives_give.2 rfl) fun _ => gives_bind (gives_give.2 rfl) fun _ => ?_
  refine gives_bind (gives_give.2 rfl) fun _ => gives_bind (gives_state.2 trivial) fun _ => ?_
  refine gives_bind (gives_give.2 rfl) fun _ => gives_bind (gives_pause.2 trivial) fun _ => ?_
  refine gives_bind (gives_waitFor _ _) fun _ => gives_bind (gives_reading.2 trivial) fun _ => ?_
  refine gives_bind (gives_give.2 rfl) fun _ => gives_bind (gives_give.2 rfl) fun _ => ?_
  exact gives_bind (gives_give.2 rfl) fun _ => trivial

theorem duties_measureInductance (duty : Rat) (samples : Int) (w : World Readings Step)
    (s : Motor) :
    (given motor (mcpwmFocMeasureInductance duty samples) w s).filterMap Step.duty = [duty] := by
  have hpulses (w : World Readings Step) (s : Motor) :
      (given motor (inductancePulses samples) w s).filterMap Step.duty = [] := by
    refine List.filterMap_eq_nil_iff.2 fun input hinput => ?_
    rw [given_of_gives (gives_inductancePulses samples) w s input hinput]
    rfl
  simp only [mcpwmFocMeasureInductance, bind_eq, pure_eq, given_bind, given_give, given_state,
    given_reading, given_ret, List.filterMap_append, hpulses]
  rfl

theorem resistanceSteps_eq (lCurrentMax : Rat) :
    resistanceSteps lCurrentMax =
      (each (searching (fun i res => decide (i > 1 / 2 / res))
        (mcpwmFocMeasureResistance · 20)) (geometric 2 (lCurrentMax / 2)) 0).bind fun result =>
          ret (if result.1 < 1 / 100 then lCurrentMax / 2 else result.1) := by
  unfold resistanceSteps searching
  simp only [decide_eq_true_eq]
  rfl

theorem inductanceSteps_eq (iLast : Rat) :
    inductanceSteps iLast =
      (each (searching (fun _ measured => decide (measured.2 ≥ iLast))
        (mcpwmFocMeasureInductance · 20)) (geometric (1 / 50) (1 / 2)) 0).bind fun result =>
          ret result.1 := by
  unfold inductanceSteps searching
  simp only [decide_eq_true_eq]
  rfl

theorem run_resistanceSteps (lCurrentMax : Rat) (w : World Readings Step) (s : Motor) :
    ∃ resistances : Nat → Rat,
      (exec motor (resistanceSteps lCurrentMax) w s).1 = lastCurrent lCurrentMax resistances ∧
        (given motor (resistanceSteps lCurrentMax) w s).filterMap Step.duty = [] := by
  obtain ⟨resistances, hvalue, hduties⟩ := exec_each_searching (M := motor)
    (fun i w s => duties_measureResistance i 20 w s) (geometric 2 (lCurrentMax / 2)) 0 w s
  refine ⟨resistances, ?_, ?_⟩
  · rw [resistanceSteps_eq, exec_bind, exec_ret, hvalue]
    rfl
  · rw [resistanceSteps_eq, given_bind, given_ret, List.append_nil, hduties]
    exact List.flatMap_eq_nil_iff.2 fun _ _ => rfl

theorem run_inductanceSteps (iLast : Rat) (w : World Readings Step) (s : Motor) :
    ∃ currents : Nat → Rat,
      let found := search (fun _ current => decide (current ≥ iLast)) (geometric (1 / 50) (1 / 2))
        currents
      (exec motor (inductanceSteps iLast) w s).1 = found.2.getD 0 ∧
        (given motor (inductanceSteps iLast) w s).filterMap Step.duty = found.1 := by
  let stops := fun (_ current : Rat) => decide (current ≥ iLast)
  obtain ⟨values, hvalue, hduties⟩ : ∃ values : Nat → Rat × Rat, _ :=
    exec_each_searching (M := motor) (fun i w s => duties_measureInductance i 20 w s)
      (geometric (1 / 50) (1 / 2)) 0 w s
  have hcurrents : search (fun i (measured : Rat × Rat) => stops i measured.2)
      (geometric (1 / 50) (1 / 2)) values =
        search stops (geometric (1 / 50) (1 / 2)) fun n => (values n).2 :=
    search_comp Prod.snd _ values
  refine ⟨fun n => (values n).2, ?_, ?_⟩
  · rw [inductanceSteps_eq, exec_bind, exec_ret, hvalue, hcurrents]
  · rw [inductanceSteps_eq, given_bind, given_ret, List.append_nil, hduties, hcurrents]
    exact List.flatMap_singleton' _

/-- The duty cycles of a run of `mcpwm_foc_measure_res_ind` are those of the search through
what it measures. -/
theorem duties_measureResInd (w : World Readings Step) (s : Motor) :
    ∃ resistances currents : Nat → Rat,
      (given motor mcpwmFocMeasureResInd w s).filterMap Step.duty =
        resIndDuties s.conf.lCurrentMax resistances currents := by
  unfold mcpwmFocMeasureResInd
  simp only [bind_eq, pure_eq, given_bind, given_give, given_state, given_ret, exec_state,
    exec_give, List.filterMap_append, duties_measureResistance, duties_measureInductance,
    List.nil_append, List.append_nil]
  generalize (motor.step s (.setCurrentLoop 10000 (1 / 100) 10)).1 = t
  obtain ⟨resistances, hlast, hnone⟩ := run_resistanceSteps s.conf.lCurrentMax w t
  rw [hlast, hnone]
  generalize exec motor (mcpwmFocMeasureResistance _ 500) _ _ = measured
  obtain ⟨currents, hfound, hduties⟩ := run_inductanceSteps
    (lastCurrent s.conf.lCurrentMax resistances) measured.2.2
    (motor.step measured.2.1 (.setCurrentLoop 3000 (1 / 100) 10)).1
  refine ⟨resistances, currents, ?_⟩
  rw [hfound, hduties]
  rfl

/-! ## Whether they fit -/

end Bldc.Drive
