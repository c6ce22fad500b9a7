import Bldc.Flash.Memory
import Bldc.Foundation.Counter
import Bldc.Foundation.Machine
import Mathlib.Data.Int.ModEq

/-!
# The tachometers of the BLDC driver

Every commutation moves three counters by the number of steps that lie between it and the
one before, from two steps back to three ahead. Two of them are read and reset by other
threads: one counts by direction, the other all steps.
-/

namespace Bldc.Drive

open Flash Foundation

/-- A value of `comm_step`. -/
def SixStep : Type := { step : Int // 1 ≤ step ∧ step ≤ 6 }

/-- The state of `update_rpm_tacho`: `last_step`, its part of `rpm_dep`, and the tachometers. -/
structure Tacho where
  lastStep : Int
  comms : Word
  timeAtComm : Word
  tachometerForDirection : Word
  tachometerAbs : Word
  tachometer : Word

/-- `tacho_diff`. -/
def tachoDiff (step lastStep : Int) : Int :=
  let tachoDiff := (step - lastStep).tmod 6
  if tachoDiff > 3 then tachoDiff - 6 else if tachoDiff < -2 then tachoDiff + 6 else tachoDiff

namespace Tacho

/-- `update_rpm_tacho`, with the count of `TIM2`. -/
def updateRpmTacho (t : Tacho) (commStep : Int) (direction : Bool) (cnt : Word) : Tacho :=
  let step := commStep - 1
  let diff := tachoDiff step t.lastStep
  { lastStep := step
    comms := if diff ≠ 0 then advance t.comms diff else t.comms
    timeAtComm := if diff ≠ 0 then t.timeAtComm + cnt else t.timeAtComm
    tachometerForDirection := advance t.tachometerForDirection diff
    tachometerAbs := advance t.tachometerAbs diff
    tachometer := if direction then advance t.tachometer diff else advance t.tachometer (-diff) }

/-- `mcpwm_get_tachometer_value`. -/
def mcpwmGetTachometerValue (t : Tacho) (reset : Bool) : Tacho × Int :=
  (if reset then { t with tachometer := 0 } else t, t.tachometer.toInt)

/-- `mcpwm_get_tachometer_abs_value`. -/
def mcpwmGetTachometerAbsValue (t : Tacho) (reset : Bool) : Tacho × Int :=
  (if reset then { t with tachometerAbs := 0 } else t, t.tachometerAbs.toInt)

end Tacho

/-- What happens to the tachometers. -/
inductive TachoEvent where
  | update (commStep : SixStep) (direction : Bool) (cnt : Word)
  | getValue (reset : Bool)
  | getAbsValue (reset : Bool)

/-- The tachometers, and what they are there to count since they were reset: the steps by
direction, and all steps. -/
structure Travel where
  tacho : Tacho
  steps : Int
  turned : Int

/-- After `mcpwm_init`. -/
def Travel.init : Travel := ⟨⟨0, 0, 0, 0, 0, 0⟩, 0, 0⟩

/-- The tachometers under commutations and reads. -/
def tachometers : Machine Travel TachoEvent Int where
  step travel
    | .update commStep direction cnt =>
        let diff := tachoDiff (commStep.1 - 1) travel.tacho.lastStep
        (⟨travel.tacho.updateRpmTacho commStep.1 direction cnt,
          if direction then travel.steps + diff else travel.steps - diff,
          travel.turned + |diff|⟩, [])
    | .getValue reset =>
        (⟨(travel.tacho.mcpwmGetTachometerValue reset).1,
          if reset then 0 else travel.steps, travel.turned⟩,
          [(travel.tacho.mcpwmGetTachometerValue reset).2])
    | .getAbsValue reset =>
        (⟨(travel.tacho.mcpwmGetTachometerAbsValue reset).1, travel.steps,
          if reset then 0 else travel.turned⟩,
          [(travel.tacho.mcpwmGetTachometerAbsValue reset).2])

namespace Travel

/-- The counters show what they are there to count. -/
def Counted (travel : Travel) : Prop :=
  travel.tacho.tachometer.toInt = travel.steps ∧ travel.tacho.tachometerAbs.toInt = travel.turned

/-- A difference from two back to three ahead, of the step's class, and no count lost. -/
def CountsUp (travel : Travel) : TachoEvent → Prop
  | .update commStep direction cnt =>
      (-2 ≤ tachoDiff (commStep.1 - 1) travel.tacho.lastStep ∧
        tachoDiff (commStep.1 - 1) travel.tacho.lastStep ≤ 3 ∧
        tachoDiff (commStep.1 - 1) travel.tacho.lastStep ≡
          commStep.1 - 1 - travel.tacho.lastStep [ZMOD 6]) ∧
      travel.tacho.tachometerAbs.toInt ≤
        (travel.tacho.updateRpmTacho commStep.1 direction cnt).tachometerAbs.toInt
  | .getValue _ => True
  | .getAbsValue _ => True

/-- A commutation that does not go back, with counters that can take its steps. -/
def Forward (travel : Travel) : TachoEvent → Prop
  | .update commStep direction _ =>
      let move := (commStep.1 - 1 - travel.tacho.lastStep) % 6
      move ≤ 3 ∧ Fits 32 (travel.tacho.tachometerAbs.toInt + move) ∧
        Fits 32 (if direction then travel.tacho.tachometer.toInt + move
          else travel.tacho.tachometer.toInt - move)
  | .getValue _ => True
  | .getAbsValue _ => True

end Travel

theorem tachoDiff_eq {step lastStep : Int} (hstep : 0 ≤ step ∧ step ≤ 5)
    (hlast : 0 ≤ lastStep ∧ lastStep ≤ 5) :
    tachoDiff step lastStep = if (step - lastStep) % 6 ≤ 3 then (step - lastStep) % 6
      else (step - lastStep) % 6 - 6 := by
  have hrem : (step - lastStep).tmod 6 = step - lastStep := by
    obtain hneg | hnonneg := Int.lt_or_le (step - lastStep) 0
    · have hpos := Int.tmod_eq_of_lt (a := -(step - lastStep)) (b := 6) (by omega) (by omega)
      rw [Int.neg_tmod] at hpos
      omega
    · exact Int.tmod_eq_of_lt hnonneg (by omega)
  unfold tachoDiff
  simp only [hrem]
  omega

/-- The window, which every difference of two commutation steps falls into. -/
theorem tachoDiff_window {step lastStep : Int} (hstep : 0 ≤ step ∧ step ≤ 5)
    (hlast : 0 ≤ lastStep ∧ lastStep ≤ 5) :
    -2 ≤ tachoDiff step lastStep ∧ tachoDiff step lastStep ≤ 3 ∧
      tachoDiff step lastStep ≡ step - lastStep [ZMOD 6] := by
  rw [tachoDiff_eq hstep hlast, Int.ModEq]
  omega

namespace Travel

variable {travel : Travel}

/-- The last step is one of the six. -/
def Known (travel : Travel) : Prop := 0 ≤ travel.tacho.lastStep ∧ travel.tacho.lastStep ≤ 5

theorem known_step (travel : Travel) (event : TachoEvent) (h : travel.Known) :
    (tachometers.step travel event).1.Known := by
  cases event with
  | update commStep direction cnt =>
      obtain ⟨step, hlow, hhigh⟩ := commStep
      exact ⟨Int.sub_nonneg_of_le hlow, Int.sub_le_sub_right hhigh 1⟩
  | getValue reset => cases reset <;> exact h
  | getAbsValue reset => cases reset <;> exact h

/-- The direction counter takes every difference that it has room for. -/
theorem toInt_tachometer_iff {counter : Word} {steps diff : Int} (h : counter.toInt = steps)
    (direction : Bool) :
    (if direction then advance counter diff else advance counter (-diff)).toInt =
        (if direction then steps + diff else steps - diff) ↔
      Fits 32 (if direction then steps + diff else steps - diff) := by
  subst h
  cases direction
  · simp only [Bool.false_eq_true, if_false, Int.sub_eq_add_neg]
    exact toInt_advance_iff (by decide)
  · exact toInt_advance_iff (by decide)

/-- The other one is moved by the signed difference too, which is right if it is not
negative. -/
theorem toInt_tachometerAbs_iff {counter : Word} {turned diff : Int} (h : counter.toInt = turned)
    (hsmall : -2 ≤ diff) :
    (advance counter diff).toInt = turned + |diff| ↔ 0 ≤ diff ∧ Fits 32 (turned + diff) := by
  subst h
  rw [toInt_advance_eq_iff (by decide)]
  obtain hneg | hnonneg := Int.lt_or_le diff 0
  · rw [abs_of_neg hneg]
    refine iff_of_false (fun h => ?_) fun h => absurd h.1 (not_le.2 hneg)
    obtain ⟨turns, hturns⟩ := h.2
    omega
  · rw [abs_of_nonneg hnonneg, Int.sub_self]
    exact ⟨fun h => ⟨hnonneg, h.1⟩, fun h => ⟨h.2, Int.dvd_zero _⟩⟩

/-- An update keeps the counts right exactly if it does not go back. -/
theorem counted_update_iff (hknown : travel.Known) (hcounted : travel.Counted)
    (commStep : SixStep) (direction : Bool) (cnt : Word) :
    (tachometers.step travel (.update commStep direction cnt)).1.Counted ↔
      travel.Forward (.update commStep direction cnt) := by
  obtain ⟨step, hlow, hhigh⟩ := commStep
  obtain ⟨hsteps, hturned⟩ := hcounted
  have hstep : 0 ≤ step - 1 ∧ step - 1 ≤ 5 := by omega
  have hdiff := tachoDiff_eq hstep hknown
  have hwindow := tachoDiff_window hstep hknown
  refine (and_congr (toInt_tachometer_iff hsteps direction)
    (toInt_tachometerAbs_iff hturned hwindow.1)).trans ?_
  unfold Forward
  simp only [hsteps, hturned]
  by_cases hmove : (step - 1 - travel.tacho.lastStep) % 6 ≤ 3
  · rw [if_pos hmove] at hdiff
    simp only [hdiff]
    refine ⟨?_, ?_⟩
    · rintro ⟨hfits, -, hfits'⟩
      exact ⟨hmove, hfits', hfits⟩
    · rintro ⟨-, hfits', hfits⟩
      exact ⟨hfits, Int.emod_nonneg _ (by decide), hfits'⟩
  · rw [if_neg hmove] at hdiff
    refine iff_of_false (fun h => ?_) fun h => hmove h.1
    omega

theorem counted_step_iff (hknown : travel.Known) (hcounted : travel.Counted)
    (event : TachoEvent) :
    (tachometers.step travel event).1.Counted ↔ travel.Forward event := by
  cases event with
  | update commStep direction cnt => exact counted_update_iff hknown hcounted commStep direction cnt
  | getValue reset =>
      refine iff_of_true ?_ trivial
      cases reset
      · exact hcounted
      · exact ⟨rfl, hcounted.2⟩
  | getAbsValue reset =>
      refine iff_of_true ?_ trivial
      cases reset
      · exact hcounted
      · exact ⟨hcounted.1, rfl⟩

theorem countsUp_of_forward (hknown : travel.Known) (hcounted : travel.Counted)
    (event : TachoEvent) (hforward : travel.Forward event) : travel.CountsUp event := by
  have hnext := (counted_step_iff hknown hcounted event).2 hforward
  cases event with
  | update commStep direction cnt =>
      obtain ⟨step, hlow, hhigh⟩ := commStep
      have hstep : 0 ≤ step - 1 ∧ step - 1 ≤ 5 := by omega
      refine ⟨tachoDiff_window hstep hknown, ?_⟩
      have habs := abs_nonneg (tachoDiff (step - 1) travel.tacho.lastStep)
      calc travel.tacho.tachometerAbs.toInt = travel.turned := hcounted.2
        _ ≤ travel.turned + |tachoDiff (step - 1) travel.tacho.lastStep| := by omega
        _ = _ := hnext.2.symm
  | getValue reset => trivial
  | getAbsValue reset => trivial

end Travel

/-- The tachometers are right throughout a run exactly if no commutation of it goes back. -/
theorem tachometers_counted_iff (events : List TachoEvent) :
    (∀ before after, events = before ++ after →
        (tachometers.run Travel.init before).1.Counted) ∧
      tachometers.Always Travel.CountsUp Travel.init events ↔
    tachometers.Always Travel.Forward Travel.init events := by
  have hinit : Travel.init.Known ∧ Travel.init.Counted :=
    ⟨⟨by decide, by decide⟩, rfl, rfl⟩
  have hiff := Machine.always_iff_forall_prefix (M := tachometers) (P := Travel.Forward)
    (I := fun travel => travel.Known ∧ travel.Counted)
    (fun travel event h => (Travel.counted_step_iff h.1 h.2 event).symm.trans
      ⟨fun hcounted => ⟨Travel.known_step travel event h.1, hcounted⟩, fun h => h.2⟩) hinit events
  constructor
  · rintro ⟨hcounted, -⟩
    refine hiff.2 fun before after heq => ⟨?_, hcounted before after heq⟩
    exact Machine.run_invariant (I := Travel.Known) Travel.known_step hinit.1 before
  · intro hforward
    refine ⟨fun before after heq => (hiff.1 hforward before after heq).2, ?_⟩
    refine hforward.imp_of_invariant (I := fun travel => travel.Known ∧ travel.Counted) ?_ ?_ hinit
    · intro travel event h hstep
      exact ⟨Travel.known_step travel event h.1, (Travel.counted_step_iff h.1 h.2 event).2 hstep⟩
    · intro travel event h hstep
      exact Travel.countsUp_of_forward h.1 h.2 event hstep

/-- Three steps ahead and one back: the absolute tachometer goes back with the motor. -/
theorem tachometerAbs_decreases_back :
    (tachometers.run Travel.init
      [.update ⟨4, by decide⟩ true 0, .update ⟨3, by decide⟩ true 0]).1.tacho.tachometerAbs = 2 ∧
    (tachometers.run Travel.init
      [.update ⟨4, by decide⟩ true 0, .update ⟨3, by decide⟩ true 0]).1.turned = 4 ∧
    (tachometers.run Travel.init [.update ⟨4, by decide⟩ true 0]).1.tacho.tachometerAbs = 3 := by
  decide

end Bldc.Drive
