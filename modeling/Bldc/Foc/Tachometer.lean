import Bldc.Drive.Utils
import Bldc.Flash.Memory
import Bldc.Foundation.Counter
import Bldc.Foundation.Machine
import Mathlib.Data.Rat.Floor
import Mathlib.Tactic.FieldSimp
import Mathlib.Tactic.LinearCombination

/-!
# The tachometer of the FOC driver

A pass counts the sixths of a turn between the phase and the phase at the last count, which
then becomes the reference. What the phase has gone beyond the counted sixths by then is not
counted later.
-/

namespace Bldc.Foc

open Flash Foundation Utils

variable {K : Type} [Field K] [LinearOrder K] [FloorRing K]

/-- `m_tachometer`, `m_tachometer_abs` and the static `phase_last`. -/
structure Tachometer (K : Type) where
  tachometer : Word
  tachometerAbs : Word
  phaseLast : K

/-- The conversion of a float to an `int` cuts off what is behind the point. -/
def toInt (x : K) : Int := if x < 0 then ⌈x⌉ else ⌊x⌋

namespace Tachometer

/-- The sixths of a turn since the last count. -/
def diff (t : Tachometer K) (phase : K) : Int :=
  toInt (angleDifferenceRad phase t.phaseLast * (180.0 / mPi) / 60.0)

/-- The update at the end of a pass. -/
def update (t : Tachometer K) (phase : K) : Tachometer K :=
  let diff := t.diff phase
  if diff ≠ 0 then
    { tachometer := advance t.tachometer diff
      tachometerAbs := advance t.tachometerAbs |diff|
      phaseLast := phase }
  else t

end Tachometer

/-- The tachometer, the phase it saw last, and the signed rotation up to that phase and up to
the last count. -/
structure Turning (K : Type) where
  tachometer : Tachometer K
  phase : K
  rotation : K
  rotationLast : K

/-- At phase zero. -/
def Turning.init : Turning K := ⟨⟨0, 0, 0⟩, 0, 0, 0⟩

namespace Turning

/-- The rotation up to a new phase. -/
def turned (s : Turning K) (phase : K) : K := s.rotation + angleDifferenceRad phase s.phase

/-- The rotation since the last count. -/
def since (s : Turning K) (phase : K) : K := s.turned phase - s.rotationLast

end Turning

/-- The tachometer under a sequence of phases. -/
def turning : Machine (Turning K) K Empty where
  step s phase :=
    (⟨s.tachometer.update phase, phase, s.turned phase,
      if s.tachometer.diff phase ≠ 0 then s.turned phase else s.rotationLast⟩, [])

namespace Turning

/-- Less than sixty degrees off. -/
def OnTrack (s : Turning K) : Prop :=
  |s.tachometer.tachometer.toInt * (mPi / 3.0) - s.rotation| < mPi / 3.0

def NotDecreasing (s : Turning K) (phase : K) : Prop :=
  s.tachometer.tachometerAbs.toInt ≤ (s.tachometer.update phase).tachometerAbs.toInt

/-- A pass that counts nothing, or exactly what the phase has moved since the last count. -/
def Whole (s : Turning K) (phase : K) : Prop :=
  |s.since phase| < mPi / 3.0 ∨
    angleDifferenceRad phase s.tachometer.phaseLast = s.since phase ∧
      ∃ sixths : Int, s.since phase = sixths * (mPi / 3.0) ∧
        Fits 32 (s.tachometer.tachometer.toInt + sixths) ∧
        Fits 32 (s.tachometer.tachometerAbs.toInt + |sixths|)

/-- The counter shows the rotation up to the last count, and the references belong to one
place of the rotor. -/
structure Counts (s : Turning K) : Prop where
  shown : s.tachometer.tachometer.toInt * (mPi / 3.0) = s.rotationLast
  pending : |s.rotation - s.rotationLast| < mPi / 3.0
  place : ∃ turns : Int,
    s.rotation - s.rotationLast = s.phase - s.tachometer.phaseLast + 2 * mPi * turns

end Turning

theorem angleDifferenceRad_turns (angle1 angle2 : K) : ∃ turns : Int,
    angleDifferenceRad angle1 angle2 = angle1 - angle2 + 2 * mPi * turns :=
  reduce_turns mPi (2 * mPi) (angle1 - angle2)

variable [IsStrictOrderedRing K]

/-- Where the rotor has moved by less than half a turn, the wrapped difference shows it. -/
theorem angleDifferenceRad_eq {angle1 angle2 moved : K} {turns : Int} (hmoved : |moved| < mPi)
    (hturns : moved = angle1 - angle2 + 2 * mPi * turns) :
    angleDifferenceRad angle1 angle2 = moved := by
  have hpi := mPi_pos (K := K)
  exact reduce_eq (mul_pos two_pos hpi) (two_mul mPi) hmoved hturns

theorem toInt_intCast (n : Int) : toInt (n : K) = n := by
  unfold toInt
  rw [Int.ceil_intCast, Int.floor_intCast, ite_self]

theorem toInt_of_abs_lt {x : K} (h : |x| < 1) : toInt x = 0 := by
  obtain ⟨hlow, hhigh⟩ := abs_lt.1 h
  unfold toInt
  split
  next hneg => exact Int.ceil_eq_zero_iff.2 ⟨hlow, hneg.le⟩
  next hneg => exact Int.floor_eq_zero_iff.2 ⟨not_lt.1 hneg, hhigh⟩

omit [FloorRing K] in
theorem sixth_pos : (0 : K) < mPi / 3.0 := div_pos mPi_pos (by norm_num)

theorem sixths_eq (x : K) : x * (180.0 / mPi) / 60.0 = x / (mPi / 3.0) := by
  have hpi := mPi_pos (K := K)
  have hwhole : (180.0 : K) = 180 ∧ (60.0 : K) = 60 ∧ (3.0 : K) = 3 := by norm_num
  rw [hwhole.1, hwhole.2.1, hwhole.2.2]
  field_simp
  ring

namespace Tachometer

variable {t : Tachometer K} {phase : K}

/-- Below a sixth nothing is counted. -/
theorem diff_eq_zero (h : |angleDifferenceRad phase t.phaseLast| < mPi / 3.0) :
    t.diff phase = 0 := by
  refine toInt_of_abs_lt ?_
  rw [sixths_eq, abs_div, abs_of_pos (sixth_pos (K := K)), div_lt_one sixth_pos]
  exact h

/-- Whole sixths are all counted. -/
theorem diff_eq {sixths : Int}
    (h : angleDifferenceRad phase t.phaseLast = sixths * (mPi / 3.0)) : t.diff phase = sixths := by
  rw [diff, h, sixths_eq, mul_div_cancel_right₀ _ sixth_pos.ne', toInt_intCast]

omit [IsStrictOrderedRing K] in
theorem update_of_eq_zero (h : t.diff phase = 0) : t.update phase = t :=
  if_neg (not_not.2 h)

end Tachometer

namespace Turning

variable {s : Turning K} {phase : K}

omit [FloorRing K] [IsStrictOrderedRing K] in
theorem Counts.onTrack (h : s.Counts) : s.OnTrack := by
  rw [OnTrack, h.shown, abs_sub_comm]
  exact h.pending

theorem since_place (h : s.Counts) (phase : K) : ∃ turns : Int,
    s.since phase = phase - s.tachometer.phaseLast + 2 * mPi * turns := by
  obtain ⟨turns, hturns⟩ := h.place
  obtain ⟨turns', hturns'⟩ := angleDifferenceRad_turns phase s.phase
  refine ⟨turns + turns', ?_⟩
  rw [Int.cast_add, since, turned, hturns']
  linear_combination hturns

/-- A pass that counts nothing. -/
theorem counts_step_of_pending (h : s.Counts) (hsince : |s.since phase| < mPi / 3.0) :
    (turning.step s phase).1.Counts ∧ s.tachometer.update phase = s.tachometer := by
  obtain ⟨turns, hturns⟩ := since_place h phase
  have hpi := mPi_pos (K := K)
  have hmoved := angleDifferenceRad_eq (hsince.trans (by linarith)) hturns
  have hdiff : s.tachometer.diff phase = 0 := Tachometer.diff_eq_zero (hmoved ▸ hsince)
  have hupdate := Tachometer.update_of_eq_zero hdiff
  have hstep : (turning.step s phase).1 =
      ⟨s.tachometer, phase, s.turned phase, s.rotationLast⟩ := by
    simp only [turning, hupdate, hdiff, ne_eq, not_true_eq_false, if_false]
  rw [hstep]
  exact ⟨⟨h.shown, hsince, turns, hturns⟩, hupdate⟩

/-- A pass that counts all that the phase has moved. -/
theorem counts_step_of_sixths (h : s.Counts) {sixths : Int} (hne : sixths ≠ 0)
    (hmoved : angleDifferenceRad phase s.tachometer.phaseLast = s.since phase)
    (hsixths : s.since phase = sixths * (mPi / 3.0))
    (hfits : Fits 32 (s.tachometer.tachometer.toInt + sixths)) :
    (turning.step s phase).1.Counts ∧ s.tachometer.update phase =
      ⟨advance s.tachometer.tachometer sixths, advance s.tachometer.tachometerAbs |sixths|,
        phase⟩ := by
  have hdiff : s.tachometer.diff phase = sixths := Tachometer.diff_eq (hmoved.trans hsixths)
  have hupdate : s.tachometer.update phase =
      ⟨advance s.tachometer.tachometer sixths, advance s.tachometer.tachometerAbs |sixths|,
        phase⟩ := by
    rw [Tachometer.update, hdiff]
    exact if_pos hne
  have hstep : (turning.step s phase).1 =
      ⟨⟨advance s.tachometer.tachometer sixths, advance s.tachometer.tachometerAbs |sixths|,
        phase⟩, phase, s.turned phase, s.turned phase⟩ := by
    simp only [turning, hupdate, hdiff]
    rw [if_pos hne]
  rw [hstep]
  refine ⟨⟨?_, ?_, 0, ?_⟩, hupdate⟩
  · change ((advance s.tachometer.tachometer sixths).toInt : K) * (mPi / 3.0) = s.turned phase
    rw [(toInt_advance_iff (by decide)).2 hfits, Int.cast_add, add_mul, h.shown, ← hsixths]
    exact add_sub_cancel _ _
  · change |s.turned phase - s.turned phase| < mPi / 3.0
    rw [sub_self, abs_zero]
    exact sixth_pos
  · change s.turned phase - s.turned phase = phase - phase + 2 * mPi * ((0 : Int) : K)
    simp

theorem counts_step (h : s.Counts) (hwhole : s.Whole phase) :
    (turning.step s phase).1.Counts ∧ s.NotDecreasing phase := by
  obtain hsince | ⟨hmoved, sixths, hsixths, hfits, hfitsAbs⟩ := hwhole
  · obtain ⟨hcounts, hupdate⟩ := counts_step_of_pending h hsince
    refine ⟨hcounts, ?_⟩
    rw [NotDecreasing, hupdate]
  · by_cases hne : sixths = 0
    · have hsince : |s.since phase| < mPi / 3.0 := by
        rw [hsixths, hne, Int.cast_zero, zero_mul, abs_zero]
        exact sixth_pos
      obtain ⟨hcounts, hupdate⟩ := counts_step_of_pending h hsince
      refine ⟨hcounts, ?_⟩
      rw [NotDecreasing, hupdate]
    · obtain ⟨hcounts, hupdate⟩ := counts_step_of_sixths h hne hmoved hsixths hfits
      refine ⟨hcounts, ?_⟩
      rw [NotDecreasing, hupdate, (toInt_advance_iff (by decide)).2 hfitsAbs]
      exact Int.le_add_of_nonneg_right (abs_nonneg sixths)

omit [FloorRing K] in
theorem counts_init : (init : Turning K).Counts where
  shown := by simp [init]
  pending := by simpa [init] using sixth_pos
  place := ⟨0, by simp [init]⟩

end Turning

/-- The tachometer does not drift in a run whose passes count no more than whole sixths. -/
theorem turning_onTrack_of_whole {phases : List K}
    (h : turning.Always Turning.Whole Turning.init phases) :
    (∀ before after, phases = before ++ after →
        (turning.run Turning.init before).1.OnTrack) ∧
      turning.Always Turning.NotDecreasing Turning.init phases := by
  constructor
  · rintro before after rfl
    refine Turning.Counts.onTrack (Machine.run_invariant_of_always (P := Turning.Whole) ?_
      Turning.counts_init ((Machine.always_append turning _ _ before after).1 h).1)
    exact fun s phase hcounts hwhole => (Turning.counts_step hcounts hwhole).1
  · exact h.imp_of_invariant (I := Turning.Counts)
      (fun s phase hcounts hwhole => (Turning.counts_step hcounts hwhole).1)
      (fun s phase hcounts hwhole => (Turning.counts_step hcounts hwhole).2) Turning.counts_init

/-- A sixth ahead, and half a sixth back. -/
theorem turning_onTrack_back :
    (∀ before after, ([mPi / 3.0, mPi / 6] : List ℚ) = before ++ after →
        (turning.run Turning.init before).1.OnTrack) ∧
      turning.Always Turning.NotDecreasing Turning.init ([mPi / 3.0, mPi / 6] : List ℚ) := by
  have hahead : angleDifferenceRad (mPi / 3.0) 0 = (mPi / 3.0 : ℚ) := by
    norm_num [angleDifferenceRad, normAngleRad, mPi]
  have hback : angleDifferenceRad (mPi / 6) (mPi / 3.0) = (-(mPi / 6) : ℚ) := by
    norm_num [angleDifferenceRad, normAngleRad, mPi]
  have hdiff : (Turning.init : Turning ℚ).tachometer.diff (mPi / 3.0) = 1 :=
    Tachometer.diff_eq (hahead.trans (by simp))
  refine turning_onTrack_of_whole ⟨.inr ⟨?_, 1, ?_, by decide, by decide⟩, .inl ?_, trivial⟩
  · simp [Turning.since, Turning.turned, Turning.init]
  · simp [Turning.since, Turning.turned, Turning.init, hahead]
  · simp only [Turning.since, Turning.turned, turning, hdiff, hback]
    norm_num [Turning.init, hahead, mPi]

/-- A quarter of a turn a pass: after half a turn two sixths are counted. -/
theorem not_onTrack_quarters :
    ¬ (turning.run Turning.init ([mPi / 2, mPi] : List ℚ)).1.OnTrack := by
  have hfirst : angleDifferenceRad (mPi / 2) 0 = (mPi / 2 : ℚ) := by
    norm_num [angleDifferenceRad, normAngleRad, mPi]
  have hsecond : angleDifferenceRad mPi (mPi / 2) = (mPi / 2 : ℚ) := by
    norm_num [angleDifferenceRad, normAngleRad, mPi]
  have hdiff (t : Tachometer ℚ) (phase : ℚ)
      (h : angleDifferenceRad phase t.phaseLast = mPi / 2) : t.diff phase = 1 := by
    rw [Tachometer.diff, h]
    norm_num [toInt, mPi]
  have hcount : (advance (advance (0#32) 1) 1).toInt = 2 := by decide
  simp [Turning.OnTrack, turning, Turning.init, Turning.turned, Tachometer.update, hfirst,
    hsecond, hdiff, hcount]
  norm_num [mPi]

end Bldc.Foc
