import Bldc.Drive.State
import Bldc.Foc.Tachometer

/-!
# Between the observer and the hall sensors

`correct_hall` takes the angle from the observer at a high speed and from the hall sensors
at a low one. Its previous hall value is negative when there is none, and which negative
value it is tells a boot or an error from a time without sensors.
-/

namespace Bldc.Foc

open Drive (McState)
open Flash Foundation Utils

/-- What `correct_hall` reads of `mc_configuration`. -/
structure HallConfiguration (K : Type) where
  focHallTable : Fin 8 → Byte
  focSlErpm : K

/-- What a call of `correct_hall` finds. -/
structure HallReading (K : Type) where
  angle : K
  speed : K
  dt : K
  /-- `read_hall`. -/
  hall : Fin 8
  phaseObserverOverride : Bool
  phaseNowObserverOverride : K
  state : McState

/-- The static variables of `correct_hall`. -/
structure HallCorrection (K : Type) where
  angHallIntPrev : Int
  usingHall : Bool
  angHall : K

section Model

variable {K : Type} [Field K] [LinearOrder K]

/-- `rpm_abs`. -/
def HallReading.rpmAbs (r : HallReading K) : K := |r.speed / (2.0 * mPi / 60.0)|

/-- The entry of `foc_hall_table` for the sensors. -/
def HallReading.angHallInt (r : HallReading K) (conf : HallConfiguration K) : Int :=
  (conf.focHallTable r.hall).toNat

/-- The angle of a hall value: there are 200 of them in a turn. -/
def hallAngle (angHallInt : Int) : K := angHallInt / 200.0 * 360.0 * mPi / 180.0

/-- The hysteresis of 5 % around `foc_sl_erpm`. -/
def usesHall (conf : HallConfiguration K) (usingHall : Bool) (rpmAbs : K) : Bool :=
  let hyst := conf.focSlErpm * 0.05
  if usingHall then !decide (rpmAbs > conf.focSlErpm + hyst)
  else decide (rpmAbs < conf.focSlErpm - hyst)

/-- The middle of the old and the new hall value. -/
def angAvg (angHallInt angHallIntPrev : Int) : Int :=
  let angAvg := |angHallInt - angHallIntPrev|
  let angAvg :=
    if angAvg < 100 then (angHallInt + angHallIntPrev) / 2
    else if angAvg ≠ 100 then (angHallInt + angHallIntPrev) / 2 + 100
    else angAvg
  angAvg % 200

variable [FloorRing K]

/-- `correct_hall`. -/
def correctHall (conf : HallConfiguration K) (s : HallCorrection K) (r : HallReading K) :
    HallCorrection K × K :=
  if usesHall conf s.usingHall r.rpmAbs then
    let angHallInt := r.angHallInt conf
    if angHallInt < 201 then
      let angHallNow := hallAngle angHallInt
      let angHall :=
        if s.angHallIntPrev < 0 then
          -- the old value is overwritten before it is tested
          let angHallIntPrev := angHallInt
          if angHallIntPrev = -2 then r.angle else hallAngle angHallInt
        else if angHallInt ≠ s.angHallIntPrev then hallAngle (angAvg angHallInt s.angHallIntPrev)
        else s.angHall
      let angHall :=
        if r.rpmAbs < 100.0 then angHallNow
        else
          let diff := angleDifferenceRad angHall angHallNow
          if |diff| < 2.0 * mPi / 12.0 then angHall + r.speed * r.dt else angHall - diff / 100.0
      let angHall := normAngleRad angHall
      (⟨angHallInt, true, angHall⟩, angHall)
    else
      (⟨-1, true, s.angHall⟩,
        if r.phaseObserverOverride ∧ r.state = .running then r.phaseNowObserverOverride
        else r.angle)
  else (⟨-2, false, s.angHall⟩, r.angle)

/-- The calls of `correct_hall`, each with the angle that it returns. -/
def hallCalls (conf : HallConfiguration K) : Machine (HallCorrection K) (HallReading K) K where
  step s r := ((correctHall conf s r).1, [(correctHall conf s r).2])

/-- After a boot. -/
def HallCorrection.init : HallCorrection K := ⟨-1, true, 0⟩

/-- The call turns from the observer to the hall sensors, with a valid entry and fast enough
for interpolation. -/
def HallCorrection.TurnsToHall (conf : HallConfiguration K) (s : HallCorrection K)
    (r : HallReading K) : Prop :=
  s.usingHall = false ∧ usesHall conf s.usingHall r.rpmAbs = true ∧
    r.angHallInt conf < 201 ∧ 100.0 ≤ r.rpmAbs

/-- The angles differ by no more than the bound, apart from whole turns. -/
def Close (bound angle1 angle2 : K) : Prop :=
  ∃ turns : Int, |angle1 - angle2 + 2.0 * mPi * turns| ≤ bound

/-- The step that the hand-over may make. -/
def HallReading.step (r : HallReading K) : K := max (|r.speed| * r.dt) (mPi / 100.0)

/-- The call does not jump when it turns to the hall sensors. -/
def HallCorrection.Smooth (conf : HallConfiguration K) (s : HallCorrection K)
    (r : HallReading K) : Prop :=
  s.TurnsToHall conf r → Close r.step (correctHall conf s r).2 r.angle

/-- The observer is near the angle of the hall sensors when the call turns to them. -/
def HallCorrection.NearSector (conf : HallConfiguration K) (s : HallCorrection K)
    (r : HallReading K) : Prop :=
  s.TurnsToHall conf r →
    Close r.step (hallAngle (r.angHallInt conf) + r.speed * r.dt) r.angle

end Model

section Proof

variable {K : Type} [Field K]

/-- Without hall sensors the previous value is the one for that. -/
def HallCorrection.Marked (s : HallCorrection K) : Prop :=
  s.usingHall = false → s.angHallIntPrev = -2

theorem marked_init : (HallCorrection.init : HallCorrection K).Marked := nofun

variable [LinearOrder K] [FloorRing K]

theorem correctHall_marked (conf : HallConfiguration K) (s : HallCorrection K)
    (r : HallReading K) : (correctHall conf s r).1.Marked := by
  unfold correctHall
  split
  next =>
    dsimp only
    split
    · exact fun hoff => Bool.noConfusion hoff
    · exact fun hoff => Bool.noConfusion hoff
  next => exact fun _ => rfl

theorem normAngleRad_turns (angle : K) : ∃ turns : Int,
    normAngleRad angle = angle + 2 * mPi * turns := by
  have hturns := angleDifferenceRad_turns angle 0
  rw [angleDifferenceRad, sub_zero] at hturns
  exact hturns

variable [IsStrictOrderedRing K] {conf : HallConfiguration K} {s : HallCorrection K}
  {r : HallReading K}

theorem angleDifferenceRad_self (angle : K) : angleDifferenceRad angle angle = 0 := by
  have hpi := mPi_pos (K := K)
  have hsmall : |(0 : K)| < mPi := by rwa [abs_zero]
  have hnone : (0 : K) = angle - angle + 2 * mPi * ((0 : Int) : K) := by simp
  exact angleDifferenceRad_eq hsmall hnone

/-- The turn to the hall sensors starts in the middle of their sector, whatever the observer
has. -/
theorem correctHall_turnsToHall (hmarked : s.Marked) (hturns : s.TurnsToHall conf r) :
    (correctHall conf s r).2 =
      normAngleRad (hallAngle (r.angHallInt conf) + r.speed * r.dt) := by
  obtain ⟨hobserver, huses, hvalid, hfast⟩ := hturns
  have hprev : s.angHallIntPrev < 0 := by
    rw [hmarked hobserver]
    decide
  have hentry : r.angHallInt conf ≠ -2 := by
    have hnonneg : 0 ≤ r.angHallInt conf := Int.natCast_nonneg _
    omega
  have hsector : (0 : K) < 2.0 * mPi / 12.0 := by
    have hpi := mPi_pos (K := K)
    positivity
  unfold correctHall
  rw [if_pos huses]
  dsimp only
  rw [if_pos hvalid, if_pos hprev, if_neg hentry, if_neg (not_lt.2 hfast),
    angleDifferenceRad_self, abs_zero, if_pos hsector]

omit [IsStrictOrderedRing K] in
theorem close_normAngleRad {bound angle1 angle2 : K} :
    Close bound (normAngleRad angle1) angle2 ↔ Close bound angle1 angle2 := by
  obtain ⟨whole, hwhole⟩ := normAngleRad_turns angle1
  have htwo : (2.0 : K) = 2 := by norm_num
  have hshift (turns : Int) : normAngleRad angle1 - angle2 + 2.0 * mPi * turns =
      angle1 - angle2 + 2.0 * mPi * ((whole + turns : Int) : K) := by
    rw [hwhole, htwo]
    push_cast
    ring
  constructor
  · rintro ⟨turns, hclose⟩
    rw [hshift] at hclose
    exact ⟨_, hclose⟩
  · rintro ⟨turns, hclose⟩
    refine ⟨turns - whole, ?_⟩
    rw [hshift, add_sub_cancel]
    exact hclose

theorem smooth_iff_nearSector (hmarked : s.Marked) :
    s.Smooth conf r ↔ s.NearSector conf r := by
  refine forall_congr' fun hturns => ?_
  rw [correctHall_turnsToHall hmarked hturns, close_normAngleRad]

/-- No turn to the hall sensors jumps in a run exactly if the observer is near their angle
at each of them. -/
theorem always_smooth_iff (conf : HallConfiguration K) (inputs : List (HallReading K)) :
    (hallCalls conf).Always (HallCorrection.Smooth conf) HallCorrection.init inputs ↔
      (hallCalls conf).Always (HallCorrection.NearSector conf) HallCorrection.init inputs :=
  Machine.always_congr_of_invariant (I := HallCorrection.Marked)
    (fun s r _ => correctHall_marked conf s r)
    (fun _ _ hmarked => smooth_iff_nearSector hmarked) marked_init inputs

end Proof

section Example

/-- All sensors in the sector around zero. -/
def zeroSector : HallConfiguration ℚ := ⟨fun _ => 0, 2500⟩

theorem hallAngle_zeroSector (r : HallReading ℚ) :
    hallAngle (r.angHallInt zeroSector) = (0 : ℚ) := by
  have hentry : r.angHallInt zeroSector = 0 := rfl
  rw [hentry]
  norm_num [hallAngle]

/-- The observer in the middle of the sector. -/
def aligned (rpm : ℚ) : HallReading ℚ :=
  ⟨0, rpm * (2.0 * mPi / 60.0), 1 / 20000, 1, false, 0, .running⟩

theorem nearSector_aligned (rpm : ℚ) (s : HallCorrection ℚ) :
    s.NearSector zeroSector (aligned rpm) := by
  intro _
  refine ⟨0, ?_⟩
  have hdt : (aligned rpm).dt = 1 / 20000 := rfl
  have hangle : (aligned rpm).angle = 0 := rfl
  rw [hallAngle_zeroSector, hangle, zero_add, sub_zero, Int.cast_zero, mul_zero, add_zero, abs_mul,
    hdt, abs_of_pos (by norm_num : (0 : ℚ) < 1 / 20000)]
  exact le_max_left _ _

/-- Slowing down from 3000 to 2000 turns per minute is smooth then. -/
theorem always_smooth_iff_aligned :
    (hallCalls zeroSector).Always (HallCorrection.Smooth zeroSector) HallCorrection.init
      [aligned 3000, aligned 2000] :=
  (always_smooth_iff zeroSector [aligned 3000, aligned 2000]).2
    ⟨nearSector_aligned 3000 _, nearSector_aligned 2000 _, trivial⟩

/-- The observer a quarter of a turn ahead. -/
def quarterAhead (rpm : ℚ) : HallReading ℚ :=
  ⟨mPi / 2, rpm * (2.0 * mPi / 60.0), 1 / 20000, 1, false, 0, .running⟩

theorem rpmAbs_quarterAhead (rpm : ℚ) : (quarterAhead rpm).rpmAbs = |rpm| := by
  unfold HallReading.rpmAbs quarterAhead
  rw [mul_div_cancel_right₀]
  norm_num [mPi]

/-- Slowing down from 3000 to 2000 turns per minute jumps by a quarter of a turn. -/
theorem not_smooth_quarterAhead :
    ¬(hallCalls zeroSector).Always (HallCorrection.Smooth zeroSector) HallCorrection.init
      [quarterAhead 3000, quarterAhead 2000] := by
  rintro ⟨-, hsmooth, -⟩
  have hfirst : ((hallCalls zeroSector).step HallCorrection.init (quarterAhead 3000)).1 =
      ⟨-2, false, 0⟩ := by
    simp only [hallCalls, correctHall, usesHall, rpmAbs_quarterAhead]
    norm_num [zeroSector, HallCorrection.init]
  rw [hfirst] at hsmooth
  have hturns : (⟨-2, false, 0⟩ : HallCorrection ℚ).TurnsToHall zeroSector
      (quarterAhead 2000) := by
    refine ⟨rfl, ?_, by decide, ?_⟩
    · simp only [usesHall, rpmAbs_quarterAhead]
      norm_num [zeroSector]
    · rw [rpmAbs_quarterAhead]
      norm_num
  have hjump := hsmooth hturns
  rw [correctHall_turnsToHall (fun _ => rfl) hturns, close_normAngleRad] at hjump
  have hstep : (quarterAhead 2000).step = mPi / 100 := by
    norm_num [quarterAhead, HallReading.step, mPi]
  have hcentre : hallAngle ((quarterAhead 2000).angHallInt zeroSector) +
      (quarterAhead 2000).speed * (quarterAhead 2000).dt = mPi / 300 := by
    rw [hallAngle_zeroSector]
    norm_num [quarterAhead, mPi]
  obtain ⟨turns, hclose⟩ := hjump
  rw [hstep, hcentre, show (quarterAhead 2000).angle = mPi / 2 from rfl, abs_le] at hclose
  have hpi := mPi_pos (K := ℚ)
  rcases le_or_gt turns 0 with hle | hgt
  · have hcast : (turns : ℚ) ≤ 0 := by exact_mod_cast hle
    nlinarith [hclose.1]
  · have hcast : (1 : ℚ) ≤ turns := by exact_mod_cast hgt
    nlinarith [hclose.2]

end Example

end Bldc.Foc
