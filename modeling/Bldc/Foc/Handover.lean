import Bldc.Drive.Utils
import Bldc.Foundation.Hysteresis

/-!
# The handover between encoder and observer

With an encoder the rotor phase is that of the encoder at low speed and that of the observer at
high speed. Between the two speeds `correct_encoder` stays with the one it has, so that a speed
near the limit does not have it go back and forth.
-/

namespace Bldc.Foc

open Foundation Utils

section Model

variable {K : Type} [Field K] [LinearOrder K]

/-- What a call of `correct_encoder` gets. -/
structure HandoverReading (K : Type) where
  obsAngle : K
  encAngle : K
  speed : K

/-- The revolutions per minute of which `correct_encoder` takes the absolute value. -/
def HandoverReading.rpm (r : HandoverReading K) : K := r.speed / (2.0 * mPi / 60.0)

/-- `correct_encoder`, with the static `using_encoder`. -/
def correctEncoder (focSlErpm : K) (usingEncoder : Bool) (r : HandoverReading K) : Bool × K :=
  let rpmAbs := |r.rpm|
  let hyst := focSlErpm * 0.05
  let usingEncoder :=
    if usingEncoder then
      if rpmAbs > focSlErpm + hyst then false else usingEncoder
    else
      if rpmAbs < focSlErpm - hyst then true else usingEncoder
  (usingEncoder, if usingEncoder then r.encAngle else r.obsAngle)

/-- The handover, with the angles that are returned. -/
def handover (focSlErpm : K) : Machine Bool (HandoverReading K) K where
  step usingEncoder r :=
    ((correctEncoder focSlErpm usingEncoder r).1, [(correctEncoder focSlErpm usingEncoder r).2])

/-- The speeds between which the estimator stays. -/
def handoverBand (focSlErpm : K) : Band K :=
  ⟨focSlErpm - focSlErpm * 0.05, focSlErpm + focSlErpm * 0.05⟩

end Model

section Proof

variable {K : Type} [Field K] [LinearOrder K] {focSlErpm : K}

theorem correctEncoder_next (usingEncoder : Bool) (r : HandoverReading K) :
    (correctEncoder focSlErpm usingEncoder r).1 =
      (handoverBand focSlErpm).next usingEncoder |r.rpm| := by
  cases usingEncoder
  · by_cases hbelow : |r.rpm| < focSlErpm - focSlErpm * 0.05
    · simp [correctEncoder, handoverBand, Band.next, hbelow]
    · simp [correctEncoder, handoverBand, Band.next, hbelow]
  · by_cases habove : focSlErpm + focSlErpm * 0.05 < |r.rpm|
    · simp [correctEncoder, handoverBand, Band.next, habove]
    · simp [correctEncoder, handoverBand, Band.next, habove]

variable [IsStrictOrderedRing K]

theorem handoverBand_width (focSlErpm : K) : (handoverBand focSlErpm).width = focSlErpm / 10 := by
  unfold handoverBand Band.width
  norm_num
  ring

omit [IsStrictOrderedRing K] in
theorem handover_length (usingEncoder : Bool) (readings : List (HandoverReading K)) :
    ((handover focSlErpm).run usingEncoder readings).2.length = readings.length := by
  induction readings generalizing usingEncoder with
  | nil => rfl
  | cons r readings ih =>
      rw [Machine.run_cons, List.length_append, ih]
      simp [handover, Nat.add_comm]

/-- Far from the limit the angle does not depend on the estimator in use. -/
theorem correctEncoder_slow (hsl : 0 ≤ focSlErpm) {r : HandoverReading K}
    (h : |r.rpm| < focSlErpm * 0.95) (usingEncoder : Bool) :
    (correctEncoder focSlErpm usingEncoder r).2 = r.encAngle := by
  have hlow : focSlErpm - focSlErpm * 0.05 = focSlErpm * 0.95 := by
    norm_num
    ring
  have hhigh : ¬focSlErpm + focSlErpm * 0.05 < |r.rpm| := by
    apply not_lt.2
    norm_num at h ⊢
    linarith
  cases usingEncoder
  · simp [correctEncoder, hlow, h]
  · simp [correctEncoder, hhigh]

theorem correctEncoder_fast (hsl : 0 ≤ focSlErpm) {r : HandoverReading K}
    (h : focSlErpm * 1.05 < |r.rpm|) (usingEncoder : Bool) :
    (correctEncoder focSlErpm usingEncoder r).2 = r.obsAngle := by
  have hhigh : focSlErpm + focSlErpm * 0.05 = focSlErpm * 1.05 := by
    norm_num
    ring
  have hlow : ¬|r.rpm| < focSlErpm - focSlErpm * 0.05 := by
    apply not_lt.2
    norm_num at h ⊢
    linarith
  cases usingEncoder
  · simp [correctEncoder, hlow]
  · simp [correctEncoder, hhigh, h]

/-- Over any run of the control loop the phase is that of the encoder whenever the speed is more
than 5 percent below the limit and that of the observer whenever it is as far above, and the
estimators change no more often than the speed crosses the band between. -/
theorem handover_settles (hsl : 0 ≤ focSlErpm) (usingEncoder : Bool)
    (readings : List (HandoverReading K)) :
    (∀ before r after, readings = before ++ r :: after → ∃ earlier angle later,
        ((handover focSlErpm).run usingEncoder readings).2 = earlier ++ angle :: later ∧
          earlier.length = before.length ∧
          (|r.rpm| < focSlErpm * 0.95 → angle = r.encAngle) ∧
          (focSlErpm * 1.05 < |r.rpm| → angle = r.obsAngle)) ∧
      focSlErpm / 10 * ((handover focSlErpm).count (handover focSlErpm).Switches usingEncoder
          readings : K) ≤
        focSlErpm / 10 + variation (readings.map HandoverReading.rpm) := by
  constructor
  · rintro before r after rfl
    obtain ⟨now, hnow⟩ : ∃ now, ((handover focSlErpm).run usingEncoder before).1 = now := ⟨_, rfl⟩
    refine ⟨((handover focSlErpm).run usingEncoder before).2, (correctEncoder focSlErpm now r).2,
      ((handover focSlErpm).run (correctEncoder focSlErpm now r).1 after).2, ?_,
      handover_length usingEncoder before, fun hslow => correctEncoder_slow hsl hslow now,
      fun hfast => correctEncoder_fast hsl hfast now⟩
    rw [Machine.run_append, Machine.run_cons, hnow]
    rfl
  · have hwidth : 0 ≤ (handoverBand focSlErpm).width := by
      rw [handoverBand_width]
      positivity
    have hcount := Band.count_moves_le (M := handover focSlErpm) hwidth
      (fun usingEncoder r => correctEncoder_next usingEncoder r) usingEncoder readings
    have habs : variation (readings.map fun r => |r.rpm|) ≤
        variation (readings.map HandoverReading.rpm) := by
      have hle := variation_map_abs_le (readings.map HandoverReading.rpm)
      rwa [List.map_map] at hle
    rw [handoverBand_width] at hcount
    linarith

/-- A speed that rises to twice the limit and falls again. -/
theorem handover_settles_twice :
    (0 : Rat) ≤ 2000 ∧
      2000 / 10 * ((handover (2000 : Rat)).count (handover 2000).Switches true
          [⟨0, 1, 0⟩, ⟨0, 1, 400⟩, ⟨0, 1, 0⟩] : Rat) ≤
        2000 / 10 + variation ([(⟨0, 1, 0⟩ : HandoverReading Rat), ⟨0, 1, 400⟩, ⟨0, 1, 0⟩].map
          HandoverReading.rpm) :=
  ⟨by norm_num, (handover_settles (by norm_num) true [⟨0, 1, 0⟩, ⟨0, 1, 400⟩, ⟨0, 1, 0⟩]).2⟩

end Proof

end Bldc.Foc
