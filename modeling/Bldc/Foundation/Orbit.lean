import Mathlib.Algebra.Order.Field.Basic
import Mathlib.Tactic.FieldSimp
import Mathlib.Tactic.Linarith
import Mathlib.Tactic.LinearCombination
import Mathlib.Tactic.Positivity
import Mathlib.Tactic.Ring

/-!
# Points that are drawn to a circle

A point is drawn to the unit circle, and it is seen from one that runs along the circle. The
radial error is damped, and the turning makes the tangential one radial. With some of the
product of the two a quadratic form falls in every step, as long as the point is close.
-/

namespace Bldc.Foundation

variable {K : Type} [Field K]

/-- Where the point is, along the radius and across it. -/
@[ext]
structure Offset (K : Type) where
  along : K
  across : K

namespace Offset

variable (mix : K) (e e' : Offset K)

def sq : K := e.along ^ 2 + e.across ^ 2

def add : Offset K := ⟨e.along + e'.along, e.across + e'.across⟩

/-- How much the square of the distance from the centre exceeds one. -/
def excess : K := e.along + e.along + e.sq

/-- Where the point is drawn to. -/
def drawn (pull : K) (e : Offset K) : Offset K :=
  ⟨e.along - pull * e.excess * (1 + e.along), e.across - pull * e.excess * e.across⟩

/-- The quadratic form that falls. -/
def energy : K := e.sq - (mix + mix) * (e.along * e.across)

variable [LinearOrder K] [IsStrictOrderedRing K] {mix e e'}

theorem sq_nonneg' : 0 ≤ e.sq := by
  unfold sq
  positivity

theorem energy_nonneg (hlo : -1 ≤ mix) (hhi : mix ≤ 1) : 0 ≤ e.energy mix := by
  have hsplit : e.energy mix = (1 + mix) / 2 * (e.along - e.across) ^ 2 +
      (1 - mix) / 2 * (e.along + e.across) ^ 2 := by
    unfold energy sq
    ring
  have hlo' : 0 ≤ 1 + mix := by linarith
  have hhi' : 0 ≤ 1 - mix := by linarith
  rw [hsplit]
  positivity

theorem sq_le_energy (hlo : -1 ≤ mix + mix) (hhi : mix + mix ≤ 1) : e.sq ≤ 2 * e.energy mix := by
  have hnonneg : 0 ≤ e.energy (mix + mix) := energy_nonneg hlo hhi
  have hsplit : 2 * e.energy mix = e.sq + e.energy (mix + mix) := by
    unfold energy
    ring
  linarith

theorem energy_le_sq (hlo : -1 ≤ mix + mix) (hhi : mix + mix ≤ 1) :
    2 * e.energy mix ≤ 3 * e.sq := by
  have hnonneg : 0 ≤ (⟨e.along, -e.across⟩ : Offset K).energy (mix + mix) := energy_nonneg hlo hhi
  have hsplit : 3 * e.sq =
      2 * e.energy mix + (⟨e.along, -e.across⟩ : Offset K).energy (mix + mix) := by
    unfold energy sq
    ring
  linarith

/-- The form of a sum, with more weight on either part. -/
theorem energy_add_le (hlo : -1 ≤ mix) (hhi : mix ≤ 1) (weight : K) :
    weight * (e.add e').energy mix ≤
      weight * (1 + weight) * e.energy mix + (1 + weight) * e'.energy mix := by
  have hnonneg := energy_nonneg
    (e := ⟨weight * e.along - e'.along, weight * e.across - e'.across⟩) hlo hhi
  have hsplit : weight * (1 + weight) * e.energy mix + (1 + weight) * e'.energy mix =
      weight * (e.add e').energy mix +
        (⟨weight * e.along - e'.along, weight * e.across - e'.across⟩ : Offset K).energy mix := by
    unfold energy add sq
    ring
  linarith

end Offset

/-- How strongly the point is drawn, and the turn in each step. -/
structure Draw (K : Type) where
  pull : K
  cos : K
  sin : K

namespace Draw

variable (d : Draw K) (e : Offset K)

def turnBack : Offset K :=
  ⟨d.cos * e.along + d.sin * e.across, d.cos * e.across - d.sin * e.along⟩

/-- The point one step later, seen from the one that has turned. -/
def next : Offset K := d.turnBack (e.drawn d.pull)

/-- With this much of the product the form falls, for every turn that is not a right angle. -/
def share : K := d.pull * (d.cos * d.sin) / 9.0

/-- The part of a step that is linear, and the other one. -/
def linear : Offset K := d.turnBack ⟨(1 - (d.pull + d.pull)) * e.along, e.across⟩

def rest : Offset K :=
  d.turnBack ⟨-(d.pull * (e.sq + (e.along ^ 2 + e.along ^ 2) + e.sq * e.along)),
    -(d.pull * e.excess * e.across)⟩

/-- What one step takes out of the form, for an error of one. -/
def rate (mix : K) : K := mix * d.cos * d.sin

/-- What the product of the errors loses in a step. -/
def coupling : K := d.pull + d.pull + (d.sin ^ 2 + d.sin ^ 2) * (1 - (d.pull + d.pull))

variable {d e}

theorem next_eq : d.next e = (d.linear e).add (d.rest e) := by
  ext <;> simp only [next, linear, rest, turnBack, Offset.drawn, Offset.add, Offset.excess,
    Offset.sq] <;> ring

variable [LinearOrder K] [IsStrictOrderedRing K]

/-- The turn makes up for the product in the form. -/
structure Damped (d : Draw K) (mix : K) : Prop where
  pull_pos : 0 < d.pull
  pull_le : d.pull + d.pull + (d.pull + d.pull) ≤ 1
  circle : d.cos ^ 2 + d.sin ^ 2 = 1
  mix_ge : -1 ≤ mix + mix
  mix_le : mix + mix ≤ 1
  rate_pos : 0 < d.rate mix
  rate_le : d.rate mix + d.rate mix ≤ d.pull
  coupling_le : (mix * d.coupling) ^ 2 ≤ d.pull * d.rate mix

variable {mix : K}

theorem sq_turnBack (hcircle : d.cos ^ 2 + d.sin ^ 2 = 1) (e : Offset K) :
    (d.turnBack e).sq = e.sq := by
  unfold turnBack Offset.sq
  linear_combination (e.along ^ 2 + e.across ^ 2) * hcircle

theorem energy_linear (mix : K) (hcircle : d.cos ^ 2 + d.sin ^ 2 = 1) (e : Offset K) :
    e.energy mix - (d.linear e).energy mix =
      (4 * d.pull * (1 - d.pull) - 2 * d.rate mix * (1 - 2 * d.pull) ^ 2) * e.along ^ 2 +
        2 * d.rate mix * e.across ^ 2 - 2 * (mix * d.coupling) * (e.along * e.across) := by
  have hsq := sq_turnBack hcircle ⟨(1 - (d.pull + d.pull)) * e.along, e.across⟩
  have hcos : d.cos ^ 2 = 1 - d.sin ^ 2 := by linear_combination hcircle
  unfold linear Offset.energy
  rw [hsq]
  unfold turnBack Offset.sq rate coupling
  dsimp only
  linear_combination (2 * mix * (1 - 2 * d.pull) * e.along * e.across) * hcos

/-- The linear part takes its share out of the form. -/
theorem Damped.energy_linear_le (h : d.Damped mix) (e : Offset K) :
    (d.linear e).energy mix ≤ e.energy mix - d.rate mix * e.sq := by
  have hfall := energy_linear mix h.circle e
  obtain ⟨hpos, hle, -, -, -, hrate, hrate', hcoupling⟩ := h
  generalize mix * d.coupling = cross at hfall hcoupling
  generalize d.rate mix = rate at *
  generalize d.pull = pull at *
  have hfactor : 2 * pull ≤ 4 * pull * (1 - pull) - 2 * rate * (1 - 2 * pull) ^ 2 := by
    have hsquare : (1 - 2 * pull) ^ 2 ≤ 1 := by nlinarith
    nlinarith
  have hproduct : 2 * cross * (e.along * e.across) ≤ pull * e.along ^ 2 + rate * e.across ^ 2 := by
    have hsum : 0 ≤ pull * (pull * e.along ^ 2 + rate * e.across ^ 2 -
        2 * cross * (e.along * e.across)) := by
      have hrest : 0 ≤ (pull * rate - cross ^ 2) * e.across ^ 2 :=
        mul_nonneg (sub_nonneg.2 hcoupling) (sq_nonneg _)
      nlinarith [sq_nonneg (pull * e.along - cross * e.across)]
    have hnonneg := nonneg_of_mul_nonneg_right hsum hpos
    linarith
  have hradial := mul_le_mul_of_nonneg_right hfactor (sq_nonneg e.along)
  have hshare : rate * e.along ^ 2 ≤ pull * e.along ^ 2 :=
    mul_le_mul_of_nonneg_right (by linarith) (sq_nonneg _)
  unfold Offset.sq
  linarith

/-- The other part is small, of second order. -/
theorem sq_rest_le (hcircle : d.cos ^ 2 + d.sin ^ 2 = 1) {e : Offset K} (hsmall : 4 * e.sq ≤ 1) :
    (d.rest e).sq ≤ 15 * (d.pull * e.sq) ^ 2 := by
  have hsq : (d.rest e).sq = d.pull ^ 2 *
      ((e.sq + 2 * e.along ^ 2 + e.sq * e.along) ^ 2 + (e.excess * e.across) ^ 2) := by
    unfold rest
    rw [sq_turnBack hcircle, Offset.sq]
    ring
  have hn : e.sq = e.along ^ 2 + e.across ^ 2 := rfl
  have hexcess : e.excess = 2 * e.along + e.sq := by
    unfold Offset.excess
    ring
  have hnonneg : 0 ≤ e.sq := Offset.sq_nonneg'
  have halong : |e.along| ≤ 1 / 2 := by
    apply abs_le_of_sq_le_sq _ (by norm_num)
    nlinarith [sq_nonneg e.across]
  rcases abs_le.1 halong with ⟨hlo, hhi⟩
  have hradial : (e.sq + 2 * e.along ^ 2 + e.sq * e.along) ^ 2 ≤ (7 / 2 * e.sq) ^ 2 := by
    apply pow_le_pow_left₀
    · nlinarith [sq_nonneg e.along]
    · nlinarith [sq_nonneg e.across]
  have hacross : (e.excess * e.across) ^ 2 ≤ 5 / 2 * e.sq ^ 2 := by
    have hfactor : e.excess ^ 2 ≤ 8 * e.along ^ 2 + 2 * e.sq ^ 2 := by
      rw [hexcess]
      nlinarith [sq_nonneg (2 * e.along - e.sq)]
    have hmean : 4 * (e.along ^ 2 * e.across ^ 2) ≤ e.sq ^ 2 := by
      rw [hn]
      nlinarith [sq_nonneg (e.along ^ 2 - e.across ^ 2)]
    have hpart : e.sq ^ 2 * e.across ^ 2 ≤ e.sq ^ 2 * (1 / 4) := by
      apply mul_le_mul_of_nonneg_left _ (sq_nonneg _)
      nlinarith [sq_nonneg e.along]
    calc (e.excess * e.across) ^ 2 = e.excess ^ 2 * e.across ^ 2 := mul_pow _ _ _
      _ ≤ (8 * e.along ^ 2 + 2 * e.sq ^ 2) * e.across ^ 2 :=
          mul_le_mul_of_nonneg_right hfactor (sq_nonneg _)
      _ ≤ 5 / 2 * e.sq ^ 2 := by linarith
  have htotal : (e.sq + 2 * e.along ^ 2 + e.sq * e.along) ^ 2 + (e.excess * e.across) ^ 2 ≤
      15 * e.sq ^ 2 := by
    nlinarith [sq_nonneg e.sq]
  calc (d.rest e).sq ≤ d.pull ^ 2 * (15 * e.sq ^ 2) := by
        rw [hsq]
        exact mul_le_mul_of_nonneg_left htotal (sq_nonneg _)
    _ = 15 * (d.pull * e.sq) ^ 2 := by ring

/-- The point is close enough. -/
def Close (d : Draw K) (mix : K) (e : Offset K) : Prop :=
  2000.0 * (d.pull ^ 2 * e.energy mix) ≤ d.rate mix ^ 2

theorem Damped.sq_le_of_close (h : d.Damped mix) {e : Offset K} (hclose : d.Close mix e) :
    1000 * (d.pull ^ 2 * e.sq) ≤ d.rate mix ^ 2 := by
  have hn : e.sq ≤ 2 * e.energy mix := Offset.sq_le_energy h.mix_ge h.mix_le
  have hpull := mul_le_mul_of_nonneg_left hn (sq_nonneg d.pull)
  unfold Close at hclose
  norm_num at hclose
  linarith

theorem Damped.small (h : d.Damped mix) {e : Offset K} (hclose : d.Close mix e) :
    4 * e.sq ≤ 1 := by
  have hpos := h.pull_pos
  have hpull : 0 < d.pull ^ 2 := by positivity
  have hbound : d.rate mix ^ 2 ≤ d.pull ^ 2 := by
    apply pow_le_pow_left₀ h.rate_pos.le
    linarith [h.rate_le, h.rate_pos]
  have hsq : d.pull ^ 2 * (1000 * e.sq) ≤ d.pull ^ 2 * 1 := by linarith [h.sq_le_of_close hclose]
  linarith [le_of_mul_le_mul_left hsq hpull]

/-- Close to the one that runs along the circle the form falls. -/
theorem Damped.energy_next_le (h : d.Damped mix) {e : Offset K} (hclose : d.Close mix e) :
    (d.next e).energy mix ≤ (1 - d.rate mix / 6) * e.energy mix := by
  have hpos := h.pull_pos
  have hrate := h.rate_pos
  have hrate' := h.rate_le
  have hle := h.pull_le
  have hn : e.sq ≤ 2 * e.energy mix := Offset.sq_le_energy h.mix_ge h.mix_le
  have hn' : 2 * e.energy mix ≤ 3 * e.sq := Offset.energy_le_sq h.mix_ge h.mix_le
  have hnonneg : 0 ≤ e.sq := Offset.sq_nonneg'
  have henergy : 0 ≤ e.energy mix := by linarith
  have hclose' := h.sq_le_of_close hclose
  have hsmall := h.small hclose
  have hlinear : (d.linear e).energy mix ≤ (1 - 2 * d.rate mix / 3) * e.energy mix := by
    have hfall := h.energy_linear_le e
    have hshare := mul_le_mul_of_nonneg_left hn' hrate.le
    linarith
  have hrest : (d.rest e).energy mix ≤ 45 * d.pull ^ 2 * e.sq * e.energy mix := by
    have hform := Offset.energy_le_sq (e := d.rest e) h.mix_ge h.mix_le
    have hsq := sq_rest_le h.circle hsmall
    have hlast : d.pull ^ 2 * e.sq * e.sq ≤ d.pull ^ 2 * e.sq * (2 * e.energy mix) :=
      mul_le_mul_of_nonneg_left hn (by positivity)
    nlinarith
  have hlo : -1 ≤ mix := by linarith [h.mix_ge]
  have hhi : mix ≤ 1 := by linarith [h.mix_le]
  have hsum : d.rate mix / 3 * ((d.linear e).add (d.rest e)).energy mix ≤
      d.rate mix / 3 * (1 + d.rate mix / 3) * (d.linear e).energy mix +
        (1 + d.rate mix / 3) * (d.rest e).energy mix :=
    Offset.energy_add_le hlo hhi (d.rate mix / 3)
  rw [← next_eq] at hsum
  have hweighted : d.rate mix / 3 * (1 + d.rate mix / 3) * (d.linear e).energy mix ≤
      d.rate mix / 3 * ((1 - d.rate mix / 3) * e.energy mix) := by
    have hproduct : (1 + d.rate mix / 3) * ((1 - 2 * d.rate mix / 3) * e.energy mix) ≤
        (1 - d.rate mix / 3) * e.energy mix := by
      nlinarith [mul_nonneg (sq_nonneg (d.rate mix)) henergy]
    have hfirst := mul_le_mul_of_nonneg_left hlinear (by positivity : 0 ≤ 1 + d.rate mix / 3)
    rw [mul_assoc]
    exact mul_le_mul_of_nonneg_left (hfirst.trans hproduct) (by positivity)
  have hremains : (1 + d.rate mix / 3) * (d.rest e).energy mix ≤
      d.rate mix / 3 * (d.rate mix / 6 * e.energy mix) := by
    have hbound : (d.rest e).energy mix ≤ 45 / 1000 * (d.rate mix ^ 2 * e.energy mix) := by
      have hscaled := mul_le_mul_of_nonneg_right hclose' henergy
      linarith
    have hfactor : 1 + d.rate mix / 3 ≤ 25 / 24 := by linarith
    have hsquare : 0 ≤ d.rate mix ^ 2 * e.energy mix := by positivity
    calc (1 + d.rate mix / 3) * (d.rest e).energy mix
        ≤ (1 + d.rate mix / 3) * (45 / 1000 * (d.rate mix ^ 2 * e.energy mix)) :=
          mul_le_mul_of_nonneg_left hbound (by positivity)
      _ ≤ 25 / 24 * (45 / 1000 * (d.rate mix ^ 2 * e.energy mix)) :=
          mul_le_mul_of_nonneg_right hfactor (by positivity)
      _ ≤ d.rate mix / 3 * (d.rate mix / 6 * e.energy mix) := by nlinarith
  have htotal : d.rate mix / 3 * (d.next e).energy mix ≤
      d.rate mix / 3 * ((1 - d.rate mix / 6) * e.energy mix) := by
    linarith
  exact le_of_mul_le_mul_left htotal (by positivity)

theorem Damped.close_next (h : d.Damped mix) {e : Offset K} (hclose : d.Close mix e) :
    d.Close mix (d.next e) := by
  have hfall := h.energy_next_le hclose
  have hrate := h.rate_pos
  have hle : (d.next e).energy mix ≤ e.energy mix := by
    have hn : e.sq ≤ 2 * e.energy mix := Offset.sq_le_energy h.mix_ge h.mix_le
    have henergy : 0 ≤ e.energy mix := by linarith [Offset.sq_nonneg' (e := e)]
    nlinarith
  refine le_trans ?_ hclose
  apply mul_le_mul_of_nonneg_left _ (by norm_num)
  exact mul_le_mul_of_nonneg_left hle (sq_nonneg _)

/-- The error dies out. -/
theorem Damped.iterate (h : d.Damped mix) {e : Offset K} (hclose : d.Close mix e) (n : Nat) :
    d.Close mix (d.next^[n] e) ∧
      (d.next^[n] e).energy mix ≤ (1 - d.rate mix / 6) ^ n * e.energy mix := by
  have hrate := h.rate_pos
  have hfactor : 0 ≤ 1 - d.rate mix / 6 := by linarith [h.rate_le, h.pull_le, h.pull_pos]
  induction n with
  | zero => exact ⟨hclose, by simp⟩
  | succ n ih =>
      rcases ih with ⟨hclose', henergy⟩
      rw [Function.iterate_succ_apply']
      refine ⟨h.close_next hclose', (h.energy_next_le hclose').trans ?_⟩
      rw [pow_succ', mul_assoc]
      exact mul_le_mul_of_nonneg_left henergy hfactor

/-- A point that is drawn hard enough, and turned by something else than right angles. -/
theorem damped_share (hpos : 0 < d.pull) (hle : 4 * d.pull ≤ 1)
    (hcircle : d.cos ^ 2 + d.sin ^ 2 = 1) (hturn : d.cos * d.sin ≠ 0) : d.Damped d.share := by
  have hshare : d.share = d.pull * (d.cos * d.sin) / 9 := by
    unfold share
    norm_num
  have hrate : d.rate d.share = d.pull * (d.cos * d.sin) ^ 2 / 9 := by
    unfold rate
    rw [hshare]
    ring
  have hproduct : 4 * (d.cos * d.sin) ^ 2 ≤ 1 := by nlinarith [sq_nonneg (d.cos ^ 2 - d.sin ^ 2)]
  have habs : |d.cos * d.sin| ≤ 1 := by
    apply abs_le_of_sq_le_sq _ zero_le_one
    linarith [sq_nonneg (d.cos * d.sin)]
  rcases abs_le.1 habs with ⟨hlo, hhi⟩
  have hsq : 0 < (d.cos * d.sin) ^ 2 := by positivity
  have hcoupling : d.coupling ^ 2 ≤ 3 ^ 2 := by
    have hsin : d.sin ^ 2 ≤ 1 := by linarith [sq_nonneg d.cos]
    have hfactor : 0 ≤ 1 - (d.pull + d.pull) := by linarith
    have hlast := mul_le_mul_of_nonneg_right hsin hfactor
    apply pow_le_pow_left₀
    · unfold coupling
      positivity
    · unfold coupling
      linarith
  constructor
  · exact hpos
  · linarith
  · exact hcircle
  · rw [hshare]
    nlinarith
  · rw [hshare]
    nlinarith
  · rw [hrate]
    positivity
  · rw [hrate]
    nlinarith
  · rw [hrate, hshare]
    have hscaled := mul_le_mul_of_nonneg_left hcoupling
      (by positivity : 0 ≤ (d.pull * (d.cos * d.sin) / 9) ^ 2)
    calc (d.pull * (d.cos * d.sin) / 9 * d.coupling) ^ 2
        = (d.pull * (d.cos * d.sin) / 9) ^ 2 * d.coupling ^ 2 := mul_pow _ _ _
      _ ≤ (d.pull * (d.cos * d.sin) / 9) ^ 2 * 3 ^ 2 := hscaled
      _ = d.pull * (d.pull * (d.cos * d.sin) ^ 2 / 9) := by ring

/-- How close is enough, and how fast the error dies out, without the form. -/
theorem sq_iterate_le (hpos : 0 < d.pull) (hle : 4 * d.pull ≤ 1)
    (hcircle : d.cos ^ 2 + d.sin ^ 2 = 1) (hturn : d.cos * d.sin ≠ 0) {e : Offset K}
    (hclose : 243000 * e.sq ≤ (d.cos * d.sin) ^ 4) (n : Nat) :
    4 * (d.next^[n] e).sq ≤ 1 ∧
      (d.next^[n] e).sq ≤ 3 * (1 - d.pull * (d.cos * d.sin) ^ 2 / 54) ^ n * e.sq := by
  have h := damped_share hpos hle hcircle hturn
  have hrate : d.rate d.share = d.pull * (d.cos * d.sin) ^ 2 / 9 := by
    unfold rate share
    norm_num
    ring
  have hstart : 2 * e.energy d.share ≤ 3 * e.sq := Offset.energy_le_sq h.mix_ge h.mix_le
  have hnear : d.Close d.share e := by
    have hscaled := mul_le_mul_of_nonneg_left hclose (sq_nonneg d.pull)
    have hform := mul_le_mul_of_nonneg_left hstart (sq_nonneg d.pull)
    unfold Close
    rw [hrate]
    norm_num
    linarith
  rcases h.iterate hnear n with ⟨hnear', henergy⟩
  refine ⟨h.small hnear', ?_⟩
  have hend : (d.next^[n] e).sq ≤ 2 * (d.next^[n] e).energy d.share :=
    Offset.sq_le_energy h.mix_ge h.mix_le
  have hfactor : 0 ≤ 1 - d.rate d.share / 6 := by linarith [h.rate_le, h.pull_le, h.pull_pos]
  have hstart' := mul_le_mul_of_nonneg_left hstart (pow_nonneg hfactor n)
  have hsame : d.rate d.share / 6 = d.pull * (d.cos * d.sin) ^ 2 / 54 := by
    rw [hrate]
    ring
  rw [hsame] at henergy hstart'
  linarith

end Draw

end Bldc.Foundation
