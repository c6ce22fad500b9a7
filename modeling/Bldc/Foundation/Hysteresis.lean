import Bldc.Foundation.Machine
import Mathlib.Algebra.Order.Field.Basic
import Mathlib.Tactic.Linarith
import Mathlib.Tactic.Ring

/-!
# Switches with hysteresis

A switch goes off above a band, and on below it. The input has to cross the whole band between
two moves, so its total variation pays for them.
-/

namespace Bldc.Foundation

variable {K : Type} [Field K] [LinearOrder K]

/-- The step changes the state. -/
def Machine.Switches {σ ι ο : Type} (M : Machine σ ι ο) (state : σ) (input : ι) : Prop :=
  (M.step state input).1 ≠ state

instance {σ ι ο : Type} [DecidableEq σ] (M : Machine σ ι ο) (state : σ) (input : ι) :
    Decidable (M.Switches state input) :=
  inferInstanceAs (Decidable (_ ≠ _))

/-- The total variation of a list. -/
def variation : List K → K
  | [] => 0
  | [_] => 0
  | x :: y :: rest => |y - x| + variation (y :: rest)

structure Band (K : Type) where
  low : K
  high : K

namespace Band

variable (b : Band K)

def next (on : Bool) (x : K) : Bool :=
  if on then !decide (b.high < x) else decide (x < b.low)

def width : K := b.high - b.low

/-- What the input still has to cross before the switch moves. -/
def gap (on : Bool) (x : K) : K := if on then b.high - x else x - b.low

/-- How much of the band the input has crossed since the switch moved. -/
def progress (on : Bool) (x : K) : K := b.width - max 0 (min b.width (b.gap on x))

variable {b} [IsStrictOrderedRing K]

theorem progress_le (on : Bool) (x : K) : b.progress on x ≤ b.width :=
  sub_le_self _ (le_max_left _ _)

theorem progress_nonneg (hwidth : 0 ≤ b.width) (on : Bool) (x : K) : 0 ≤ b.progress on x :=
  sub_nonneg.2 (max_le hwidth (min_le_left _ _))

theorem gap_neg_of_moves {on : Bool} {x : K} (h : b.next on x ≠ on) : b.gap on x < 0 := by
  cases on <;> simpa [next, gap] using h

/-- After a move nothing of the band is crossed. -/
theorem progress_of_moves (hwidth : 0 ≤ b.width) {on : Bool} {x : K} (h : b.next on x ≠ on) :
    b.progress (b.next on x) x = 0 := by
  have hneg := gap_neg_of_moves h
  have hgap : b.gap (b.next on x) x = b.width - b.gap on x := by
    rw [Bool.eq_not.2 h]
    cases on <;> simp [gap, width]
  have hbeyond : b.width ≤ b.gap (b.next on x) x := by linarith
  rw [progress, min_eq_left hbeyond, max_eq_right hwidth, sub_self]

theorem abs_gap_sub (on : Bool) (x y : K) : b.gap on x - b.gap on y ≤ |y - x| := by
  cases on
  · have hle := neg_le_abs (y - x)
    simp only [gap, Bool.false_eq_true, if_false]
    linarith
  · have hle := le_abs_self (y - x)
    simp only [gap, if_true]
    linarith

/-- A step costs no more than the input moves. -/
theorem cost_next_le (hwidth : 0 ≤ b.width) (on : Bool) (x y : K) :
    b.width * (if b.next on y ≠ on then 1 else 0) + b.progress (b.next on y) y ≤
      b.progress on x + |y - x| := by
  have hgap := abs_gap_sub (b := b) on x y
  have habs := abs_nonneg (y - x)
  by_cases hmoves : b.next on y ≠ on
  · have hneg := gap_neg_of_moves hmoves
    have hcrossed : max 0 (min b.width (b.gap on x)) ≤ |y - x| := by
      apply max_le habs
      exact (min_le_right _ _).trans (by linarith)
    rw [if_pos hmoves, progress_of_moves hwidth hmoves, progress]
    linarith
  · have hstays : b.next on y = on := not_not.1 hmoves
    have hcrossed : max 0 (min b.width (b.gap on x)) ≤
        max 0 (min b.width (b.gap on y)) + |y - x| := by
      apply max_le
      · linarith [le_max_left 0 (min b.width (b.gap on y))]
      · rcases le_total b.width (b.gap on y) with hbeyond | hbelow
        · rw [min_eq_left hbeyond]
          linarith [min_le_left b.width (b.gap on x), le_max_right 0 b.width]
        · rw [min_eq_right hbelow]
          linarith [min_le_right b.width (b.gap on x), le_max_right 0 (b.gap on y)]
    rw [if_neg hmoves, hstays, progress, progress]
    linarith

theorem cost_first_le (hwidth : 0 ≤ b.width) (on : Bool) (x : K) :
    b.width * (if b.next on x ≠ on then 1 else 0) + b.progress (b.next on x) x ≤ b.width := by
  by_cases hmoves : b.next on x ≠ on
  · rw [if_pos hmoves, progress_of_moves hwidth hmoves]
    linarith
  · rw [if_neg hmoves]
    linarith [progress_le (b := b) (b.next on x) x]

variable {ι ο : Type} {M : Machine Bool ι ο} {x : ι → K}

theorem count_from_le (hwidth : 0 ≤ b.width)
    (hstep : ∀ on input, (M.step on input).1 = b.next on (x input)) (on : Bool) (last : K)
    (inputs : List ι) :
    b.width * (M.count M.Switches on inputs : K) ≤
      b.progress on last + variation (last :: inputs.map x) := by
  induction inputs generalizing on last with
  | nil =>
      simpa [Machine.count, variation] using progress_nonneg hwidth on last
  | cons input inputs ih =>
      have hcost := cost_next_le hwidth on last (x input)
      have hrest := ih (b.next on (x input)) (x input)
      simp only [Machine.count, Machine.Switches, hstep, List.map_cons, variation]
      push_cast
      rw [mul_add]
      linarith

/-- The moves of a switch over a run: but for one of them, each costs the width of the band. -/
theorem count_moves_le (hwidth : 0 ≤ b.width)
    (hstep : ∀ on input, (M.step on input).1 = b.next on (x input)) (on : Bool)
    (inputs : List ι) :
    b.width * (M.count M.Switches on inputs : K) ≤
      b.width + variation (inputs.map x) := by
  cases inputs with
  | nil => simpa [Machine.count, variation] using hwidth
  | cons input inputs =>
      have hcost := cost_first_le hwidth on (x input)
      have hrest := count_from_le hwidth hstep (b.next on (x input)) (x input) inputs
      simp only [Machine.count, Machine.Switches, hstep, List.map_cons]
      push_cast
      rw [mul_add]
      linarith

end Band

/-- The distances of the absolute values are no larger. -/
theorem variation_map_abs_le [IsStrictOrderedRing K] (xs : List K) :
    variation (xs.map (|·|)) ≤ variation xs := by
  induction xs with
  | nil => simp
  | cons x xs ih =>
      cases xs with
      | nil => simp [variation]
      | cons y rest =>
          simp only [List.map_cons, variation] at ih ⊢
          exact add_le_add (abs_abs_sub_abs_le_abs_sub y x) ih

end Bldc.Foundation
