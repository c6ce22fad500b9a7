import Bldc.Foundation.Loop
import Mathlib.Algebra.Order.Floor.Ring
import Mathlib.Tactic.Linarith
import Mathlib.Tactic.Ring

/-!
# Whole turns

An angle is brought between two bounds by whole turns: at once, with as many turns as it takes,
and by two loops that take one turn after another.
-/

namespace Bldc.Foundation

section Turn

variable {K : Type} [Field K] [LinearOrder K]

/-- One loop for the angles that are too small and one for those that are too large. -/
def turnLoops (half turn : K) (fuel : Nat) (angle : K) : Option K :=
  (whileLoop (fun angle => angle < -half) (fun angle => some (angle + turn)) fuel angle).bind
    (whileLoop (fun angle => half < angle) (fun angle => some (angle - turn)) fuel)

variable [FloorRing K]

/-- The angle with as many turns as it takes. -/
def reduce (half turn angle : K) : K :=
  if angle < -half then angle + turn * ⌈(-half - angle) / turn⌉
  else if half < angle then angle - turn * ⌈(angle - half) / turn⌉
  else angle

theorem reduce_turns (half turn angle : K) :
    ∃ turns : Int, reduce half turn angle = angle + turn * turns := by
  unfold reduce
  split
  next => exact ⟨_, rfl⟩
  next =>
    split
    next =>
      refine ⟨-⌈(angle - half) / turn⌉, ?_⟩
      rw [Int.cast_neg]
      ring
    next => exact ⟨0, by rw [Int.cast_zero]; ring⟩

variable [IsStrictOrderedRing K] {half turn : K}

/-- So many turns close a gap, and one turn less does not. -/
theorem turns_close (hturn : 0 < turn) (gap : K) :
    gap ≤ turn * ⌈gap / turn⌉ ∧ turn * ⌈gap / turn⌉ < gap + turn := by
  have hle := Int.le_ceil (gap / turn)
  have hlt := Int.ceil_lt_add_one (gap / turn)
  rw [div_le_iff₀ hturn] at hle
  rw [← sub_lt_iff_lt_add, lt_div_iff₀ hturn] at hlt
  constructor <;> linarith

theorem reduce_mem (hturn : 0 < turn) (hfits : turn ≤ half + half) (angle : K) :
    -half ≤ reduce half turn angle ∧ reduce half turn angle ≤ half := by
  unfold reduce
  split
  next =>
    obtain ⟨hle, hlt⟩ := turns_close hturn (-half - angle)
    constructor <;> linarith
  next hlow =>
    split
    next =>
      obtain ⟨hle, hlt⟩ := turns_close hturn (angle - half)
      constructor <;> linarith
    next hhigh => exact ⟨not_lt.1 hlow, not_lt.1 hhigh⟩

theorem reduce_neg (hhalf : 0 < half) (angle : K) :
    reduce half turn (-angle) = -reduce half turn angle := by
  unfold reduce
  obtain hlow | hlow := lt_or_ge angle (-half)
  · have hhigh : half < -angle := lt_neg.1 hlow
    have hgap : -angle - half = -half - angle := by ring
    rw [if_pos hlow, if_neg (by linarith), if_pos hhigh, hgap]
    ring
  · obtain hhigh | hhigh := lt_or_ge half angle
    · have hgap : -half - -angle = angle - half := by ring
      rw [if_pos (neg_lt_neg hhigh), if_neg hlow.not_gt, if_pos hhigh, hgap]
      ring
    · rw [if_neg (neg_le_neg hhigh).not_gt, if_neg (neg_le.1 hlow).not_gt, if_neg hlow.not_gt,
        if_neg hhigh.not_gt]

/-- Two angles within the bounds that are whole turns apart are the same, but for half a turn
to one side and to the other. -/
theorem reduce_eq (hturn : 0 < turn) (hfits : turn = half + half) {angle moved : K}
    {turns : Int} (hmoved : |moved| < half) (hturns : moved = angle + turn * turns) :
    reduce half turn angle = moved := by
  obtain ⟨hlow, hhigh⟩ := reduce_mem hturn hfits.le angle
  obtain ⟨turns', hturns'⟩ := reduce_turns half turn angle
  obtain ⟨hmovedlow, hmovedhigh⟩ := abs_lt.1 hmoved
  have hdiff : reduce half turn angle - moved = turn * (turns' - turns : Int) := by
    rw [hturns', hturns, Int.cast_sub]
    ring
  have hlt : ((turns' - turns : Int) : K) < 1 := by
    rw [← mul_lt_mul_iff_right₀ hturn, ← hdiff]
    linarith
  have hgt : (-1 : K) < ((turns' - turns : Int) : K) := by
    rw [← mul_lt_mul_iff_right₀ hturn, ← hdiff]
    linarith
  have hsame : turns' - turns = 0 := by
    have hlt' : turns' - turns < 1 := by exact_mod_cast hlt
    have hgt' : -1 < turns' - turns := by exact_mod_cast hgt
    omega
  rw [hsame, Int.cast_zero, mul_zero] at hdiff
  exact sub_eq_zero.1 hdiff

/-- A loop that closes a gap by one turn a round takes as many rounds as there are turns in
the gap. -/
theorem returns_rounds {σ : Type} {cond : σ → Prop} [DecidablePred cond] {step : σ → σ}
    (hturn : 0 < turn) (gap : σ → K) (hcond : ∀ s, cond s ↔ 0 < gap s)
    (hstep : ∀ s, gap (step s) = gap s - turn) (s : σ) :
    Returns (fun fuel => whileLoop cond (fun s => some (step s)) fuel s)
      (step^[⌈gap s / turn⌉₊] s) := by
  have hgap (i : Nat) : gap (step^[i] s) = gap s - i * turn := by
    induction i with
    | zero => simp
    | succ i ih =>
        rw [Function.iterate_succ_apply', hstep, ih, Nat.cast_succ]
        ring
  refine returns_iterate (fun i hi => ?_) ?_
  · rw [hcond, hgap, sub_pos, ← lt_div_iff₀ hturn]
    exact Nat.lt_ceil.1 hi
  · rw [hcond, hgap, not_lt, sub_nonpos, ← div_le_iff₀ hturn]
    exact Nat.le_ceil _

theorem returns_climb (hturn : 0 < turn) (low angle : K) :
    Returns (fun fuel => whileLoop (fun angle => angle < low)
        (fun angle => some (angle + turn)) fuel angle)
      (angle + turn * ⌈(low - angle) / turn⌉₊) := by
  have hrounds (i : Nat) : (fun angle => angle + turn)^[i] angle = angle + turn * i := by
    rw [add_right_iterate_apply, nsmul_eq_mul, mul_comm]
  rw [← hrounds]
  exact returns_rounds hturn (fun angle => low - angle) (fun _ => sub_pos.symm)
    (fun angle => sub_add_eq_sub_sub low angle turn) angle

theorem returns_descend (hturn : 0 < turn) (high angle : K) :
    Returns (fun fuel => whileLoop (fun angle => high < angle)
        (fun angle => some (angle - turn)) fuel angle)
      (angle - turn * ⌈(angle - high) / turn⌉₊) := by
  have hrounds (i : Nat) : (fun angle => angle - turn)^[i] angle = angle - turn * i := by
    simp only [sub_eq_add_neg]
    rw [add_right_iterate_apply, nsmul_eq_mul, mul_neg, mul_comm]
  rw [← hrounds]
  exact returns_rounds hturn (fun angle => angle - high) (fun _ => sub_pos.symm)
    (fun angle => sub_right_comm angle turn high) angle

theorem turns_eq_zero (hturn : 0 < turn) {gap : K} (hgap : gap ≤ 0) :
    turn * ⌈gap / turn⌉₊ = 0 := by
  rw [Nat.ceil_eq_zero.2 (div_nonpos_of_nonpos_of_nonneg hgap hturn.le), Nat.cast_zero, mul_zero]

/-- The loops end, and the second one does not undo what the first one has done. -/
theorem returns_turnLoops (hturn : 0 < turn) (hfits : turn ≤ half + half) (angle : K) :
    Returns (fun fuel => turnLoops half turn fuel angle) (reduce half turn angle) := by
  have hmem := reduce_mem hturn hfits angle
  unfold reduce at hmem ⊢
  have hboth := (returns_climb hturn (-half) angle).bind (returns_descend hturn half _)
  split at hmem
  next hlow =>
    have hgap : 0 ≤ (-half - angle) / turn := div_nonneg (sub_nonneg.2 hlow.le) hturn.le
    rw [natCast_ceil_eq_intCast_ceil hgap, turns_eq_zero hturn (sub_nonpos.2 hmem.2),
      sub_zero] at hboth
    rwa [if_pos hlow]
  next hlow =>
    rw [turns_eq_zero hturn (sub_nonpos.2 (not_lt.1 hlow)), add_zero] at hboth
    rw [if_neg hlow]
    split
    next hhigh =>
      have hgap : 0 ≤ (angle - half) / turn := div_nonneg (sub_nonneg.2 hhigh.le) hturn.le
      rwa [natCast_ceil_eq_intCast_ceil hgap] at hboth
    next hhigh =>
      rwa [turns_eq_zero hturn (sub_nonpos.2 (not_lt.1 hhigh)), sub_zero] at hboth

end Turn

end Bldc.Foundation
