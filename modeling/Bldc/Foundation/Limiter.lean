import Mathlib.Algebra.Order.Field.Basic
import Mathlib.Tactic.Linarith

/-!
# Limiters

A limiter leaves a signal between zero and what it was. Limiters can be applied one
after another: none of them undoes a bound around zero that another one has established.
-/

namespace Bldc.Foundation

section Clamp

variable {K : Type} [LinearOrder K] {lo hi : K}

/-- The nearest value between the bounds. -/
def clamp (lo hi x : K) : K := if hi < x then hi else if x < lo then lo else x

theorem clamp_mem (h : lo ≤ hi) (x : K) : lo ≤ clamp lo hi x ∧ clamp lo hi x ≤ hi := by
  unfold clamp
  split
  next => exact ⟨h, le_rfl⟩
  next hhi =>
    split
    next => exact ⟨le_rfl, h⟩
    next hlo => exact ⟨not_lt.1 hlo, not_lt.1 hhi⟩

theorem clamp_mono (h : lo ≤ hi) {x y : K} (hxy : x ≤ y) : clamp lo hi x ≤ clamp lo hi y := by
  obtain ⟨hlo, hhi⟩ := clamp_mem h y
  by_cases hy : hi < y
  · rw [show clamp lo hi y = hi from if_pos hy]
    exact (clamp_mem h x).2
  · by_cases hx : x < lo
    · have hclamp : clamp lo hi x = lo := by
        rw [clamp, if_neg (not_lt.2 (hx.le.trans h)), if_pos hx]
      exact hclamp.trans_le hlo
    · rw [clamp, clamp, if_neg (not_lt.2 (hxy.trans (not_lt.1 hy))), if_neg hx, if_neg hy,
        if_neg (not_lt.2 ((not_lt.1 hx).trans hxy))]
      exact hxy

end Clamp

section Shrinks

variable {K : Type} [Zero K] [LinearOrder K] {x y z lo hi : K}

/-- Between zero and the other one. -/
def Shrinks (y x : K) : Prop := 0 ≤ y ∧ y ≤ x ∨ x ≤ y ∧ y ≤ 0

theorem Shrinks.refl (x : K) : Shrinks x x := by
  obtain h | h := le_total 0 x
  · exact .inl ⟨h, le_rfl⟩
  · exact .inr ⟨le_rfl, h⟩

theorem Shrinks.zero (x : K) : Shrinks 0 x := by
  obtain h | h := le_total 0 x
  · exact .inl ⟨le_rfl, h⟩
  · exact .inr ⟨h, le_rfl⟩

theorem Shrinks.trans (h : Shrinks z y) (h' : Shrinks y x) : Shrinks z x := by
  obtain ⟨hz, hzy⟩ | ⟨hyz, hz⟩ := h
  · obtain ⟨-, hyx⟩ | ⟨hxy, hy⟩ := h'
    · exact .inl ⟨hz, hzy.trans hyx⟩
    · obtain rfl := le_antisymm (hzy.trans hy) hz
      exact .zero x
  · obtain ⟨hy, -⟩ | ⟨hxy, -⟩ := h'
    · obtain rfl := le_antisymm hz (hy.trans hyz)
      exact .zero x
    · exact .inr ⟨hxy.trans hyz, hz⟩

/-- Bounds around zero stay. -/
theorem Shrinks.mem_of_mem (h : Shrinks y x) (hlo : lo ≤ 0) (hhi : 0 ≤ hi)
    (hx : lo ≤ x ∧ x ≤ hi) : lo ≤ y ∧ y ≤ hi := by
  obtain ⟨hy, hyx⟩ | ⟨hxy, hy⟩ := h
  · exact ⟨hlo.trans hy, hyx.trans hx.2⟩
  · exact ⟨hx.1.trans hxy, hy.trans hhi⟩

theorem clamp_shrinks (hlo : lo ≤ 0) (hhi : 0 ≤ hi) (x : K) : Shrinks (clamp lo hi x) x := by
  unfold clamp
  split
  next h => exact .inl ⟨hhi, h.le⟩
  next =>
    split
    next h => exact .inr ⟨h.le, hlo⟩
    next => exact .refl x

end Shrinks

section Field

variable {K : Type} [Field K] [LinearOrder K]

/-- One step towards a goal, and no further. -/
def towards (goal step x : K) : K :=
  if x < goal then if x + step < goal then x + step else goal
  else if goal < x then if goal < x - step then x - step else goal
  else x

variable [IsStrictOrderedRing K] {x y step factor : K}

theorem Shrinks.abs_le (h : Shrinks y x) : |y| ≤ |x| := by
  obtain ⟨hy, hyx⟩ | ⟨hxy, hy⟩ := h
  · rw [abs_of_nonneg hy, abs_of_nonneg (hy.trans hyx)]
    exact hyx
  · rw [abs_of_nonpos hy, abs_of_nonpos (hxy.trans hy)]
    exact neg_le_neg hxy

theorem Shrinks.sq_le (h : Shrinks y x) : y ^ 2 ≤ x ^ 2 := sq_le_sq.2 h.abs_le

theorem mul_shrinks (hnonneg : 0 ≤ factor) (hle : factor ≤ 1) (x : K) :
    Shrinks (x * factor) x := by
  obtain h | h := le_total 0 x
  · exact .inl ⟨mul_nonneg h hnonneg, mul_le_of_le_one_right h hle⟩
  · have hneg := mul_le_of_le_one_right (neg_nonneg.2 h) hle
    exact .inr ⟨by linarith, mul_nonpos_of_nonpos_of_nonneg h hnonneg⟩

theorem towards_zero_shrinks (hstep : 0 ≤ step) (x : K) : Shrinks (towards 0 step x) x := by
  unfold towards
  split
  next hneg =>
    split
    next h => exact .inr ⟨le_add_of_nonneg_right hstep, h.le⟩
    next => exact .zero x
  next =>
    split
    next hpos =>
      split
      next h => exact .inl ⟨h.le, sub_le_self x hstep⟩
      next => exact .zero x
    next => exact .refl x

end Field

end Bldc.Foundation
