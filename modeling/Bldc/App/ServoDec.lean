import Bldc.Flash.Memory
import Bldc.Foundation.Machine
import Mathlib.Algebra.Order.Field.Basic
import Mathlib.Algebra.Order.Ring.Rat
import Mathlib.Tactic.Linarith
import Mathlib.Tactic.NormNum
import Mathlib.Tactic.Ring

/-!
# The servo decoder

The width of a captured pulse becomes a position between two limits. A pulse that is much
too long or too short is marked by a negative length and dropped; the others go through a
median over three pulses, if that is switched on.
-/

namespace Bldc.App

open Flash Foundation

/-- The static variables of `servo_dec`, and of the median filter in `icuwidthcb`. -/
structure ServoDec where
  lastUpdateTime : Word
  servoPos : Rat
  pulseStart : Rat
  pulseEnd : Rat
  lastLenReceived : Rat
  useMedianFilter : Bool
  c1 : Rat
  c2 : Rat
  /-- `done_func` is not null. -/
  doneFunc : Bool

/-- `utils_middle_of_3`. -/
def middleOf3 (a b c : Rat) : Rat :=
  if a ≤ b ∧ a ≤ c then if b ≤ c then b else c
  else if b ≤ a ∧ b ≤ c then if a ≤ c then a else c
  else if a ≤ b then a else b

namespace ServoDec

variable (s : ServoDec)

/-- When the firmware starts. -/
def boot : ServoDec where
  lastUpdateTime := 0
  servoPos := 0
  pulseStart := 1
  pulseEnd := 2
  lastLenReceived := 0
  useMedianFilter := false
  c1 := 1 / 2
  c2 := 1 / 2
  doneFunc := false

/-- The milliseconds of a width in ticks of `TIMER_FREQ`. -/
def milliseconds (width : Nat) : Rat := width / (1000000 / 1000)

/-- `len` after the tests of `icuwidthcb`: negative for a pulse that is dropped. -/
def len (width : Nat) : Rat :=
  let len := milliseconds width - s.pulseStart
  let lenSet := s.pulseEnd - s.pulseStart
  if len > lenSet then if len < lenSet * (12 / 10) then lenSet else -1
  else if len < 0 then if len + s.pulseStart > s.pulseStart * (8 / 10) then 0 else -1
  else len

/-- The position for an accepted length. -/
def position (len : Rat) : Rat :=
  (len * 2 - (s.pulseEnd - s.pulseStart)) / (s.pulseEnd - s.pulseStart)

/-- `icuwidthcb` at a system time, and whether `done_func` is called. -/
def icuwidthcb (width : Nat) (now : Word) : ServoDec × Bool :=
  let len := s.len width
  let s := { s with lastLenReceived := milliseconds width }
  if len ≥ 0 then
    let s :=
      if s.useMedianFilter then
        let c := s.position len
        { s with servoPos := middleOf3 c s.c1 s.c2, c1 := c, c2 := s.c1 }
      else { s with servoPos := s.position len }
    ({ s with lastUpdateTime := now }, s.doneFunc)
  else (s, false)

/-- `servodec_set_pulse_options`. -/
def servodecSetPulseOptions (start stop : Rat) (medianFilter : Bool) : ServoDec :=
  { s with pulseStart := start, pulseEnd := stop, useMedianFilter := medianFilter }

/-- `servodec_get_time_since_update`, in milliseconds: `CH_CFG_ST_FREQUENCY` is 10000. -/
def servodecGetTimeSinceUpdate (now : Word) : Word := (now - s.lastUpdateTime) / (10000 / 1000)

end ServoDec

/-- The range of a position. -/
def InRange (pos : Rat) : Prop := -1 ≤ pos ∧ pos ≤ 1

namespace ServoDec

/-- The pulse is accepted. -/
def Accepts (s : ServoDec) (width : Nat) : Prop := 0 ≤ s.len width

/-- The invariant: limits that can be meant, and positions in the range. -/
structure Sound (s : ServoDec) : Prop where
  start_pos : 0 < s.pulseStart
  start_ne_end : s.pulseStart ≠ s.pulseEnd
  pos : InRange s.servoPos
  c1 : InRange s.c1
  c2 : InRange s.c2

theorem middleOf3_eq (a b c : Rat) :
    middleOf3 a b c = a ∨ middleOf3 a b c = b ∨ middleOf3 a b c = c := by
  unfold middleOf3
  split_ifs <;> simp

theorem inRange_middleOf3 {a b c : Rat} (ha : InRange a) (hb : InRange b) (hc : InRange c) :
    InRange (middleOf3 a b c) := by
  rcases middleOf3_eq a b c with h | h | h
  · rwa [h]
  · rwa [h]
  · rwa [h]

variable {s : ServoDec} {width : Nat}

/-- Between limits in their order an accepted length is that of the pulse, cut to the range. -/
theorem len_eq (horder : s.pulseStart < s.pulseEnd) (haccepts : s.Accepts width) :
    s.len width = max 0 (min (milliseconds width - s.pulseStart) (s.pulseEnd - s.pulseStart)) := by
  have hset : 0 < s.pulseEnd - s.pulseStart := sub_pos.2 horder
  unfold Accepts at haccepts
  unfold len at haccepts ⊢
  dsimp only at haccepts ⊢
  split_ifs at haccepts ⊢ with hlong hcut hshort hnear
  · rw [min_eq_right (le_of_lt hlong), max_eq_right hset.le]
  · norm_num at haccepts
  · rw [min_eq_left (not_lt.1 hlong), max_eq_left hshort.le]
  · norm_num at haccepts
  · rw [min_eq_left (not_lt.1 hlong), max_eq_right (not_lt.1 hshort)]

/-- Between inverted limits only the end of the range is accepted. -/
theorem len_eq_zero (horder : s.pulseEnd < s.pulseStart) (haccepts : s.Accepts width) :
    s.len width = 0 := by
  unfold Accepts at haccepts
  unfold len at haccepts ⊢
  dsimp only at haccepts ⊢
  split_ifs at haccepts ⊢ with hlong hcut hshort hnear
  · linarith
  · norm_num at haccepts
  · rfl
  · norm_num at haccepts
  · linarith

theorem inRange_position (hne : s.pulseStart ≠ s.pulseEnd) (haccepts : s.Accepts width) :
    InRange (s.position (s.len width)) := by
  unfold position InRange
  rcases lt_or_gt_of_ne hne with horder | horder
  · have hset : 0 < s.pulseEnd - s.pulseStart := sub_pos.2 horder
    have hlen := len_eq horder haccepts
    have hnonneg : 0 ≤ s.len width := haccepts
    have hle : s.len width ≤ s.pulseEnd - s.pulseStart := by
      rw [hlen]
      exact max_le hset.le (min_le_right _ _)
    rw [le_div_iff₀ hset, div_le_one hset]
    constructor <;> linarith
  · have hset : s.pulseEnd - s.pulseStart ≠ 0 := sub_ne_zero.2 hne.symm
    rw [len_eq_zero horder haccepts, zero_mul, zero_sub, neg_div, div_self hset]
    norm_num

theorem icuwidthcb_rejected (hrejects : ¬s.Accepts width) (now : Word) :
    s.icuwidthcb width now = ({ s with lastLenReceived := milliseconds width }, false) :=
  if_neg hrejects

theorem Sound.icuwidthcb (h : s.Sound) (width : Nat) (now : Word) :
    (s.icuwidthcb width now).1.Sound := by
  by_cases haccepts : s.Accepts width
  · have hlen : s.len width ≥ 0 := haccepts
    have hpos := inRange_position h.start_ne_end haccepts
    unfold ServoDec.icuwidthcb
    dsimp only
    rw [if_pos hlen]
    split
    next => exact ⟨h.start_pos, h.start_ne_end, inRange_middleOf3 hpos h.c1 h.c2, hpos, h.c1⟩
    next => exact ⟨h.start_pos, h.start_ne_end, hpos, h.c1, h.c2⟩
  · rw [icuwidthcb_rejected haccepts]
    exact ⟨h.start_pos, h.start_ne_end, h.pos, h.c1, h.c2⟩

end ServoDec

end Bldc.App
