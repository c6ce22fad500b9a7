import Mathlib.Data.List.Infix
import Mathlib.Logic.Function.Basic
import Mathlib.Tactic.Common

/-!
# Slots that are written round and round

A ring of `size` slots receives an unbounded sequence of items, the item of number
`i` in the slot `i % size`. What a slot holds is the last item that was written to it.
-/

namespace Bldc.Foundation

variable {α : Type} {size : Nat}

/-- The slots hold the last items of the sequence. -/
def HoldsLast (size : Nat) (items : List α) (slots : Nat → α) : Prop :=
  ∀ i < items.length, items.length ≤ i + size → items[i]? = some (slots (i % size))

theorem holdsLast_nil (slots : Nat → α) : HoldsLast size [] slots :=
  fun _ hi => absurd hi (Nat.not_lt_zero _)

/-- Slots that were never written may be taken for the items of the first round. -/
theorem holdsLast_range {count : Nat} (hcount : count ≤ size) (slots : Nat → α) :
    HoldsLast size ((List.range count).map slots) slots := by
  intro i hi _
  rw [List.length_map, List.length_range] at hi
  rw [List.getElem?_map, List.getElem?_range hi, Option.map_some,
    Nat.mod_eq_of_lt (hi.trans_le hcount)]

theorem HoldsLast.push {items : List α} {slots : Nat → α} (h : HoldsLast size items slots)
    (item : α) :
    HoldsLast size (items ++ [item]) (Function.update slots (items.length % size) item) := by
  intro i hi hlast
  rw [List.length_append, List.length_singleton] at hi hlast
  obtain hlt | rfl := Nat.lt_succ_iff_lt_or_eq.1 hi
  · -- fewer than `size` items lie between the two, so they are in different slots
    have hne : i % size ≠ items.length % size := by
      intro heq
      have hdvd := Nat.dvd_of_mod_eq_zero (Nat.sub_mod_eq_zero_of_mod_eq heq.symm)
      exact absurd (Nat.le_of_dvd (by omega) hdvd) (by omega)
    rw [List.getElem?_append_left hlt, Function.update_of_ne hne]
    exact h i hlt (by omega)
  · rw [List.getElem?_append_right (Nat.le_refl _), Function.update_self]
    simp

/-- Before the ring has gone round its slots hold the whole sequence. -/
theorem HoldsLast.slots_eq {items : List α} {slots : Nat → α} (h : HoldsLast size items slots)
    (hround : items.length ≤ size) :
    (List.range (items.length % size)).map slots = items.take (items.length % size) := by
  apply List.ext_getElem?
  intro i
  rw [List.getElem?_map, List.getElem?_take]
  by_cases hi : i < items.length % size
  · have hlt : i < items.length := hi.trans_le (Nat.mod_le _ _)
    have hitem := h i hlt (by omega)
    rw [Nat.mod_eq_of_lt (by omega)] at hitem
    rw [List.getElem?_range hi, if_pos hi, hitem, Option.map_some]
  · rw [if_neg hi, List.getElem?_eq_none (by simpa using hi), Option.map_none]

/-- An index that is advanced and then wrapped. -/
theorem wrap_mod (hsize : 0 < size) (i : Nat) :
    (if i % size + 1 = size then 0 else i % size + 1) = (i + 1) % size := by
  have hlt := Nat.mod_lt i hsize
  have hmod : (i + 1) % size = (i % size + 1) % size := by rw [Nat.mod_add_mod]
  rw [hmod]
  split
  next hwraps => rw [hwraps, Nat.mod_self]
  next hinside => exact (Nat.mod_eq_of_lt (by omega)).symm

/-- The number of the last item before `count` that is in the slot of the item `first`. -/
def lastInSlot (size first count : Nat) : Nat := first + (count - 1 - first) / size * size

theorem le_lastInSlot (first count : Nat) : first ≤ lastInSlot size first count :=
  Nat.le_add_right _ _

theorem lastInSlot_mod (size first count : Nat) :
    lastInSlot size first count % size = first % size :=
  Nat.add_mul_mod_self_right _ _ _

theorem lastInSlot_lt (size : Nat) {first count : Nat} (h : first < count) :
    lastInSlot size first count < count := by
  have hle := Nat.div_mul_le_self (count - 1 - first) size
  unfold lastInSlot
  omega

theorem lt_lastInSlot_add (hsize : 0 < size) (first count : Nat) :
    count - 1 < lastInSlot size first count + size := by
  have hlt := Nat.lt_div_mul_add hsize (a := count - 1 - first)
  unfold lastInSlot
  omega

/-- Before the ring has gone round it is the item itself. -/
theorem lastInSlot_eq {first count : Nat} (h : first < count) (hround : count ≤ first + size) :
    lastInSlot size first count = first := by
  unfold lastInSlot
  rw [Nat.div_eq_of_lt (by omega), Nat.zero_mul, Nat.add_zero]

/-- Taking a later item of the sequence keeps what was taken a part of it. -/
theorem sublist_take_snoc {taken items : List α} {first i : Nat} {item : α}
    (h : taken.Sublist (items.take first)) (hle : first ≤ i) (hitem : items[i]? = some item) :
    (taken ++ [item]).Sublist (items.take (i + 1)) := by
  rw [List.take_add_one, hitem]
  have hearlier := (List.take_prefix_take_left hle : items.take first <+: items.take i)
  exact (h.trans hearlier.sublist).append (List.Sublist.refl _)

/-- Taking the next one keeps it the beginning. -/
theorem take_snoc {taken items : List α} {item : α} (h : taken = items.take taken.length)
    (hitem : items[taken.length]? = some item) :
    taken ++ [item] = items.take (taken ++ [item]).length := by
  rw [List.length_append, List.length_singleton, List.take_add_one, hitem, ← h]
  rfl

end Bldc.Foundation
