import Mathlib.Algebra.Group.Int.Defs
import Mathlib.Algebra.Group.Nat.Defs
import Mathlib.Tactic.Common

/-!
# Signed counters

A counter of fixed width is moved by signed amounts. It shows their sum as long as the sum
fits, and no longer.
-/

namespace Bldc.Foundation

variable {w : Nat}

/-- What a signed counter can show. -/
def Fits (w : Nat) (value : Int) : Prop := -2 ^ (w - 1) ≤ value ∧ value < 2 ^ (w - 1)

instance (w : Nat) (value : Int) : Decidable (Fits w value) :=
  inferInstanceAs (Decidable (_ ∧ _))

/-- A counter moved by an amount, as far as it has bits for it. -/
def advance (counter : BitVec w) (amount : Int) : BitVec w := counter + BitVec.ofInt w amount

theorem fits_toInt (counter : BitVec w) : Fits w counter.toInt :=
  ⟨counter.le_toInt, BitVec.toInt_lt⟩

theorem toInt_advance (counter : BitVec w) (amount : Int) :
    (advance counter amount).toInt = (counter.toInt + amount).bmod (2 ^ w) := by
  rw [advance, BitVec.toInt_add, BitVec.toInt_ofInt, Int.add_bmod_bmod]

/-- A counter shows the values that fit and differ from the sum by whole turns. -/
theorem toInt_advance_eq_iff (hwidth : 0 < w) {counter : BitVec w} {amount value : Int} :
    (advance counter amount).toInt = value ↔
      Fits w value ∧ (2 ^ w : Int) ∣ value - (counter.toInt + amount) := by
  have hcast : ((2 ^ w : Nat) : Int) = 2 ^ w := Int.natCast_pow 2 w
  constructor
  · rintro rfl
    refine ⟨fits_toInt _, ?_⟩
    rw [toInt_advance, ← hcast]
    exact Int.dvd_bmod_sub_self
  · rintro ⟨hfits, hturns⟩
    rw [← hcast] at hturns
    rw [toInt_advance, ← BitVec.toInt_ofInt_eq_self hwidth hfits.1 hfits.2, BitVec.toInt_ofInt,
      eq_comm, Int.bmod_eq_bmod_iff_bmod_sub_eq_zero]
    exact Int.bmod_eq_zero_of_dvd hturns

theorem toInt_advance_iff (hwidth : 0 < w) {counter : BitVec w} {amount : Int} :
    (advance counter amount).toInt = counter.toInt + amount ↔ Fits w (counter.toInt + amount) := by
  simp [toInt_advance_eq_iff hwidth]

end Bldc.Foundation
