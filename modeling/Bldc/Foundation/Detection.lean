import Bldc.Foundation.Remainder
import Mathlib.GroupTheory.OrderOfElement
import Mathlib.RingTheory.AdjoinRoot

/-!
# What a remainder detects

A string is divided without remainder exactly if the generator divides its polynomial. The
generator divides no short pattern and, where it has the root one, no odd one. Which pairs it
divides depends on the order of its root, whose powers are computed in a register.
-/

namespace Bldc.Foundation

/-! ## Arithmetic in a register -/

section Register

variable {w : Nat} (poly : BitVec w)

/-- The product of two residues. -/
def multiply (r s : BitVec w) : BitVec w :=
  (msbFirst s).foldl (fun acc bit => divideBit poly acc false ^^^ if bit then r else 0) 0

/-- A power of the root, for an exponent in binary digits. -/
def power (digits : List Bool) : BitVec w :=
  digits.foldl (fun acc digit =>
    if digit then divideBit poly (multiply poly acc acc) false else multiply poly acc acc) 1

end Register

/-- The number with the binary digits. -/
def binary (digits : List Bool) : Nat := digits.foldl (fun n digit => 2 * n + digit.toNat) 0

noncomputable section

open Polynomial

/-! ## Strings and words -/

theorem stringPoly_snoc (bits : List Bool) (bit : Bool) :
    stringPoly (bits ++ [bit]) = stringPoly bits * X + C (coefficient bit) := by
  rw [stringPoly, List.foldl_append]
  rfl

theorem stringPoly_append (bits group : List Bool) :
    stringPoly (bits ++ group) = stringPoly bits * X ^ group.length + stringPoly group := by
  induction group using List.reverseRecOn with
  | nil => simp [stringPoly]
  | append_singleton group bit ih =>
      rw [← List.append_assoc, stringPoly_snoc, stringPoly_snoc, ih, List.length_append,
        List.length_singleton, pow_succ]
      ring

theorem stringPoly_range (f : Nat → Bool) (n i : Nat) :
    (stringPoly ((List.range n).map f)).coeff i =
      if i < n then coefficient (f (n - 1 - i)) else 0 := by
  induction n generalizing i with
  | zero => simp [stringPoly]
  | succ n ih =>
      rw [List.range_succ, List.map_append, List.map_singleton, stringPoly_snoc, coeff_add]
      cases i with
      | zero => simp
      | succ i =>
          rw [coeff_mul_X, ih, coeff_C_succ, add_zero]
          simp only [Nat.add_lt_add_iff_right, Nat.add_sub_cancel, Nat.sub_add_eq,
            Nat.sub_right_comm]

theorem stringPoly_msbFirst {n : Nat} (x : BitVec n) : stringPoly (msbFirst x) = wordPoly x := by
  ext i
  rw [msbFirst, stringPoly_range, wordPoly_coeff]
  split
  next hi =>
    rw [BitVec.getMsbD_eq_getLsbD]
    congr 1
    simp [show n - 1 - i < n by omega, show n - 1 - (n - 1 - i) = i by omega]
  next hi =>
    rw [BitVec.getLsbD_of_ge x i (not_lt.1 hi)]
    rfl

theorem wordPoly_zero (n : Nat) : wordPoly (0 : BitVec n) = 0 := by
  ext i
  rw [wordPoly_coeff]
  simp [coefficient]

theorem wordPoly_injective {n : Nat} {r s : BitVec n} (h : wordPoly r = wordPoly s) : r = s := by
  apply BitVec.eq_of_getLsbD_eq
  intro i _
  have hcoeff := wordPoly_coeff s i
  rw [← h, wordPoly_coeff] at hcoeff
  revert hcoeff
  cases r.getLsbD i <;> cases s.getLsbD i <;> decide

/-! ## Patterns -/

/-- The polynomial with the powers of a set. -/
def patternPoly (powers : Finset Nat) : (ZMod 2)[X] := ∑ i ∈ powers, X ^ i

theorem patternPoly_coeff (powers : Finset Nat) (i : Nat) :
    (patternPoly powers).coeff i = if i ∈ powers then 1 else 0 := by
  simp [patternPoly, coeff_X_pow]

theorem patternPoly_ne_zero {powers : Finset Nat} (h : powers.Nonempty) :
    patternPoly powers ≠ 0 := by
  obtain ⟨i, hi⟩ := h
  intro hzero
  have hcoeff := patternPoly_coeff powers i
  rw [hzero, if_pos hi, coeff_zero] at hcoeff
  exact zero_ne_one hcoeff

theorem wordPoly_eq_patternPoly {n : Nat} (x : BitVec n) :
    wordPoly x = patternPoly ((Finset.range n).filter fun i => x.getLsbD i) := by
  ext i
  rw [wordPoly_coeff, patternPoly_coeff, coefficient]
  congr 1
  by_cases hi : i < n
  · simp [hi]
  · simp [hi, BitVec.getLsbD_of_ge x i (not_lt.1 hi)]

/-- Out of a window it is a short polynomial, moved. -/
theorem patternPoly_window {powers : Finset Nat} {start width : Nat}
    (hspan : ∀ i ∈ powers, start ≤ i ∧ i < start + width) :
    ∃ short : (ZMod 2)[X], patternPoly powers = X ^ start * short ∧ short.degree < width := by
  refine ⟨∑ i ∈ powers, X ^ (i - start), ?_, ?_⟩
  · rw [Finset.mul_sum]
    refine Finset.sum_congr rfl fun i hi => ?_
    rw [← pow_add, Nat.add_sub_cancel' (hspan i hi).1]
  · rw [degree_lt_iff_coeff_zero]
    intro m hm
    rw [finsetSum_coeff]
    refine Finset.sum_eq_zero fun i hi => ?_
    obtain ⟨hlow, hhigh⟩ := hspan i hi
    rw [coeff_X_pow, if_neg (by omega)]

/-! ## What the generator divides -/

section Generator

variable {w : Nat} {poly : BitVec w}

theorem generator_coeff_zero (hw : 0 < w) (hlow : poly.getLsbD 0 = true) :
    (generator poly).coeff 0 = 1 := by
  rw [generator, coeff_add, wordPoly_coeff, hlow, coeff_X_pow, if_neg hw.ne]
  decide

/-- Zeros behind a string do not matter to a generator that ends in one. -/
theorem isCoprime_generator (hw : 0 < w) (hlow : poly.getLsbD 0 = true) (n : Nat) :
    IsCoprime (generator poly) (X ^ n) := by
  refine IsCoprime.pow_right ⟨1, -(generator poly).divX, ?_⟩
  have hdivX := divX_mul_X_add (generator poly)
  rw [generator_coeff_zero hw hlow, C_1] at hdivX
  linear_combination -hdivX

theorem generator_dvd_shift (hw : 0 < w) (hlow : poly.getLsbD 0 = true) (n : Nat)
    (p : (ZMod 2)[X]) : generator poly ∣ X ^ n * p ↔ generator poly ∣ p :=
  ⟨(isCoprime_generator hw hlow n).dvd_of_dvd_mul_left, fun h => h.mul_left _⟩

theorem remainder_eq_zero_iff (hw : 0 < w) (hlow : poly.getLsbD 0 = true) (bits : List Bool) :
    remainder poly bits = 0 ↔ generator poly ∣ stringPoly bits := by
  have hzero : remainder poly bits = 0 ↔ wordPoly (remainder poly bits) = 0 := by
    rw [← wordPoly_zero w]
    exact ⟨congrArg wordPoly, wordPoly_injective⟩
  rw [hzero, wordPoly_remainder poly hw, modByMonic_eq_zero_iff_dvd (generator_monic poly),
    mul_comm, generator_dvd_shift hw hlow]

/-- No burst is a multiple of the generator that is not longer than its remainders. -/
theorem not_dvd_burst (hw : 0 < w) (hlow : poly.getLsbD 0 = true) {powers : Finset Nat}
    (hsome : powers.Nonempty) {start : Nat}
    (hspan : ∀ i ∈ powers, start ≤ i ∧ i < start + w) :
    ¬generator poly ∣ patternPoly powers := by
  obtain ⟨short, hshort, hdegree⟩ := patternPoly_window hspan
  have hne : short ≠ 0 := by
    rintro rfl
    exact patternPoly_ne_zero hsome (by rw [hshort, mul_zero])
  rw [hshort, generator_dvd_shift hw hlow]
  rw [← generator_degree poly] at hdegree
  exact (generator_monic poly).not_dvd_of_degree_lt hne hdegree

/-- A multiple of a generator with the root one has it as well. -/
theorem not_dvd_odd (heven : (generator poly).eval 1 = 0) {powers : Finset Nat}
    (hodd : Odd powers.card) : ¬generator poly ∣ patternPoly powers := by
  intro hdvd
  have hroot := eval_dvd (x := 1) hdvd
  rw [heven, zero_dvd_iff, patternPoly, eval_finsetSum] at hroot
  simp only [eval_pow, eval_X, one_pow, Finset.sum_const, nsmul_one] at hroot
  exact Nat.not_even_iff_odd.2 hodd (ZMod.natCast_eq_zero_iff_even.1 hroot)

/-- A pair is a multiple of the generator if its distance is one of the order of the root. -/
theorem dvd_pair_iff (hw : 0 < w) (hlow : poly.getLsbD 0 = true) {i j : Nat} (hij : i < j) :
    generator poly ∣ patternPoly {i, j} ↔
      orderOf (AdjoinRoot.root (generator poly)) ∣ j - i := by
  have hpair : patternPoly {i, j} = X ^ i * (X ^ (j - i) - 1) := by
    rw [patternPoly, Finset.sum_pair hij.ne, CharTwo.sub_eq_add, mul_add, mul_one, ← pow_add,
      Nat.add_sub_cancel' hij.le, add_comm]
  rw [hpair, generator_dvd_shift hw hlow, ← AdjoinRoot.mk_eq_zero, map_sub, map_pow,
    AdjoinRoot.mk_X, map_one, sub_eq_zero, orderOf_dvd_iff_pow_eq_one]

/-- Below the order of the root no pair is one. -/
theorem not_dvd_pair (hw : 0 < w) (hlow : poly.getLsbD 0 = true) {powers : Finset Nat}
    (hpair : powers.card = 2)
    (hbound : ∀ i ∈ powers, i < orderOf (AdjoinRoot.root (generator poly))) :
    ¬generator poly ∣ patternPoly powers := by
  obtain ⟨i, j, hne, rfl⟩ := Finset.card_eq_two.1 hpair
  have hi := hbound i (Finset.mem_insert_self i {j})
  have hj := hbound j (Finset.mem_insert_of_mem (Finset.mem_singleton_self j))
  obtain hij | hij := Nat.lt_or_gt_of_ne hne
  · rw [dvd_pair_iff hw hlow hij]
    exact Nat.not_dvd_of_pos_of_lt (Nat.sub_pos_of_lt hij) ((Nat.sub_le _ _).trans_lt hj)
  · rw [Finset.pair_comm, dvd_pair_iff hw hlow hij]
    exact Nat.not_dvd_of_pos_of_lt (Nat.sub_pos_of_lt hij) ((Nat.sub_le _ _).trans_lt hi)

/-! ## The residues -/

/-- What a register stands for. -/
def residue (poly r : BitVec w) : AdjoinRoot (generator poly) := AdjoinRoot.mk _ (wordPoly r)

theorem residue_injective {r s : BitVec w} (h : residue poly r = residue poly s) : r = s := by
  refine wordPoly_injective (sub_eq_zero.1 (by_contra fun hne => ?_))
  have hdegree := (degree_sub_le (wordPoly r) (wordPoly s)).trans_lt
    (max_lt (wordPoly_degree_lt poly r) (wordPoly_degree_lt poly s))
  exact (generator_monic poly).not_dvd_of_degree_lt hne hdegree (AdjoinRoot.mk_eq_mk.1 h)

theorem residue_xor (r s : BitVec w) :
    residue poly (r ^^^ s) = residue poly r + residue poly s := by
  rw [residue, wordPoly_xor, map_add]
  rfl

/-- A zero that comes in multiplies by the root. -/
theorem residue_divideBit (hw : 0 < w) (r : BitVec w) :
    residue poly (divideBit poly r false) =
      residue poly r * AdjoinRoot.root (generator poly) := by
  have hstep := congrArg (AdjoinRoot.mk (generator poly)) (wordPoly_divideBit poly hw r false)
  rw [map_add, map_mul, AdjoinRoot.mk_self, zero_mul, add_zero, map_add, map_mul,
    AdjoinRoot.mk_X, show coefficient false = 0 from rfl, C_0, map_zero, add_zero] at hstep
  exact hstep

theorem residue_multiply (hw : 0 < w) (r s : BitVec w) :
    residue poly (multiply poly r s) = residue poly r * residue poly s := by
  have hzero : residue poly 0 = 0 := by
    rw [residue, wordPoly_zero, map_zero]
  have hword : residue poly s = AdjoinRoot.mk _ (stringPoly (msbFirst s)) := by
    rw [stringPoly_msbFirst]
    rfl
  rw [hword, multiply]
  generalize msbFirst s = bits
  induction bits using List.reverseRecOn with
  | nil => rw [List.foldl_nil, hzero, stringPoly, List.foldl_nil, map_zero, mul_zero]
  | append_singleton bits bit ih =>
      rw [List.foldl_append, List.foldl_cons, List.foldl_nil, residue_xor,
        residue_divideBit hw, ih, stringPoly_snoc, map_add, map_mul, AdjoinRoot.mk_X]
      cases bit with
      | false =>
          rw [if_neg Bool.false_ne_true, hzero, show coefficient false = 0 from rfl, C_0, map_zero]
          ring
      | true =>
          rw [if_pos rfl, show coefficient true = 1 from rfl, C_1, map_one]
          ring

theorem residue_one (hw : 0 < w) : residue poly 1 = 1 := by
  have hpow := wordPoly_twoPow hw
  rw [BitVec.twoPow_zero, pow_zero] at hpow
  exact (congrArg _ hpow).trans (map_one _)

theorem residue_power (hw : 0 < w) (digits : List Bool) :
    residue poly (power poly digits) = AdjoinRoot.root (generator poly) ^ binary digits := by
  induction digits using List.reverseRecOn with
  | nil => exact residue_one hw
  | append_singleton digits digit ih =>
      rw [power, binary, List.foldl_append, List.foldl_append, List.foldl_cons, List.foldl_nil,
        List.foldl_cons, List.foldl_nil, pow_add, mul_comm 2, pow_mul]
      rw [power, binary] at ih
      cases digit with
      | false =>
          rw [if_neg Bool.false_ne_true, residue_multiply hw, ih, Bool.toNat_false, pow_zero,
            mul_one, pow_two]
      | true =>
          rw [if_pos rfl, residue_divideBit hw, residue_multiply hw, ih, Bool.toNat_true, pow_one,
            pow_two]

/-- Whether a power of the root is one shows in the register. -/
theorem root_pow_eq_one_iff (hw : 0 < w) (digits : List Bool) :
    AdjoinRoot.root (generator poly) ^ binary digits = 1 ↔ power poly digits = 1 := by
  rw [← residue_power hw, ← residue_one hw]
  exact ⟨residue_injective, congrArg _⟩

end Generator

end

end Bldc.Foundation
