import Mathlib.Algebra.CharP.Two
import Mathlib.Algebra.Field.ZMod
import Mathlib.Algebra.Polynomial.Div
import Mathlib.Algebra.Polynomial.OfFn
import Mathlib.Tactic.Common
import Mathlib.Tactic.LinearCombination

/-!
# Remainders of bit strings

Long division over two elements, one bit at a time: a register of `w` bits is shifted, and
the generator `x ^ w + poly` is taken away whenever a bit falls out. The division is linear,
so that a whole group of bits can be done with one look into a table.
-/

namespace Bldc.Foundation

variable {w : Nat} (poly : BitVec w)

/-- One step of the division: the next bit comes in. -/
def divideBit (r : BitVec w) (bit : Bool) : BitVec w :=
  if r.msb then r.shiftConcat bit ^^^ poly else r.shiftConcat bit

/-- The register after the bits, the most significant one first. -/
def divideBits (r : BitVec w) (bits : List Bool) : BitVec w := bits.foldl (divideBit poly) r

/-- The remainder of a bit string that is followed by `w` zeros. -/
def remainder (bits : List Bool) : BitVec w :=
  divideBits poly 0 (bits ++ List.replicate w false)

/-- The register after `n` zeros. -/
def shifts (n : Nat) (r : BitVec w) : BitVec w := divideBits poly r (List.replicate n false)

/-- The bits of a word, the most significant one first. -/
def msbFirst {n : Nat} (x : BitVec n) : List Bool := (List.range n).map x.getMsbD

@[simp] theorem msbFirst_length {n : Nat} (x : BitVec n) : (msbFirst x).length = n := by
  simp [msbFirst]

theorem divideBits_append (r : BitVec w) (bits rest : List Bool) :
    divideBits poly r (bits ++ rest) = divideBits poly (divideBits poly r bits) rest :=
  List.foldl_append

theorem shifts_succ (n : Nat) (r : BitVec w) :
    shifts poly (n + 1) r = shifts poly n (divideBit poly r false) := by
  rw [shifts, List.replicate_succ]
  rfl

theorem shifts_add (m n : Nat) (r : BitVec w) :
    shifts poly (m + n) r = shifts poly n (shifts poly m r) := by
  rw [shifts, ← List.replicate_append_replicate, divideBits_append]
  rfl

theorem remainder_eq (bits : List Bool) :
    remainder poly bits = shifts poly w (divideBits poly 0 bits) :=
  divideBits_append poly 0 bits _

/-! ## Linearity -/

theorem shiftConcat_xor (r s : BitVec w) (b c : Bool) :
    (r ^^^ s).shiftConcat (b ^^ c) = r.shiftConcat b ^^^ s.shiftConcat c := by
  ext i hi
  simp only [BitVec.getElem_shiftConcat, BitVec.getElem_xor]
  split <;> rfl

theorem divideBit_xor (r s : BitVec w) (b c : Bool) :
    divideBit poly (r ^^^ s) (b ^^ c) = divideBit poly r b ^^^ divideBit poly s c := by
  simp only [divideBit, BitVec.msb_xor, shiftConcat_xor]
  generalize r.shiftConcat b = r'
  generalize s.shiftConcat c = s'
  cases r.msb <;> cases s.msb
  · rfl
  · exact BitVec.xor_assoc r' s' poly
  · show r' ^^^ s' ^^^ poly = r' ^^^ poly ^^^ s'
    rw [BitVec.xor_assoc, BitVec.xor_comm s', ← BitVec.xor_assoc]
  -- taken away twice, the generator is not taken away
  · show r' ^^^ s' = r' ^^^ poly ^^^ (s' ^^^ poly)
    rw [BitVec.xor_comm s', ← BitVec.xor_assoc, BitVec.xor_assoc r', BitVec.xor_self,
      BitVec.xor_zero]

/-- What the register held before counts like bits of its own. -/
theorem divideBits_eq_xor (r : BitVec w) (bits : List Bool) :
    divideBits poly r bits = shifts poly bits.length r ^^^ divideBits poly 0 bits := by
  suffices h : ∀ s, divideBits poly (r ^^^ s) bits =
      shifts poly bits.length r ^^^ divideBits poly s bits by simpa using h 0
  induction bits generalizing r with
  | nil => exact fun s => rfl
  | cons bit bits ih =>
      intro s
      have hstep := divideBit_xor poly r s false bit
      rw [Bool.false_xor] at hstep
      rw [List.length_cons, shifts_succ]
      show divideBits poly (divideBit poly (r ^^^ s) bit) bits = _
      rw [hstep, ih]
      rfl

theorem shifts_xor (n : Nat) (r s : BitVec w) :
    shifts poly n (r ^^^ s) = shifts poly n r ^^^ shifts poly n s := by
  induction n generalizing r s with
  | zero => rfl
  | succ n ih => rw [shifts_succ, shifts_succ, shifts_succ, ← ih, ← divideBit_xor]; rfl

/-- Nothing falls out of a register that begins with zeros. -/
theorem shifts_of_clear {n : Nat} {r : BitVec w} (h : ∀ i < n, r.getMsbD i = false) :
    shifts poly n r = r <<< n := by
  induction n generalizing r with
  | zero => exact (BitVec.shiftLeft_zero r).symm
  | succ n ih =>
      have hshift : r.shiftConcat false = r <<< 1 := by
        ext i hi
        rw [BitVec.getElem_shiftConcat, BitVec.getElem_shiftLeft]
        cases i <;> simp
      have hstep : divideBit poly r false = r <<< 1 := by
        rw [divideBit, if_neg, hshift]
        simpa [BitVec.msb] using h 0 (Nat.succ_pos n)
      rw [shifts_succ, hstep, ih, ← BitVec.shiftLeft_add, Nat.add_comm]
      intro i hi
      rw [BitVec.getMsbD_shiftLeft]
      exact h (i + 1) (Nat.succ_lt_succ hi)

/-- The remainder with some more bits behind the others. -/
theorem remainder_append (bits group : List Bool) :
    remainder poly (bits ++ group) =
      shifts poly group.length (remainder poly bits) ^^^ remainder poly group := by
  rw [remainder_eq, divideBits_append, divideBits_eq_xor, shifts_xor, ← shifts_add,
    Nat.add_comm, shifts_add, ← remainder_eq, ← remainder_eq]

/-! ## Polynomials -/

noncomputable section

open Polynomial

/-- A bit as a coefficient. -/
def coefficient (bit : Bool) : ZMod 2 := if bit then 1 else 0

/-- A bit string as a polynomial. -/
def stringPoly (bits : List Bool) : (ZMod 2)[X] :=
  bits.foldl (fun p bit => p * X + C (coefficient bit)) 0

/-- A register as a polynomial. -/
def wordPoly (r : BitVec w) : (ZMod 2)[X] := ofFn w fun i => coefficient (r.getLsbD i)

theorem coefficient_xor (a b : Bool) :
    coefficient (a ^^ b) = coefficient a + coefficient b := by
  cases a <;> cases b <;> decide

theorem wordPoly_coeff (r : BitVec w) (i : Nat) :
    (wordPoly r).coeff i = coefficient (r.getLsbD i) := by
  by_cases hi : i < w
  · exact ofFn_coeff_eq_val_of_lt _ hi
  · rw [wordPoly, ofFn_coeff_eq_zero_of_ge _ (not_lt.1 hi), BitVec.getLsbD_of_ge _ _ (not_lt.1 hi)]
    rfl

theorem wordPoly_xor (r s : BitVec w) : wordPoly (r ^^^ s) = wordPoly r + wordPoly s := by
  ext i
  rw [coeff_add, wordPoly_coeff, wordPoly_coeff, wordPoly_coeff, BitVec.getLsbD_xor,
    coefficient_xor]

/-- A single bit. -/
theorem wordPoly_twoPow {i : Nat} (hi : i < w) : wordPoly (BitVec.twoPow w i) = X ^ i := by
  ext j
  rw [wordPoly_coeff, coeff_X_pow, BitVec.getLsbD_twoPow, decide_eq_true hi, Bool.true_and]
  by_cases hij : j = i
  · simp [hij, coefficient]
  · simp [hij, Ne.symm hij, coefficient]

theorem wordPoly_shiftConcat (hw : 0 < w) (r : BitVec w) (bit : Bool) :
    wordPoly (r.shiftConcat bit) + C (coefficient r.msb) * X ^ w =
      wordPoly r * X + C (coefficient bit) := by
  ext i
  rw [coeff_add, coeff_add, wordPoly_coeff, coeff_C_mul, coeff_X_pow, BitVec.getLsbD_shiftConcat]
  cases i with
  | zero => simp [hw, hw.ne]
  | succ i =>
      rw [coeff_mul_X, wordPoly_coeff, coeff_C_succ, add_zero]
      rcases Nat.lt_trichotomy (i + 1) w with hlt | rfl | hgt
      · simp [hlt, hlt.ne]
      · simp [BitVec.msb_eq_getLsbD_last, coefficient]
      · simp [hgt.not_gt, hgt.ne', BitVec.getLsbD_of_ge r i (by omega), coefficient]

/-- The polynomial that is divided by. -/
def generator : (ZMod 2)[X] := X ^ w + wordPoly poly

theorem generator_degree : (generator poly).degree = w := by
  rw [generator, degree_add_eq_left_of_degree_lt, degree_X_pow]
  rw [degree_X_pow]
  exact ofFn_degree_lt _

theorem wordPoly_degree_lt (r : BitVec w) : (wordPoly r).degree < (generator poly).degree := by
  rw [generator_degree]
  exact ofFn_degree_lt _

theorem generator_monic : (generator poly).Monic := monic_X_pow_add (ofFn_degree_lt _)

/-- What falls out of the register is a multiple of the generator. -/
theorem wordPoly_divideBit (hw : 0 < w) (r : BitVec w) (bit : Bool) :
    wordPoly (divideBit poly r bit) + generator poly * C (coefficient r.msb) =
      wordPoly r * X + C (coefficient bit) := by
  have hshift := wordPoly_shiftConcat hw r bit
  unfold divideBit generator
  cases hmsb : r.msb with
  | false =>
      rw [hmsb] at hshift
      simpa [coefficient] using hshift
  | true =>
      have htwice : wordPoly poly + wordPoly poly = 0 := CharTwo.add_self_eq_zero _
      have hone : C (coefficient true) = 1 := C_1
      rw [hmsb, hone] at hshift
      rw [if_pos rfl, wordPoly_xor, hone]
      linear_combination hshift + htwice

/-- The register holds the remainder of the bits that have come in. -/
theorem wordPoly_divideBits (hw : 0 < w) (bits : List Bool) :
    wordPoly (divideBits poly 0 bits) = stringPoly bits %ₘ generator poly := by
  suffices h : ∃ q, wordPoly (divideBits poly 0 bits) + generator poly * q = stringPoly bits by
    obtain ⟨q, hq⟩ := h
    exact (div_modByMonic_unique q _ (generator_monic poly)
      ⟨hq, wordPoly_degree_lt poly _⟩).2.symm
  induction bits using List.reverseRecOn with
  | nil =>
      refine ⟨0, ?_⟩
      ext i
      simp [divideBits, stringPoly, wordPoly_coeff, coefficient]
  | append_singleton bits bit ih =>
      obtain ⟨q, hq⟩ := ih
      have hstep := wordPoly_divideBit poly hw (divideBits poly 0 bits) bit
      refine ⟨q * X + C (coefficient (divideBits poly 0 bits).msb), ?_⟩
      rw [divideBits_append, stringPoly, List.foldl_append]
      show wordPoly (divideBit poly (divideBits poly 0 bits) bit) + _ =
        stringPoly bits * X + C (coefficient bit)
      rw [← hq]
      linear_combination hstep

theorem stringPoly_replicate (bits : List Bool) (n : Nat) :
    stringPoly (bits ++ List.replicate n false) = stringPoly bits * X ^ n := by
  induction n with
  | zero => simp
  | succ n ih =>
      rw [List.replicate_succ', ← List.append_assoc, stringPoly, List.foldl_append]
      show stringPoly (bits ++ List.replicate n false) * X + C (coefficient false) = _
      rw [ih, show coefficient false = 0 from rfl, C_0, add_zero, mul_assoc, ← pow_succ]

/-- The remainder is that of the polynomials. -/
theorem wordPoly_remainder (hw : 0 < w) (bits : List Bool) :
    wordPoly (remainder poly bits) = (stringPoly bits * X ^ w) %ₘ generator poly := by
  rw [remainder, wordPoly_divideBits poly hw, stringPoly_replicate]

end

end Bldc.Foundation
