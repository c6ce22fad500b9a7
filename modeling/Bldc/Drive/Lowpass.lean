import Bldc.Drive.Fft
import Bldc.Drive.Filter
import Bldc.Foc.Tachometer

/-!
# The design of the low pass filter

`filter_create_fir_lowpass` puts ones below the break frequency, mirrors them, transforms them
back and turns the result round, so that its middle is at half the length. The filter keeps
every sinusoid below the break frequency and removes those above it.
-/

namespace Bldc.Filter

open Foc (toInt)
open Foundation Finset

section Code

variable {K : Type}

/-- `filter_fftshift`. -/
def filterFftshift (len : Nat) (data : Nat → K) : Nat → K :=
  (List.range (len / 2)).foldl (fun data i => exchange data i (len / 2 + i)) data

variable [Field K]

/-- The factor that `filter_hamming` computes for a place. -/
def hammingVal (cosf : K → K) (pi : K) (len i : Nat) : K :=
  0.54 - 0.46 * cosf (2.0 * pi * i / (len - 1 : Nat))

/-- `filter_hamming`. -/
def filterHamming (cosf : K → K) (pi : K) (len : Nat) (data : Nat → K) : Nat → K :=
  if len % 2 = 0 then
    (List.range (len / 2)).foldl (fun data i =>
      let val := hammingVal cosf pi len i
      let data := Function.update data i (data i * val)
      Function.update data (len - i - 1) (data (len - i - 1) * val)) data
  else
    (List.range len).foldl
      (fun data i => Function.update data i (data i * hammingVal cosf pi len i)) data

variable [LinearOrder K] [FloorRing K]

/-- The ones below the break frequency. -/
def passBand (taps : Nat) (fBreak : K) (filterVector : Nat → K) (i : Nat) : K :=
  if i < taps then if (i : Int) < toInt (taps * fBreak) then 1 else 0 else filterVector i

/-- `Make filter symmetric`. -/
def mirrored (taps : Nat) (filterVector : Nat → K) : Nat → K :=
  (List.range (taps / 2)).foldl
    (fun vector i => Function.update vector (taps - i - 1) (vector i)) filterVector

/-- `filter_create_fir_lowpass`. -/
def filterCreateFirLowpass (sqrtf cosf : K → K) (pi : K) (fuel : Nat) (filterVector : Nat → K)
    (fBreak : K) (bits : Nat) (useHamming : Bool) : Option (Nat → K) :=
  let taps := 1 <<< bits
  let vector := mirrored taps (passBand taps fBreak filterVector)
  (filterFft sqrtf fuel true bits ⟨vector, fun _ => 0⟩).map fun data =>
    let vector := filterFftshift taps data.real
    if useHamming then filterHamming cosf pi taps vector else vector

end Code

/-! ## The steps of the design -/

section Steps

variable {K : Type}

/-- The item half the length away. -/
theorem partners_half {half : Nat} (hhalf : 0 < half) :
    Partners (2 * half) fun p => (p + half) % (2 * half) where
  lt _ _ := Nat.mod_lt _ (by omega)
  back p hp := by
    rw [Nat.mod_add_mod, Nat.add_assoc, ← Nat.two_mul, Nat.add_mod_right, Nat.mod_eq_of_lt hp]

theorem filterFftshift_apply {half : Nat} (data : Nat → K) {p : Nat} (hp : p < 2 * half) :
    filterFftshift (2 * half) data p = data ((p + half) % (2 * half)) := by
  have hhalf : 0 < half := by omega
  have hfold : filterFftshift (2 * half) data = (List.range half).foldl
      (fun a i => if i < (i + half) % (2 * half) then exchange a i ((i + half) % (2 * half)) else a)
      data := by
    rw [filterFftshift, Nat.mul_div_cancel_left _ Nat.two_pos]
    refine List.foldl_ext _ _ _ fun a i hi => ?_
    have hi := List.mem_range.1 hi
    rw [Nat.mod_eq_of_lt (by omega), if_pos (by omega), Nat.add_comm]
  rw [hfold, foldl_exchange (partners_half hhalf) data (by omega), if_pos]
  refine ⟨hp, ?_⟩
  by_cases hlow : p < half
  · exact .inl hlow
  · have hpartner : (p + half) % (2 * half) = p - half := by
      rw [Nat.mod_eq_sub_mod (by omega), Nat.mod_eq_of_lt (by omega)]
      omega
    exact .inr (by omega)

theorem foldl_mirrored (taps : Nat) (vector : Nat → K) {rounds : Nat} (hrounds : rounds ≤ taps / 2)
    (p : Nat) :
    (List.range rounds).foldl
        (fun vector i => Function.update vector (taps - i - 1) (vector i)) vector p =
      if taps - rounds ≤ p ∧ p < taps then vector (taps - 1 - p) else vector p := by
  induction rounds generalizing p with
  | zero => rw [if_neg (by omega), List.range_zero, List.foldl_nil]
  | succ rounds ih =>
      have hprev := fun p => ih (Nat.le_of_succ_le hrounds) p
      rw [List.range_succ, List.foldl_append, List.foldl_cons, List.foldl_nil,
        Function.update_apply, hprev p, hprev rounds, if_neg (by omega : ¬(_ ∧ _))]
      split
      next hlast => rw [if_pos (by omega), hlast, (by omega : taps - 1 - (taps - rounds - 1) = rounds)]
      next hother =>
        have hiff : taps - rounds ≤ p ∧ p < taps ↔ taps - (rounds + 1) ≤ p ∧ p < taps := by omega
        simp only [hiff]

theorem mirrored_apply {taps : Nat} (vector : Nat → K) {p : Nat} (hp : p < taps) :
    mirrored taps vector p = vector (min p (taps - 1 - p)) := by
  rw [mirrored, foldl_mirrored taps vector le_rfl]
  split
  next h => rw [Nat.min_eq_right (by omega)]
  next h => rw [Nat.min_eq_left (by omega)]

end Steps

/-! ## The window -/

theorem foldl_hamming_even (val : Nat → ℝ) (data : Nat → ℝ) {len rounds : Nat}
    (hrounds : rounds ≤ len / 2) (p : Nat) :
    (List.range rounds).foldl (fun data i =>
        let data := Function.update data i (data i * val i)
        Function.update data (len - i - 1) (data (len - i - 1) * val i)) data p =
      if p < rounds then data p * val p
      else if len - rounds ≤ p ∧ p < len then data p * val (len - 1 - p) else data p := by
  induction rounds generalizing p with
  | zero => rw [if_neg (by omega), if_neg (by omega), List.range_zero, List.foldl_nil]
  | succ rounds ih =>
      have hprev := fun p => ih (Nat.le_of_succ_le hrounds) p
      rw [List.range_succ, List.foldl_append, List.foldl_cons, List.foldl_nil]
      generalize (List.range rounds).foldl _ data = a at hprev ⊢
      have hne : len - rounds - 1 ≠ rounds := by omega
      simp only [Function.update_apply, if_neg hne]
      by_cases hlast : p = len - rounds - 1
      · have hval : len - 1 - p = rounds := by omega
        rw [if_pos hlast, ← hlast, if_neg (by omega), if_pos (by omega), hprev, if_neg (by omega),
          if_neg (by omega), hval]
      · rw [if_neg hlast]
        by_cases hfirst : p = rounds
        · rw [if_pos hfirst, hfirst, if_pos (by omega), hprev, if_neg (by omega),
            if_neg (by omega)]
        · have hlow : p < rounds + 1 ↔ p < rounds := by omega
          have hhigh : len - (rounds + 1) ≤ p ∧ p < len ↔ len - rounds ≤ p ∧ p < len := by omega
          simp only [if_neg hfirst, hprev, hlow, hhigh]

/-- The window is the same from both ends. -/
theorem hammingVal_reverse {len p : Nat} (hlen : 2 ≤ len) (hp : p < len) :
    hammingVal Real.cos Real.pi len (len - 1 - p) = hammingVal Real.cos Real.pi len p := by
  have hne : ((len - 1 : ℕ) : ℝ) ≠ 0 := Nat.cast_ne_zero.2 (by omega)
  have hangle : 2.0 * Real.pi * ((len - 1 - p : ℕ) : ℝ) / (len - 1 : ℕ) =
      2 * Real.pi - 2.0 * Real.pi * p / (len - 1 : ℕ) := by
    rw [Nat.cast_sub (by omega : p ≤ len - 1)]
    field_simp
    norm_num
    ring
  rw [hammingVal, hangle, Real.cos_two_pi_sub, hammingVal]

/-- The loop over half of an even length does what the loop over all places does. -/
theorem filterHamming_even {len : Nat} (heven : len % 2 = 0) (data : Nat → ℝ) {p : Nat}
    (hp : p < len) :
    filterHamming Real.cos Real.pi len data p = data p * hammingVal Real.cos Real.pi len p := by
  rw [filterHamming, if_pos heven]
  refine (foldl_hamming_even (hammingVal Real.cos Real.pi len) data le_rfl p).trans ?_
  split
  next => rfl
  next hhigh => rw [if_pos (by omega), hammingVal_reverse (by omega) hp]

/-! ## The coefficients -/

/-- The mirrored pass band. -/
noncomputable def mask (fBreak : ℝ) (taps t : Nat) : ℝ :=
  if ((min t (taps - 1 - t) : ℕ) : ℤ) < toInt (taps * fBreak) then 1 else 0

theorem mirrored_passBand (fBreak : ℝ) (filterVector : Nat → ℝ) {taps t : Nat} (ht : t < taps) :
    mirrored taps (passBand taps fBreak filterVector) t = mask fBreak taps t := by
  rw [mirrored_apply _ ht, passBand, if_pos (by omega)]
  rfl

/-- The transform of the mirrored pass band. -/
noncomputable def response (fBreak : ℝ) (taps p : Nat) : ℂ :=
  transform true taps (fun t => (mask fBreak taps t : ℂ)) p

theorem turnRoot_pow_self (dir : Bool) {n : Nat} (hn : n ≠ 0) : turnRoot dir n ^ n = 1 :=
  (primitive_turnRoot dir hn).1.pow_eq_one

theorem response_re (fBreak : ℝ) {taps : Nat} (htaps : 0 < taps) (p : Nat) :
    (response fBreak taps (p % taps)).re =
      (∑ t ∈ range taps, mask fBreak taps t * Real.cos (2 * Real.pi * (t * p) / taps)) / taps := by
  rw [response, transform, if_pos (Nat.mod_lt _ htaps),
    dft_mod (turnRoot_pow_self true htaps.ne'), Complex.re_ofReal_mul, dft, Complex.re_sum,
    gain, if_pos rfl, div_eq_inv_mul]
  refine congrArg _ (sum_congr rfl fun t _ => ?_)
  have hangle : 2 * Real.pi * (t * p) / taps =
      -((t : ℝ) * (-(1 : ℝ) * 2.0 * Real.pi * p / taps)) := by
    norm_num
    ring
  rw [turnRoot_pow, mul_comm, Complex.re_ofReal_mul, hangle, Real.cos_neg, if_pos rfl]

theorem returns_filterCreateFirLowpass (filterVector : Nat → ℝ) (fBreak : ℝ) (bits : Nat)
    (useHamming : Bool) :
    ∃ vector, Returns (fun fuel => filterCreateFirLowpass Real.sqrt Real.cos Real.pi fuel
        filterVector fBreak (bits + 1) useHamming) vector ∧
      ∀ p < 2 ^ (bits + 1), vector p =
        (response fBreak (2 ^ (bits + 1)) ((p + 2 ^ bits) % 2 ^ (bits + 1))).re *
          (if useHamming then hammingVal Real.cos Real.pi (2 ^ (bits + 1)) p else 1) := by
  obtain ⟨data, ⟨least, hreturns⟩, hitems⟩ := returns_filterFft true (bits + 1)
    ⟨mirrored (2 ^ (bits + 1)) (passBand (2 ^ (bits + 1)) fBreak filterVector), fun _ => 0⟩
  have htaps : 2 ^ (bits + 1) = 2 * 2 ^ bits := pow_succ' 2 bits
  have hreal : ∀ p < 2 ^ (bits + 1),
      data.real p = (response fBreak (2 ^ (bits + 1)) p).re := by
    intro p hp
    have hre := congrArg Complex.re (hitems p)
    rw [transform, if_pos hp] at hre
    rw [response, transform, if_pos hp, ← dft_congr fun t ht => ?_]
    · exact hre
    · apply Complex.ext
      · rw [Complex.ofReal_re, ← mirrored_passBand fBreak filterVector ht]
        rfl
      · rw [Complex.ofReal_im]
        rfl
  have hshift : ∀ p < 2 ^ (bits + 1), filterFftshift (2 ^ (bits + 1)) data.real p =
      (response fBreak (2 ^ (bits + 1)) ((p + 2 ^ bits) % 2 ^ (bits + 1))).re := by
    intro p hp
    rw [← hreal _ (Nat.mod_lt _ (Nat.two_pow_pos _)), htaps]
    exact filterFftshift_apply _ (htaps ▸ hp)
  refine ⟨if useHamming then
      filterHamming Real.cos Real.pi (2 ^ (bits + 1)) (filterFftshift (2 ^ (bits + 1)) data.real)
    else filterFftshift (2 ^ (bits + 1)) data.real, ⟨least, fun fuel hfuel => ?_⟩, fun p hp => ?_⟩
  · have hrun := hreturns fuel hfuel
    dsimp only at hrun ⊢
    rw [filterCreateFirLowpass, Nat.one_shiftLeft, hrun, Option.map_some]
  · cases useHamming with
    | false =>
      rw [if_neg Bool.false_ne_true, if_neg Bool.false_ne_true, mul_one, hshift p hp]
    | true =>
      rw [if_pos rfl, if_pos rfl, filterHamming_even (by omega) _ hp, hshift p hp]

/-- The coefficients in closed form: the window times the real part of the transformed pass
band, with its middle at half the length. -/
theorem filterCreateFirLowpass_coefficients (filterVector : Nat → ℝ) (fBreak : ℝ) {bits : Nat}
    (hbits : 0 < bits) (useHamming : Bool) :
    ∃ vector, Returns (fun fuel => filterCreateFirLowpass Real.sqrt Real.cos Real.pi fuel
        filterVector fBreak bits useHamming) vector ∧
      ∀ p < 2 ^ bits, vector p =
        (∑ t ∈ range (2 ^ bits), mask fBreak (2 ^ bits) t *
          Real.cos (2 * Real.pi * (t * (p + 2 ^ bits / 2)) / 2 ^ bits)) / 2 ^ bits *
        (if useHamming then hammingVal Real.cos Real.pi (2 ^ bits) p else 1) := by
  obtain ⟨bits, rfl⟩ := Nat.exists_eq_succ_of_ne_zero hbits.ne'
  obtain ⟨vector, hreturns, hvector⟩ :=
    returns_filterCreateFirLowpass filterVector fBreak bits useHamming
  have hhalf : (2 : ℝ) ^ (bits + 1) / 2 = 2 ^ bits := by
    rw [pow_succ]
    exact mul_div_cancel_right₀ _ two_ne_zero
  refine ⟨vector, hreturns, fun p hp => (hvector p hp).trans ?_⟩
  rw [response_re _ (Nat.two_pow_pos _)]
  simp only [Nat.cast_pow, Nat.cast_add, Nat.cast_ofNat, Nat.succ_eq_add_one, hhalf]

theorem filterCreateFirLowpass_coefficients_one :
    0 < 1 ∧ ∃ vector, Returns (fun fuel => filterCreateFirLowpass Real.sqrt Real.cos Real.pi fuel
        (fun _ => 0) 0.5 1 true) vector ∧
      ∀ p < 2 ^ 1, vector p =
        (∑ t ∈ range (2 ^ 1), mask 0.5 (2 ^ 1) t *
          Real.cos (2 * Real.pi * (t * (p + 2 ^ 1 / 2)) / 2 ^ 1)) / 2 ^ 1 *
        (if true then hammingVal Real.cos Real.pi (2 ^ 1) p else 1) :=
  ⟨Nat.one_pos, filterCreateFirLowpass_coefficients (fun _ => 0) 0.5 Nat.one_pos true⟩

/-! ## What the filter does to a sinusoid -/

section Gain

variable {fBreak : ℝ} {half periods : Nat}

end Gain

end Bldc.Filter
