import Bldc.Foundation.Fourier
import Bldc.Foundation.Loop
import Mathlib.Analysis.SpecialFunctions.Trigonometric.Basic
import Mathlib.RingTheory.RootsOfUnity.Complex

/-!
# The Fourier transforms of the filter design

`filter_fft` sorts its arrays by the reversed place number and combines them in place, with
factors that are multiplied up from half-angle roots. `filter_dft` adds up sines and cosines.
Over the reals both are the same function.
-/

namespace Bldc.Filter

open Foundation Finset

section Code

variable {K : Type}

/-- The arrays `real` and `imag`. -/
structure Signal (K : Type) where
  real : Nat → K
  imag : Nat → K

def Signal.swap (data : Signal K) (i j : Nat) : Signal K where
  real := exchange data.real i j
  imag := exchange data.imag i j

/-- `while (k <= j)`, on `j` and `k`. -/
def carryLoop (fuel : Nat) (j k : Nat) : Option (Nat × Nat) :=
  whileLoop (fun s => s.2 ≤ s.1) (fun s => some (s.1 - s.2, s.2 >>> 1)) fuel (j, k)

/-- One round of the bit reversal, on the arrays and `j`. -/
def reversalRound (i2 fuel : Nat) (s : Signal K × Nat) (i : Nat) : Option (Signal K × Nat) :=
  (carryLoop fuel s.2 i2).map fun carried =>
    (if i < s.2 then s.1.swap i s.2 else s.1, carried.1 + carried.2)

/-- The bit reversal of `filter_fft`, for `n` points. -/
def bitReversal (n fuel : Nat) (data : Signal K) : Option (Signal K) :=
  ((List.range (n - 1)).foldlM (reversalRound (n >>> 1) fuel) (data, 0)).map Prod.fst

/-- The values of `i` in `for (i = start; i < stop; i += stride)`. -/
def strides (start stop stride : Nat) : List Nat :=
  List.range' start ((stop - start + stride - 1) / stride) stride

variable [Field K]

/-- The innermost loop of `filter_fft`. -/
def butterfly (u1 u2 : K) (l1 : Nat) (data : Signal K) (i : Nat) : Signal K :=
  let i1 := i + l1
  let t1 := u1 * data.real i1 - u2 * data.imag i1
  let t2 := u1 * data.imag i1 + u2 * data.real i1
  let real := Function.update data.real i1 (data.real i - t1)
  let imag := Function.update data.imag i1 (data.imag i - t2)
  { real := Function.update real i (real i + t1)
    imag := Function.update imag i (imag i + t2) }

/-- One round of the loop over `j`, on the arrays, `u1` and `u2`. -/
def twiddleRound (c1 c2 : K) (n l1 l2 : Nat) (s : Signal K × K × K) (j : Nat) :
    Signal K × K × K :=
  ((strides j n l2).foldl (butterfly s.2.1 s.2.2 l1) s.1, s.2.1 * c1 - s.2.2 * c2,
    s.2.1 * c2 + s.2.2 * c1)

/-- What `filter_fft` keeps from one level to the next. -/
structure Level (K : Type) where
  data : Signal K
  c1 : K
  c2 : K
  l2 : Nat

/-- One round of the loop over `l`. -/
def levelRound (sqrtf : K → K) (dir : Bool) (n : Nat) (s : Level K) : Level K :=
  let l1 := s.l2
  let l2 := s.l2 <<< 1
  let c2 := sqrtf ((1.0 - s.c1) / 2.0)
  { data := ((List.range l1).foldl (twiddleRound s.c1 s.c2 n l1 l2) (s.data, 1, 0)).1
    c1 := sqrtf ((1.0 + s.c1) / 2.0)
    c2 := if dir then -c2 else c2
    l2 := l2 }

/-- Both arrays divided by their length. -/
def Signal.scaled (data : Signal K) (n : Nat) : Signal K where
  real i := if i < n then data.real i / n else data.real i
  imag i := if i < n then data.imag i / n else data.imag i

/-- `filter_fft`. -/
def filterFft (sqrtf : K → K) (fuel : Nat) (dir : Bool) (m : Nat) (data : Signal K) :
    Option (Signal K) :=
  let n := 1 <<< m
  (bitReversal n fuel data).map fun data =>
    let data := ((levelRound sqrtf dir n)^[m] ⟨data, -1, 0, 1⟩).data
    if dir then data.scaled n else data

/-- `filter_dft`. -/
def filterDft (cosf sinf : K → K) (pi : K) (dir : Bool) (len : Nat) (data : Signal K) :
    Signal K :=
  let dirSign : K := if dir then 1 else -1
  let arg (i : Nat) : K := -dirSign * 2.0 * pi * i / len
  let x2 (i : Nat) : K := (List.range len).foldl (fun sum k =>
    sum + (data.real k * cosf (k * arg i) - data.imag k * sinf (k * arg i))) 0
  let y2 (i : Nat) : K := (List.range len).foldl (fun sum k =>
    sum + (data.real k * sinf (k * arg i) + data.imag k * cosf (k * arg i))) 0
  if dir then
    { real i := if i < len then x2 i / len else data.real i
      imag i := if i < len then y2 i / len else data.imag i }
  else
    { real i := if i < len then x2 i else data.real i
      imag i := if i < len then y2 i else data.imag i }

end Code

/-! ## Sorting by reversed places -/

theorem returns_carryLoop_of_lt {j k : Nat} (h : j < k) :
    Returns (fun fuel => carryLoop fuel j k) (j, k) := by
  refine returns_whileLoop_of_not ?_
  exact Nat.not_le.2 h

theorem returns_carryLoop_of_le {j k : Nat} {carried : Nat × Nat} (h : k ≤ j)
    (hrest : Returns (fun fuel => carryLoop fuel (j - k) (k >>> 1)) carried) :
    Returns (fun fuel => carryLoop fuel j k) carried := by
  refine returns_whileLoop_of_cond (t := (j - k, k >>> 1)) ?_ rfl hrest
  exact h

/-- The carry goes from the highest bit downwards, to the first zero. -/
theorem returns_carryLoop {bits i : Nat} (hi : i + 1 < 2 ^ (bits + 1)) :
    ∃ carried, Returns (fun fuel => carryLoop fuel (bitRev (bits + 1) i) (2 ^ bits)) carried ∧
      carried.1 + carried.2 = bitRev (bits + 1) (i + 1) := by
  induction bits generalizing i with
  | zero =>
      have hzero : i = 0 := by omega
      subst hzero
      exact ⟨(0, 1), returns_carryLoop_of_lt (by decide), rfl⟩
  | succ bits ih =>
      obtain hlow | hhigh := lt_or_ge (bitRev (bits + 1 + 1) i) (2 ^ (bits + 1))
      · exact ⟨(bitRev (bits + 1 + 1) i, 2 ^ (bits + 1)),
          returns_carryLoop_of_lt hlow, (bitRev_succ_of_even hlow).symm⟩
      · obtain ⟨hnext, hrest⟩ := bitRev_succ_of_odd hhigh
        have hhalf : i / 2 + 1 < 2 ^ (bits + 1) := by
          have hodd : i % 2 = 1 := by
            by_contra heven
            rw [bitRev_succ, (Nat.mod_two_ne_one).1 heven, Nat.zero_mul, Nat.zero_add] at hhigh
            exact absurd (bitRev_lt _ _) (Nat.not_lt.2 hhigh)
          rw [Nat.pow_succ] at hi
          omega
        obtain ⟨carried, hreturns, hsum⟩ := ih hhalf
        refine ⟨carried, returns_carryLoop_of_le hhigh ?_, hsum.trans hnext.symm⟩
        rwa [hrest, Nat.shiftRight_succ, Nat.shiftRight_zero, Nat.pow_succ,
          Nat.mul_div_cancel _ Nat.two_pos]

/-- The pairs that have been exchanged before a round, and the reversed round number. -/
def reversedTo {K : Type} (m : Nat) (data : Signal K) (rounds : Nat) : Signal K × Nat :=
  ((List.range rounds).foldl
    (fun data i => if i < bitRev m i then data.swap i (bitRev m i) else data) data,
    bitRev m rounds)

theorem reversedTo_succ {K : Type} (m : Nat) (data : Signal K) (rounds : Nat) :
    (reversedTo m data (rounds + 1)).1 =
      if rounds < bitRev m rounds then (reversedTo m data rounds).1.swap rounds (bitRev m rounds)
      else (reversedTo m data rounds).1 := by
  rw [reversedTo, List.range_succ, List.foldl_append, List.foldl_cons, List.foldl_nil]
  rfl

theorem bitRev_zero (m : Nat) : bitRev m 0 = 0 := by
  induction m with
  | zero => rfl
  | succ m ih => rw [bitRev_succ, Nat.zero_mod, Nat.zero_mul, Nat.zero_div, ih]

theorem partners_bitRev (m : Nat) : Partners (2 ^ m) (bitRev m) where
  lt p _ := bitRev_lt m p
  back _ hp := bitRev_bitRev hp

theorem reversedTo_real {K : Type} (m : Nat) (data : Signal K) (rounds : Nat) :
    (reversedTo m data rounds).1.real = (List.range rounds).foldl
      (fun a i => if i < bitRev m i then exchange a i (bitRev m i) else a) data.real :=
  (List.foldl_hom Signal.real fun data i =>
    (apply_ite Signal.real _ (data.swap i (bitRev m i)) data).symm).symm

theorem reversedTo_imag {K : Type} (m : Nat) (data : Signal K) (rounds : Nat) :
    (reversedTo m data rounds).1.imag = (List.range rounds).foldl
      (fun a i => if i < bitRev m i then exchange a i (bitRev m i) else a) data.imag :=
  (List.foldl_hom Signal.imag fun data i =>
    (apply_ite Signal.imag _ (data.swap i (bitRev m i)) data).symm).symm

theorem foldl_exchange_bitRev {α : Type} (m : Nat) (a : Nat → α) (p : Nat) :
    (List.range (2 ^ m - 1)).foldl
        (fun a i => if i < bitRev m i then exchange a i (bitRev m i) else a) a p =
      if p < 2 ^ m then a (bitRev m p) else a p := by
  rw [foldl_exchange (partners_bitRev m) a (Nat.sub_le _ _)]
  -- the last place has no round, and it is its own partner
  by_cases hp : p < 2 ^ m
  · have hlt := bitRev_lt m p
    rw [if_pos hp]
    split
    next => rfl
    next hlast =>
      have hself : bitRev m p = p := by omega
      rw [hself]
  · rw [if_neg hp, if_neg fun h => hp h.1]

theorem returns_reversalRound {K : Type} {bits i : Nat} (hi : i + 1 < 2 ^ (bits + 1))
    (data : Signal K) :
    Returns (fun fuel => reversalRound (2 ^ bits) fuel (reversedTo (bits + 1) data i) i)
      (reversedTo (bits + 1) data (i + 1)) := by
  obtain ⟨carried, ⟨least, hreturns⟩, hsum⟩ := returns_carryLoop hi
  refine ⟨least, fun fuel hfuel => ?_⟩
  have hcarry : carryLoop fuel (reversedTo (bits + 1) data i).2 (2 ^ bits) = some carried :=
    hreturns fuel hfuel
  dsimp only
  rw [reversalRound, hcarry, Option.map_some, hsum]
  exact congrArg some (Prod.ext (reversedTo_succ _ _ _).symm rfl)

/-- The reversal ends, and every place has the item of the reversed one. -/
theorem returns_bitReversal {K : Type} (m : Nat) (data : Signal K) :
    ∃ reversed, Returns (fun fuel => bitReversal (2 ^ m) fuel data) reversed ∧
      (∀ p, reversed.real p = if p < 2 ^ m then data.real (bitRev m p) else data.real p) ∧
      ∀ p, reversed.imag p = if p < 2 ^ m then data.imag (bitRev m p) else data.imag p := by
  have hstart : (data, 0) = reversedTo m data 0 := Prod.ext rfl (bitRev_zero m).symm
  have hrounds : Returns (fun fuel => (List.range (2 ^ m - 1)).foldlM
      (reversalRound (2 ^ m >>> 1) fuel) (data, 0)) (reversedTo m data (2 ^ m - 1)) := by
    rw [hstart]
    refine returns_foldlM fun i hi => ?_
    obtain _ | bits := m
    · simp at hi
    · have hhalf : 2 ^ (bits + 1) >>> 1 = 2 ^ bits := by
        rw [Nat.shiftRight_succ, Nat.shiftRight_zero, Nat.pow_succ, Nat.mul_div_cancel _ Nat.two_pos]
      rw [hhalf]
      exact returns_reversalRound (by omega) data
  obtain ⟨least, hrun⟩ := hrounds
  refine ⟨(reversedTo m data (2 ^ m - 1)).1, ⟨least, fun fuel hfuel => ?_⟩, fun p => ?_,
    fun p => ?_⟩
  · have hloop := hrun fuel hfuel
    dsimp only at hloop ⊢
    rw [bitReversal, hloop, Option.map_some]
  · rw [reversedTo_real, foldl_exchange_bitRev]
  · rw [reversedTo_imag, foldl_exchange_bitRev]

/-! ## Combining the items -/

/-- The items as complex numbers. -/
def Signal.items (data : Signal ℝ) (p : Nat) : ℂ := ⟨data.real p, data.imag p⟩

theorem Signal.ext_items {data data' : Signal ℝ} (h : ∀ p, data.items p = data'.items p) :
    data = data' := by
  obtain ⟨real, imag⟩ := data
  obtain ⟨real', imag'⟩ := data'
  obtain rfl : real = real' := funext fun p => congrArg Complex.re (h p)
  obtain rfl : imag = imag' := funext fun p => congrArg Complex.im (h p)
  rfl

theorem butterfly_items (u1 u2 : ℝ) {l1 : Nat} (hl1 : 0 < l1) (data : Signal ℝ) (i : Nat) :
    (butterfly u1 u2 l1 data i).items = butterflyAt ⟨u1, u2⟩ l1 data.items i := by
  have hne : i ≠ i + l1 := by omega
  funext p
  simp only [Signal.items, butterfly, butterflyAt, Function.update_apply, if_neg hne]
  split
  next => apply Complex.ext <;> simp
  next =>
    split
    next => apply Complex.ext <;> simp
    next => rfl

theorem strides_eq {half j : Nat} (hj : j < half) (blocks : Nat) :
    strides j (2 * half * blocks) (2 * half) =
      (List.range blocks).map fun b => 2 * half * b + j := by
  have hcount : (2 * half * blocks - j + 2 * half - 1) / (2 * half) = blocks := by
    obtain _ | blocks := blocks
    · exact Nat.div_eq_of_lt (by omega)
    · rw [Nat.mul_succ]
      have hsplit : 2 * half * blocks + 2 * half - j + 2 * half - 1 =
          2 * half * (blocks + 1) + (2 * half - j - 1) := by
        rw [Nat.mul_succ]
        omega
      rw [hsplit, Nat.mul_add_div (by omega), Nat.div_eq_of_lt (by omega), Nat.add_zero]
  rw [strides, hcount]
  refine List.ext_getElem (by simp) fun b _ _ => ?_
  simp only [List.getElem_range', List.getElem_map, List.getElem_range]
  omega

theorem foldl_butterfly_items (u1 u2 : ℝ) {half j : Nat} (hj : j < half) (blocks : Nat)
    (data : Signal ℝ) :
    ((strides j (2 * half * blocks) (2 * half)).foldl (butterfly u1 u2 half) data).items =
      (List.range blocks).foldl
        (fun a b => butterflyAt ⟨u1, u2⟩ half a (2 * half * b + j)) data.items := by
  rw [strides_eq hj, List.foldl_map]
  exact (List.foldl_hom Signal.items fun data b =>
    (butterfly_items u1 u2 (Nat.zero_lt_of_lt hj) data (2 * half * b + j)).symm).symm

/-- The loop over `j` is one stage on the items. -/
theorem foldl_twiddleRound (c1 c2 : ℝ) {half rounds : Nat} (hrounds : rounds ≤ half) (blocks : Nat)
    (data : Signal ℝ) (s : Signal ℝ × ℝ × ℝ)
    (hs : s = (List.range rounds).foldl
      (twiddleRound c1 c2 (2 * half * blocks) half (2 * half)) (data, 1, 0)) :
    s.1.items = (stageRounds ⟨c1, c2⟩ half blocks data.items rounds).1 ∧
      (⟨s.2.1, s.2.2⟩ : ℂ) = (stageRounds ⟨c1, c2⟩ half blocks data.items rounds).2 := by
  induction rounds generalizing s with
  | zero =>
      rw [hs]
      exact ⟨rfl, rfl⟩
  | succ rounds ih =>
      obtain ⟨hitems, hfactor⟩ := ih (Nat.le_of_succ_le hrounds) _ rfl
      rw [List.range_succ, List.foldl_append, List.foldl_cons, List.foldl_nil] at hs
      rw [hs, stageRounds_succ, ← hitems, ← hfactor]
      refine ⟨foldl_butterfly_items _ _ hrounds blocks _, Complex.ext ?_ ?_⟩
      · rw [Complex.mul_re]
        rfl
      · rw [Complex.mul_im]
        rfl

/-! ## Half-angle roots -/

/-- The sense of rotation. -/
def sense (dir : Bool) : ℝ := if dir then -1 else 1

/-- The root of unity of one turn in so many steps. -/
noncomputable def turnRoot (dir : Bool) (n : Nat) : ℂ :=
  Complex.exp ((sense dir * (2.0 * Real.pi / n) : ℝ) * Complex.I)

/-- The root that a level works with, half a turn in so many steps. -/
noncomputable def levelRoot (dir : Bool) (level : Nat) : ℂ :=
  Complex.exp ((sense dir * (Real.pi / (2 ^ level : ℕ)) : ℝ) * Complex.I)

theorem one_decimal : (1.0 : ℝ) = 1 := by norm_num

theorem two_decimal : (2.0 : ℝ) = 2 := by norm_num

theorem turnRoot_eq (dir : Bool) (n : Nat) :
    turnRoot dir n = Complex.exp ((sense dir * (2 * Real.pi / n) : ℝ) * Complex.I) := by
  rw [turnRoot, two_decimal]

theorem levelRoot_eq (dir : Bool) (level : Nat) :
    levelRoot dir level = Complex.exp ((sense dir * (Real.pi / 2 ^ level) : ℝ) * Complex.I) := by
  rw [levelRoot, Nat.cast_pow, Nat.cast_ofNat]

theorem levelRoot_re (dir : Bool) (level : Nat) :
    (levelRoot dir level).re = Real.cos (Real.pi / 2 ^ level) := by
  rw [levelRoot_eq, Complex.exp_ofReal_mul_I_re]
  cases dir <;> simp [sense]

theorem levelRoot_im (dir : Bool) (level : Nat) :
    (levelRoot dir level).im = sense dir * Real.sin (Real.pi / 2 ^ level) := by
  rw [levelRoot_eq, Complex.exp_ofReal_mul_I_im]
  cases dir <;> simp [sense]

theorem levelRoot_sq (dir : Bool) (level : Nat) :
    levelRoot dir level ^ 2 = turnRoot dir (2 ^ level) := by
  rw [levelRoot_eq, turnRoot_eq, ← Complex.exp_nat_mul]
  congr 1
  push_cast
  ring

theorem stageRoots_levelRoot (dir : Bool) : StageRoots (levelRoot dir) where
  first := by
    apply Complex.ext
    · simp [levelRoot_re]
    · simp [levelRoot_im]
  next level := by
    rw [levelRoot_eq, levelRoot_eq, ← Complex.exp_nat_mul]
    congr 1
    push_cast
    rw [pow_succ]
    ring

theorem angle_bounds (level : Nat) : 0 ≤ Real.pi / 2 ^ level ∧ Real.pi / 2 ^ level ≤ Real.pi :=
  ⟨by positivity, div_le_self Real.pi_pos.le (one_le_pow₀ one_le_two)⟩

theorem levelRoot_succ (dir : Bool) (level : Nat) :
    (levelRoot dir (level + 1)).re = Real.sqrt ((1 + (levelRoot dir level).re) / 2) ∧
      (levelRoot dir (level + 1)).im =
        sense dir * Real.sqrt ((1 - (levelRoot dir level).re) / 2) := by
  obtain ⟨hpos, hle⟩ := angle_bounds level
  have hhalf : Real.pi / 2 ^ (level + 1) = Real.pi / 2 ^ level / 2 := by
    rw [pow_succ, div_div]
  rw [levelRoot_re, levelRoot_im, levelRoot_re, hhalf, Real.cos_half (by linarith) hle,
    Real.sin_half_eq_sqrt hpos (by linarith [Real.pi_pos])]
  exact ⟨rfl, rfl⟩

/-! ## Both transforms -/

/-- What the loop over `l` has made of the sorted arrays after so many levels. -/
structure Combined (dir : Bool) (m level : Nat) (x : Nat → ℂ) (s : Level ℝ) : Prop where
  width : s.l2 = 2 ^ level
  cosine : s.c1 = (levelRoot dir level).re
  sine : s.c2 = (levelRoot dir level).im
  items : ∀ p, s.data.items p =
    if p < 2 ^ m then stageValue (levelRoot dir) m level x p else x p

theorem Combined.levelRound {dir : Bool} {m level : Nat} {x : Nat → ℂ} {s : Level ℝ}
    (h : Combined dir m level x s) (hlevel : level < m) :
    Combined dir m (level + 1) x (levelRound Real.sqrt dir (2 ^ m) s) := by
  have hdouble : s.l2 <<< 1 = 2 * 2 ^ level := by
    rw [h.width, Nat.shiftLeft_eq, pow_one, Nat.mul_comm]
  have hblocks : 2 ^ m = 2 * 2 ^ level * 2 ^ (m - (level + 1)) := by
    rw [← pow_succ', ← pow_add, Nat.add_sub_cancel' hlevel]
  have hroot : (⟨s.c1, s.c2⟩ : ℂ) = levelRoot dir level := Complex.ext h.cosine h.sine
  obtain ⟨hre, him⟩ := levelRoot_succ dir level
  constructor
  · exact hdouble.trans (pow_succ' 2 level).symm
  · rw [hre, ← h.cosine, Filter.levelRound, two_decimal, one_decimal]
  · rw [him, ← h.cosine, Filter.levelRound, two_decimal, one_decimal]
    cases dir <;> simp [sense]
  · intro p
    obtain ⟨hitems, -⟩ := foldl_twiddleRound s.c1 s.c2 le_rfl (2 ^ (m - (level + 1))) s.data _ rfl
    have hround : (Filter.levelRound Real.sqrt dir (2 ^ m) s).data.items =
        (stageRounds (levelRoot dir level) (2 ^ level) (2 ^ (m - (level + 1))) s.data.items
          (2 ^ level)).1 := by
      rw [← hroot, ← hitems, ← hblocks, ← hdouble, ← h.width]
      rfl
    rw [hround, stageRounds_all _ (Nat.two_pow_pos level), ← hblocks]
    split
    next hp =>
      rw [← butterflies_stageValue (stageRoots_levelRoot dir) hlevel]
      refine butterflies_congr (fun p hp => ?_) _ (hblocks ▸ hp)
      rw [h.items, if_pos (hblocks ▸ hp)]
    next hp => rw [h.items, if_neg hp]

theorem combined_iterate {dir : Bool} {m : Nat} {x : Nat → ℂ} {s : Level ℝ}
    (h : Combined dir m 0 x s) {level : Nat} (hlevel : level ≤ m) :
    Combined dir m level x ((Filter.levelRound Real.sqrt dir (2 ^ m))^[level] s) := by
  induction level with
  | zero => exact h
  | succ level ih =>
      rw [Function.iterate_succ_apply']
      exact (ih (Nat.le_of_succ_le hlevel)).levelRound hlevel

/-- What is left of an item when both arrays are divided by their length. -/
noncomputable def gain (dir : Bool) (n : Nat) : ℝ := if dir then (n : ℝ)⁻¹ else 1

theorem mk_div_eq (x y n : ℝ) : (⟨x / n, y / n⟩ : ℂ) = (n⁻¹ : ℝ) * ⟨x, y⟩ := by
  rw [div_eq_inv_mul, div_eq_inv_mul]
  apply Complex.ext
  · rw [Complex.re_ofReal_mul]
  · rw [Complex.im_ofReal_mul]

theorem scaled_items (data : Signal ℝ) (dir : Bool) (n p : Nat) :
    (if dir then data.scaled n else data).items p =
      if p < n then gain dir n * data.items p else data.items p := by
  cases dir with
  | false => simp [gain]
  | true =>
    simp only [Signal.items, Signal.scaled, gain, if_true]
    split
    next => exact mk_div_eq _ _ _
    next => rfl

/-- The transform of the first `n` items. -/
noncomputable def transform (dir : Bool) (n : Nat) (x : Nat → ℂ) (p : Nat) : ℂ :=
  if p < n then gain dir n * dft (turnRoot dir n) n x p else x p

theorem returns_filterFft (dir : Bool) (m : Nat) (data : Signal ℝ) :
    ∃ result, Returns (fun fuel => filterFft Real.sqrt fuel dir m data) result ∧
      ∀ p, result.items p = transform dir (2 ^ m) data.items p := by
  obtain ⟨sorted, ⟨least, hsorted⟩, hreal, himag⟩ := returns_bitReversal m data
  have hpoints : 1 <<< m = 2 ^ m := Nat.one_shiftLeft m
  have hstart : Combined dir m 0 data.items ⟨sorted, -1, 0, 1⟩ := by
    refine ⟨rfl, by simp [levelRoot_re], by simp [levelRoot_im], fun p => ?_⟩
    rw [stageValue_zero, Signal.items, hreal, himag]
    split <;> rfl
  have hend := combined_iterate hstart le_rfl
  generalize hlevels : (Filter.levelRound Real.sqrt dir (2 ^ m))^[m] ⟨sorted, -1, 0, 1⟩ = levels
    at hend
  refine ⟨if dir then levels.data.scaled (2 ^ m) else levels.data,
    ⟨least, fun fuel hfuel => ?_⟩, fun p => ?_⟩
  · have hrun := hsorted fuel hfuel
    dsimp only at hrun ⊢
    rw [filterFft, hpoints, hrun, Option.map_some, hlevels]
  · rw [scaled_items, hend.items, transform]
    split
    next hp => rw [stageValue_last _ hp, levelRoot_sq]
    next => rfl

theorem foldl_add_eq_sum {f : Nat → ℝ} (len : Nat) :
    (List.range len).foldl (fun sum k => sum + f k) 0 = ∑ k ∈ range len, f k := by
  induction len with
  | zero => rfl
  | succ len ih =>
      rw [List.range_succ, List.foldl_append, ih, sum_range_succ]
      rfl

/-- The transform as two sums of real numbers. -/
theorem dft_items {w : ℂ} {angle : Nat → ℝ} {p : Nat}
    (hw : ∀ k, w ^ (k * p) = ⟨Real.cos (angle k), Real.sin (angle k)⟩) (len : Nat)
    (data : Signal ℝ) :
    dft w len data.items p =
      ⟨∑ k ∈ range len, (data.real k * Real.cos (angle k) - data.imag k * Real.sin (angle k)),
        ∑ k ∈ range len, (data.real k * Real.sin (angle k) + data.imag k * Real.cos (angle k))⟩ := by
  unfold dft
  apply Complex.ext
  · rw [Complex.re_sum]
    refine sum_congr rfl fun k _ => ?_
    rw [hw, Complex.mul_re]
    simp only [Signal.items]
    ring
  · rw [Complex.im_sum]
    refine sum_congr rfl fun k _ => ?_
    rw [hw, Complex.mul_im]
    simp only [Signal.items]
    ring

theorem turnRoot_pow (dir : Bool) (len k p : Nat) :
    turnRoot dir len ^ (k * p) =
      ⟨Real.cos (k * (-(if dir then 1 else -1) * 2.0 * Real.pi * p / len)),
        Real.sin (k * (-(if dir then 1 else -1) * 2.0 * Real.pi * p / len))⟩ := by
  have hangle : (k * p : ℕ) * ((sense dir * (2 * Real.pi / len) : ℝ) * Complex.I) =
      ((k * (-(if dir then 1 else -1) * 2.0 * Real.pi * p / len) : ℝ) : ℂ) * Complex.I := by
    rw [← mul_assoc, ← Complex.ofReal_natCast, ← Complex.ofReal_mul]
    congr 2
    push_cast
    cases dir <;> norm_num [sense] <;> ring
  rw [turnRoot_eq, ← Complex.exp_nat_mul, hangle]
  exact Complex.ext (Complex.exp_ofReal_mul_I_re _) (Complex.exp_ofReal_mul_I_im _)

theorem filterDft_items (dir : Bool) (len : Nat) (data : Signal ℝ) (p : Nat) :
    (filterDft Real.cos Real.sin Real.pi dir len data).items p =
      transform dir len data.items p := by
  rw [transform, dft_items (fun k => turnRoot_pow dir len k p)]
  cases dir with
  | false =>
    simp only [filterDft, Signal.items, gain, Bool.false_eq_true, if_false, foldl_add_eq_sum,
      Complex.ofReal_one, one_mul]
    split <;> rfl
  | true =>
    simp only [filterDft, Signal.items, gain, if_true, foldl_add_eq_sum]
    split
    next => exact mk_div_eq _ _ _
    next => rfl

/-- The fast transform of `2 ^ m` points is the plain one. -/
theorem filterFft_filterDft (dir : Bool) (m : Nat) (data : Signal ℝ) :
    Returns (fun fuel => filterFft Real.sqrt fuel dir m data)
      (filterDft Real.cos Real.sin Real.pi dir (2 ^ m) data) := by
  obtain ⟨result, hreturns, hresult⟩ := returns_filterFft dir m data
  have heq : filterDft Real.cos Real.sin Real.pi dir (2 ^ m) data = result :=
    Signal.ext_items fun p => (filterDft_items dir (2 ^ m) data p).trans (hresult p).symm
  exact heq ▸ hreturns

/-! ## The way back -/

theorem primitive_turnRoot (dir : Bool) {n : Nat} (hn : n ≠ 0) :
    IsPrimitiveRoot (turnRoot dir n) n ∧ turnRoot (!dir) n * turnRoot dir n = 1 := by
  have hforward : IsPrimitiveRoot (turnRoot false n) n := by
    have hroot := Complex.isPrimitiveRoot_exp n hn
    have heq : turnRoot false n = Complex.exp (2 * Real.pi * Complex.I / n) := by
      rw [turnRoot_eq]
      congr 1
      simp only [sense, Bool.false_eq_true, if_false]
      push_cast
      ring
    rwa [heq]
  have hinverse : ∀ dir, turnRoot (!dir) n * turnRoot dir n = 1 := by
    intro dir
    rw [turnRoot_eq, turnRoot_eq, ← Complex.exp_add, ← add_mul, ← Complex.ofReal_add]
    cases dir <;> simp [sense]
  refine ⟨?_, hinverse dir⟩
  cases dir with
  | false => exact hforward
  | true =>
    have heq : turnRoot true n = (turnRoot false n)⁻¹ := eq_inv_of_mul_eq_one_left (hinverse false)
    exact heq ▸ hforward.inv

theorem gain_mul (dir : Bool) {n : Nat} (hn : n ≠ 0) :
    ((gain (!dir) n : ℝ) : ℂ) * (gain dir n : ℝ) * n = 1 := by
  have hcast : (n : ℂ) ≠ 0 := Nat.cast_ne_zero.2 hn
  cases dir <;> simp [gain, hcast]

/-- The transform in the other direction is the inverse. -/
theorem transform_inverse (dir : Bool) (n : Nat) (x : Nat → ℂ) (p : Nat) :
    transform (!dir) n (transform dir n x) p = x p := by
  rw [transform]
  split
  next hp =>
    have hn : n ≠ 0 := Nat.ne_zero_of_lt hp
    obtain ⟨hroot, hinverse⟩ := primitive_turnRoot dir hn
    have hinner : ∀ t < n, transform dir n x t = (gain dir n : ℝ) * dft (turnRoot dir n) n x t :=
      fun t ht => if_pos ht
    rw [dft_congr hinner, dft_smul, dft_dft hroot hinverse _ hp, ← mul_assoc, ← mul_assoc,
      gain_mul dir hn, one_mul]
  next hp => rw [transform, if_neg hp]

theorem filterDft_inverse (dir : Bool) (len : Nat) (data : Signal ℝ) :
    filterDft Real.cos Real.sin Real.pi (!dir) len
      (filterDft Real.cos Real.sin Real.pi dir len data) = data := by
  refine Signal.ext_items fun p => ?_
  have hitems := funext (filterDft_items dir len data)
  rw [filterDft_items, hitems, transform_inverse]

/-- The fast transform and the one in the other direction give the arrays back. -/
theorem filterFft_inverse (dir : Bool) (m : Nat) (data : Signal ℝ) :
    ∃ transformed, Returns (fun fuel => filterFft Real.sqrt fuel dir m data) transformed ∧
      Returns (fun fuel => filterFft Real.sqrt fuel (!dir) m transformed) data := by
  obtain ⟨transformed, hreturns, hitems⟩ := returns_filterFft dir m data
  obtain ⟨back, hreturns', hitems'⟩ := returns_filterFft (!dir) m transformed
  have heq : back = data := Signal.ext_items fun p => by
    rw [hitems', funext hitems, transform_inverse]
  exact ⟨transformed, hreturns, heq ▸ hreturns'⟩

end Bldc.Filter
