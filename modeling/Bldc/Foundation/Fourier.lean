import Mathlib.Algebra.BigOperators.Ring.Finset
import Mathlib.Algebra.Ring.GeomSum
import Mathlib.RingTheory.RootsOfUnity.PrimitiveRoots
import Mathlib.Tactic.Ring

/-!
# The discrete Fourier transform by stages

A transform of twice the length is made of two transforms, one of the items at even places and
one of those at odd places. Applied to the end, this sorts the items by their reversed place
number and then combines transforms of twice the length in every stage.
-/

namespace Bldc.Foundation

open Finset

section Transform

variable {R : Type} [CommRing R]

/-- The transform of so many items with a root of unity. -/
def dft (w : R) (n : Nat) (x : Nat → R) (k : Nat) : R := ∑ t ∈ range n, w ^ (t * k) * x t

theorem dft_congr {n : Nat} {x y : Nat → R} (h : ∀ t < n, x t = y t) (w : R) (k : Nat) :
    dft w n x k = dft w n y k :=
  sum_congr rfl fun t ht => by rw [h t (mem_range.1 ht)]

theorem dft_smul (w c : R) (n : Nat) (x : Nat → R) (k : Nat) :
    dft w n (fun t => c * x t) k = c * dft w n x k := by
  unfold dft
  rw [mul_sum]
  exact sum_congr rfl fun t _ => mul_left_comm _ _ _

theorem sum_range_double (half : Nat) (f : Nat → R) :
    ∑ t ∈ range (2 * half), f t =
      ∑ t ∈ range half, f (2 * t) + ∑ t ∈ range half, f (2 * t + 1) := by
  induction half with
  | zero => simp
  | succ half ih =>
      rw [Nat.mul_succ, sum_range_succ, sum_range_succ, ih, sum_range_succ, sum_range_succ]
      ring

theorem dft_double (w : R) (half : Nat) (x : Nat → R) (k : Nat) :
    dft w (2 * half) x k =
      dft (w ^ 2) half (fun t => x (2 * t)) k +
        w ^ k * dft (w ^ 2) half (fun t => x (2 * t + 1)) k := by
  unfold dft
  rw [sum_range_double, mul_sum]
  refine congrArg₂ (· + ·) (sum_congr rfl fun t _ => ?_) (sum_congr rfl fun t _ => ?_)
  · rw [← pow_mul, mul_assoc]
  · rw [← mul_assoc, ← pow_mul, ← pow_add]
    congr 2
    ring

theorem dft_add_period {w : R} {n : Nat} (hw : w ^ n = 1) (x : Nat → R) (k : Nat) :
    dft w n x (k + n) = dft w n x k := by
  refine sum_congr rfl fun t _ => ?_
  rw [Nat.mul_add, pow_add, Nat.mul_comm t n, pow_mul w n, hw, one_pow, mul_one]

theorem dft_mod {w : R} {n : Nat} (hw : w ^ n = 1) (x : Nat → R) (k : Nat) :
    dft w n x (k % n) = dft w n x k := by
  refine sum_congr rfl fun t _ => ?_
  have hpow : w ^ (t * k) = w ^ (t * (k % n)) * (w ^ n) ^ (t * (k / n)) := by
    rw [← pow_mul, ← pow_add]
    congr 1
    calc t * k = t * (k % n + n * (k / n)) := by rw [Nat.mod_add_div]
      _ = t * (k % n) + n * (t * (k / n)) := by ring
  rw [hpow, hw, one_pow, mul_one]

/-- In the second half of the places the odd items count with the other sign. -/
theorem dft_double_add {w : R} {half : Nat} (hw : w ^ half = -1) (x : Nat → R) (k : Nat) :
    dft w (2 * half) x (k + half) =
      dft (w ^ 2) half (fun t => x (2 * t)) k -
        w ^ k * dft (w ^ 2) half (fun t => x (2 * t + 1)) k := by
  have hperiod : (w ^ 2) ^ half = 1 := by
    rw [← pow_mul, Nat.mul_comm, pow_mul, hw, neg_one_sq]
  rw [dft_double, dft_add_period hperiod, dft_add_period hperiod, pow_add, hw]
  ring

end Transform

/-! ## Reversed places -/

/-- The place number with its bits in the other order. -/
def bitRev : (bits place : Nat) → Nat
  | 0, _ => 0
  | bits + 1, place => place % 2 * 2 ^ bits + bitRev bits (place / 2)

theorem bitRev_succ (bits place : Nat) :
    bitRev (bits + 1) place = place % 2 * 2 ^ bits + bitRev bits (place / 2) := rfl

theorem bitRev_lt (bits place : Nat) : bitRev bits place < 2 ^ bits := by
  induction bits generalizing place with
  | zero => exact Nat.one_pos
  | succ bits ih =>
      have hlow := ih (place / 2)
      have hbit : place % 2 = 0 ∨ place % 2 = 1 := Nat.mod_two_eq_zero_or_one place
      rw [bitRev_succ, Nat.pow_succ]
      obtain hbit | hbit := hbit <;> rw [hbit] <;> omega

theorem bitRev_even (bits place : Nat) : bitRev (bits + 1) (2 * place) = bitRev bits place := by
  rw [bitRev, Nat.mul_mod_right, Nat.mul_div_cancel_left _ Nat.two_pos, Nat.zero_mul,
    Nat.zero_add]

theorem bitRev_odd (bits place : Nat) :
    bitRev (bits + 1) (2 * place + 1) = bitRev bits place + 2 ^ bits := by
  have hmod : (2 * place + 1) % 2 = 1 := by omega
  have hdiv : (2 * place + 1) / 2 = place := by omega
  rw [bitRev, hmod, hdiv, Nat.one_mul, Nat.add_comm]

/-- The highest bit becomes the lowest one. -/
theorem bitRev_high (bits : Nat) {low high : Nat} (hlow : low < 2 ^ bits) (hhigh : high < 2) :
    bitRev (bits + 1) (high * 2 ^ bits + low) = 2 * bitRev bits low + high := by
  induction bits generalizing low with
  | zero =>
      have hzero : low = 0 := by simpa using hlow
      rw [bitRev, bitRev, bitRev, hzero]
      omega
  | succ bits ih =>
      have hsplit : high * 2 ^ (bits + 1) + low = 2 * (high * 2 ^ bits + low / 2) + low % 2 := by
        rw [Nat.pow_succ]
        have hparts := Nat.div_add_mod low 2
        have hmul : high * (2 ^ bits * 2) = 2 * (high * 2 ^ bits) := by ring
        omega
      have hhalf : low / 2 < 2 ^ bits := by
        rw [Nat.pow_succ] at hlow
        omega
      have hmod : (high * 2 ^ (bits + 1) + low) % 2 = low % 2 := by omega
      have hdiv : (high * 2 ^ (bits + 1) + low) / 2 = high * 2 ^ bits + low / 2 := by omega
      rw [bitRev_succ, hmod, hdiv, ih hhalf, bitRev_succ, Nat.pow_succ]
      ring

theorem bitRev_bitRev {bits place : Nat} (h : place < 2 ^ bits) :
    bitRev bits (bitRev bits place) = place := by
  induction bits generalizing place with
  | zero =>
      have hzero : place = 0 := by simpa using h
      rw [hzero, bitRev]
  | succ bits ih =>
      have hhalf : place / 2 < 2 ^ bits := by
        rw [Nat.pow_succ] at h
        omega
      rw [bitRev_succ bits place, bitRev_high bits (bitRev_lt _ _) (Nat.mod_lt _ Nat.two_pos),
        ih hhalf]
      exact Nat.div_add_mod place 2

/-- The place after this one, reversed: the first of the leading ones that is followed by a zero
carries. -/
theorem bitRev_succ_of_even {bits place : Nat} (h : bitRev (bits + 1) place < 2 ^ bits) :
    bitRev (bits + 1) (place + 1) = bitRev (bits + 1) place + 2 ^ bits := by
  obtain ⟨half, rfl | rfl⟩ := Nat.even_or_odd' place
  · rw [bitRev_odd, bitRev_even]
  · rw [bitRev_odd] at h
    omega

theorem bitRev_succ_of_odd {bits place : Nat} (h : 2 ^ bits ≤ bitRev (bits + 1) place) :
    bitRev (bits + 1) (place + 1) = bitRev bits (place / 2 + 1) ∧
      bitRev (bits + 1) place - 2 ^ bits = bitRev bits (place / 2) := by
  obtain ⟨half, rfl | rfl⟩ := Nat.even_or_odd' place
  · rw [bitRev_even] at h
    exact absurd (bitRev_lt bits half) (Nat.not_lt.2 h)
  · have hnext : 2 * half + 1 + 1 = 2 * (half + 1) := by omega
    have hdiv : (2 * half + 1) / 2 = half := by omega
    rw [hnext, bitRev_even, bitRev_odd, hdiv, Nat.add_sub_cancel]
    exact ⟨rfl, rfl⟩

/-! ## Stages -/

section Stages

variable {R : Type} [CommRing R]

/-- One stage: the items are combined in pairs whose places are half a block apart. -/
def butterflies (w : R) (half : Nat) (a : Nat → R) (p : Nat) : R :=
  if p % (2 * half) < half then a p + w ^ (p % (2 * half)) * a (p + half)
  else a (p - half) - w ^ (p % (2 * half) - half) * a p

/-- After so many stages, every block holds the transform of items that are evenly spaced in
the input. -/
def stageValue (roots : Nat → R) (bits stage : Nat) (x : Nat → R) (p : Nat) : R :=
  dft (roots stage ^ 2) (2 ^ stage)
    (fun t => x (bitRev (bits - stage) (p / 2 ^ stage) + t * 2 ^ (bits - stage))) (p % 2 ^ stage)

theorem stageValue_zero {roots : Nat → R} (bits : Nat) (x : Nat → R) (p : Nat) :
    stageValue roots bits 0 x p = x (bitRev bits p) := by
  simp [stageValue, dft]

theorem stageValue_last {roots : Nat → R} {bits : Nat} (x : Nat → R) {p : Nat}
    (hp : p < 2 ^ bits) : stageValue roots bits bits x p = dft (roots bits ^ 2) (2 ^ bits) x p := by
  simp [stageValue, bitRev, Nat.mod_eq_of_lt hp]

/-- The roots of the stages, each a square root of the one before. -/
structure StageRoots (roots : Nat → R) : Prop where
  first : roots 0 = -1
  next : ∀ stage, roots (stage + 1) ^ 2 = roots stage

theorem StageRoots.half_turn {roots : Nat → R} (h : StageRoots roots) (stage : Nat) :
    roots stage ^ 2 ^ stage = -1 := by
  induction stage with
  | zero => rw [h.first, pow_zero, pow_one]
  | succ stage ih => rw [pow_succ', pow_mul, h.next, ih]

/-- Blocks of half the length lie beside each other in the reversed order. -/
theorem stageValue_split (roots : Nat → R) {bits stage : Nat} (hstage : stage < bits)
    (x : Nat → R) (block k : Nat) (hk : k < 2 ^ stage) :
    stageValue roots bits stage x (2 ^ (stage + 1) * block + k) =
        dft (roots stage ^ 2) (2 ^ stage) (fun t => x (bitRev (bits - (stage + 1)) block +
          2 * t * 2 ^ (bits - (stage + 1)))) k ∧
      stageValue roots bits stage x (2 ^ (stage + 1) * block + k + 2 ^ stage) =
        dft (roots stage ^ 2) (2 ^ stage) (fun t => x (bitRev (bits - (stage + 1)) block +
          (2 * t + 1) * 2 ^ (bits - (stage + 1)))) k := by
  obtain ⟨rest, rfl⟩ : ∃ rest, bits = stage + 1 + rest := Nat.exists_eq_add_of_le hstage
  have hrest : stage + 1 + rest - stage = rest + 1 := by omega
  have hrest' : stage + 1 + rest - (stage + 1) = rest := by omega
  have hsize := Nat.two_pow_pos stage
  have heven : 2 ^ (stage + 1) * block + k = 2 ^ stage * (2 * block) + k := by
    rw [Nat.pow_succ]
    ring
  have hodd : 2 ^ (stage + 1) * block + k + 2 ^ stage = 2 ^ stage * (2 * block + 1) + k := by
    rw [Nat.pow_succ]
    ring
  unfold stageValue
  rw [hrest, hrest', hodd, heven]
  simp only [Nat.mul_add_div hsize, Nat.div_eq_of_lt hk, Nat.mul_add_mod, Nat.mod_eq_of_lt hk,
    Nat.add_zero]
  constructor <;> refine dft_congr (fun t _ => congrArg x ?_) _ _
  · rw [bitRev_even, Nat.pow_succ]
    ring
  · rw [bitRev_odd, Nat.pow_succ]
    ring

/-- A stage of butterflies makes transforms of twice the length. -/
theorem butterflies_stageValue {roots : Nat → R} (hroots : StageRoots roots) {bits stage : Nat}
    (hstage : stage < bits) (x : Nat → R) (p : Nat) :
    butterflies (roots stage) (2 ^ stage) (stageValue roots bits stage x) p =
      stageValue roots bits (stage + 1) x p := by
  have hdouble : 2 * 2 ^ stage = 2 ^ (stage + 1) := (pow_succ' 2 stage).symm
  have hlt := Nat.mod_lt p (Nat.two_pow_pos (stage + 1))
  obtain ⟨block, k, hk, rfl⟩ : ∃ block k, k < 2 ^ (stage + 1) ∧ p = 2 ^ (stage + 1) * block + k :=
    ⟨p / 2 ^ (stage + 1), p % 2 ^ (stage + 1), hlt, (Nat.div_add_mod _ _).symm⟩
  have hmod : (2 ^ (stage + 1) * block + k) % 2 ^ (stage + 1) = k := by
    rw [Nat.mul_add_mod, Nat.mod_eq_of_lt hk]
  have hvalue : stageValue roots bits (stage + 1) x (2 ^ (stage + 1) * block + k) =
      dft (roots stage) (2 * 2 ^ stage) (fun t => x (bitRev (bits - (stage + 1)) block +
        t * 2 ^ (bits - (stage + 1)))) k := by
    rw [stageValue, hroots.next, hmod, Nat.mul_add_div (Nat.two_pow_pos _), Nat.div_eq_of_lt hk,
      Nat.add_zero block, hdouble]
  unfold butterflies
  rw [hdouble, hmod]
  split
  next hlow =>
    obtain ⟨heven, hodd⟩ := stageValue_split roots hstage x block k hlow
    rw [heven, hodd, hvalue, dft_double]
  next hhigh =>
    obtain ⟨j, rfl⟩ : ∃ j, k = j + 2 ^ stage := ⟨k - 2 ^ stage, by omega⟩
    have hj : j < 2 ^ stage := by omega
    obtain ⟨heven, hodd⟩ := stageValue_split roots hstage x block j hj
    rw [hvalue, dft_double_add (hroots.half_turn stage), ← Nat.add_assoc, Nat.add_sub_cancel,
      Nat.add_sub_cancel, heven, hodd]

end Stages

/-! ## Where the items are -/

section InPlace

/-- Two places change their items. -/
def exchange {α : Type} (a : Nat → α) (i j : Nat) : Nat → α :=
  Function.update (Function.update a i (a j)) j (a i)

theorem exchange_eq {α : Type} (a : Nat → α) (i j p : Nat) :
    exchange a i j p = if p = j then a i else if p = i then a j else a p := by
  simp only [exchange, Function.update_apply]

/-- Places that are partners of each other. -/
structure Partners (n : Nat) (partner : Nat → Nat) : Prop where
  lt : ∀ p < n, partner p < n
  back : ∀ p < n, partner (partner p) = p

/-- Every place is exchanged with its partner when the first one of the two is reached. -/
theorem foldl_exchange {α : Type} {partner : Nat → Nat} {n : Nat} (h : Partners n partner)
    (a : Nat → α) {rounds : Nat} (hrounds : rounds ≤ n) (p : Nat) :
    (List.range rounds).foldl
        (fun a i => if i < partner i then exchange a i (partner i) else a) a p =
      if p < n ∧ (p < rounds ∨ partner p < rounds) then a (partner p) else a p := by
  induction rounds generalizing p with
  | zero => simp
  | succ rounds ih =>
      have hlt := h.lt rounds hrounds
      have hback := h.back rounds hrounds
      have hlt' := h.lt p
      have hback' := h.back p
      have hprev := ih (Nat.le_of_succ_le hrounds)
      rw [List.range_succ, List.foldl_append, List.foldl_cons, List.foldl_nil]
      generalize (List.range rounds).foldl _ a = b at hprev ⊢
      split
      next hfirst =>
        rw [exchange_eq, hprev rounds, hprev (partner rounds), hprev p]
        grind
      next hlast =>
        rw [hprev p]
        grind

/-- One pair of items, combined where they are. -/
def butterflyAt {R : Type} [CommRing R] (u : R) (half : Nat) (a : Nat → R) (i : Nat) : Nat → R :=
  Function.update (Function.update a (i + half) (a i - u * a (i + half))) i
    (a i + u * a (i + half))

variable {R : Type} [CommRing R]

theorem place_eq_iff {width block block' r r' : Nat} (hr : r < width) (hr' : r' < width) :
    width * block + r = width * block' + r' ↔ block = block' ∧ r = r' := by
  constructor
  · intro heq
    have hmod := congrArg (· % width) heq
    have hdiv := congrArg (· / width) heq
    have hwidth : 0 < width := Nat.zero_lt_of_lt hr
    simp only [Nat.mul_add_mod, Nat.mod_eq_of_lt hr, Nat.mod_eq_of_lt hr'] at hmod
    simp only [Nat.mul_add_div hwidth, Nat.div_eq_of_lt hr, Nat.div_eq_of_lt hr', Nat.add_zero]
      at hdiv
    exact ⟨hdiv, hmod⟩
  · rintro ⟨rfl, rfl⟩
    rfl

theorem butterflyAt_place {half j : Nat} (hj : j < half) (u : R) (a : Nat → R) (at' block : Nat)
    {r : Nat} (hr : r < 2 * half) :
    butterflyAt u half a (2 * half * at' + j) (2 * half * block + r) =
      if block = at' ∧ r = j then
        a (2 * half * block + r) + u * a (2 * half * block + r + half)
      else if block = at' ∧ r = j + half then
        a (2 * half * block + r - half) - u * a (2 * half * block + r)
      else a (2 * half * block + r) := by
  have hlow : j < 2 * half := by omega
  have hhigh : j + half < 2 * half := by omega
  simp only [butterflyAt, Function.update_apply, Nat.add_assoc (2 * half * at'),
    place_eq_iff hr hlow, place_eq_iff hr hhigh]
  split
  next h =>
    obtain ⟨rfl, rfl⟩ := h
    rw [Nat.add_assoc]
  next =>
    split
    next h =>
      obtain ⟨rfl, rfl⟩ := h
      rw [← Nat.add_assoc, Nat.add_sub_cancel]
    next => rfl

/-- The same pair of every block. -/
theorem foldl_butterflyAt {half j : Nat} (hj : j < half) (u : R) (a : Nat → R) (blocks : Nat)
    {block r : Nat} (hr : r < 2 * half) :
    (List.range blocks).foldl (fun a b => butterflyAt u half a (2 * half * b + j)) a
        (2 * half * block + r) =
      if block < blocks ∧ r = j then
        a (2 * half * block + r) + u * a (2 * half * block + r + half)
      else if block < blocks ∧ r = j + half then
        a (2 * half * block + r - half) - u * a (2 * half * block + r)
      else a (2 * half * block + r) := by
  induction blocks generalizing block r with
  | zero => simp
  | succ blocks ih =>
      rw [List.range_succ, List.foldl_append, List.foldl_cons, List.foldl_nil,
        butterflyAt_place hj _ _ _ _ hr]
      by_cases hlast : block = blocks
      · -- nothing has happened to this block yet
        subst hlast
        have hsame : ∀ r' < 2 * half,
            (List.range block).foldl (fun a b => butterflyAt u half a (2 * half * b + j)) a
              (2 * half * block + r') = a (2 * half * block + r') := fun r' hr' => by
          rw [ih hr', if_neg (fun h => Nat.lt_irrefl _ h.1), if_neg (fun h => Nat.lt_irrefl _ h.1)]
        simp only [true_and, Nat.lt_succ_self, hsame r hr]
        split
        next hfirst =>
          rw [Nat.add_assoc, hsame (r + half) (by omega)]
        next =>
          split
          next hsecond =>
            rw [Nat.add_sub_assoc (by omega), hsame (r - half) (by omega)]
          next => rfl
      · have hiff : block < blocks + 1 ↔ block < blocks := by omega
        simp only [hlast, false_and, if_false, ih hr, hiff]

theorem butterflies_place (w : R) (half : Nat) (a : Nat → R) (block : Nat) {r : Nat}
    (hr : r < 2 * half) :
    butterflies w half a (2 * half * block + r) =
      if r < half then a (2 * half * block + r) + w ^ r * a (2 * half * block + r + half)
      else a (2 * half * block + r - half) - w ^ (r - half) * a (2 * half * block + r) := by
  rw [butterflies, Nat.mul_add_mod, Nat.mod_eq_of_lt hr]

theorem butterflies_congr {half blocks : Nat} {a b : Nat → R}
    (h : ∀ p < 2 * half * blocks, a p = b p) (w : R) {p : Nat} (hp : p < 2 * half * blocks) :
    butterflies w half a p = butterflies w half b p := by
  unfold butterflies
  split
  next hlow =>
    have hwidth : 0 < 2 * half := by omega
    have hpair : p + half < 2 * half * blocks := by
      have hblock : p / (2 * half) + 1 ≤ blocks :=
        (Nat.div_lt_iff_lt_mul hwidth).2 (by rwa [Nat.mul_comm])
      have hfits := Nat.mul_le_mul_left (2 * half) hblock
      have hparts := Nat.div_add_mod p (2 * half)
      rw [Nat.mul_succ] at hfits
      omega
    rw [h p hp, h _ hpair]
  next => rw [h p hp, h _ (Nat.lt_of_le_of_lt (Nat.sub_le _ _) hp)]

/-- The rounds of one stage, where the items are: all pairs of the first place of a block, then
those of the second place, and so on. The factor is multiplied up. -/
def stageRounds (w : R) (half blocks : Nat) (a : Nat → R) (rounds : Nat) : (Nat → R) × R :=
  (List.range rounds).foldl (fun s j =>
    ((List.range blocks).foldl (fun a b => butterflyAt s.2 half a (2 * half * b + j)) s.1,
      s.2 * w)) (a, 1)

theorem stageRounds_succ (w : R) (half blocks : Nat) (a : Nat → R) (rounds : Nat) :
    stageRounds w half blocks a (rounds + 1) =
      ((List.range blocks).foldl (fun c b => butterflyAt (stageRounds w half blocks a rounds).2 half
        c (2 * half * b + rounds)) (stageRounds w half blocks a rounds).1,
        (stageRounds w half blocks a rounds).2 * w) := by
  rw [stageRounds, List.range_succ, List.foldl_append, List.foldl_cons, List.foldl_nil]
  rfl

theorem stageRounds_factor (w : R) (half blocks : Nat) (a : Nat → R) (rounds : Nat) :
    (stageRounds w half blocks a rounds).2 = w ^ rounds := by
  induction rounds with
  | zero => exact (pow_zero w).symm
  | succ rounds ih => rw [stageRounds_succ, ih, pow_succ]

theorem stageRounds_place (w : R) {half : Nat} (blocks : Nat) (a : Nat → R) {rounds : Nat}
    (hrounds : rounds ≤ half) (block : Nat) {r : Nat} (hr : r < 2 * half) :
    (stageRounds w half blocks a rounds).1 (2 * half * block + r) =
      if block < blocks ∧ (r < rounds ∨ half ≤ r ∧ r < rounds + half) then
        butterflies w half a (2 * half * block + r)
      else a (2 * half * block + r) := by
  induction rounds generalizing r with
  | zero =>
      rw [if_neg (by omega)]
      rfl
  | succ rounds ih =>
      have hprev := fun {r} => ih (Nat.le_of_succ_le hrounds) (r := r)
      rw [stageRounds_succ, stageRounds_factor]
      dsimp only
      rw [foldl_butterflyAt hrounds _ _ _ hr, hprev hr]
      by_cases hlow : block < blocks ∧ r = rounds
      · obtain ⟨hblock, rfl⟩ := hlow
        rw [if_pos ⟨hblock, rfl⟩, if_neg (by omega), if_pos ⟨hblock, .inl r.lt_succ_self⟩,
          butterflies_place _ _ _ _ hr, if_pos (Nat.lt_of_succ_le hrounds), Nat.add_assoc,
          hprev (by omega : r + half < 2 * half), if_neg (by omega)]
      · rw [if_neg hlow]
        by_cases hhigh : block < blocks ∧ r = rounds + half
        · obtain ⟨hblock, rfl⟩ := hhigh
          rw [if_pos ⟨hblock, rfl⟩, if_neg (by omega), if_pos (by omega),
            butterflies_place _ _ _ _ hr, if_neg (by omega), Nat.add_sub_cancel,
            ← Nat.add_assoc, Nat.add_sub_cancel, hprev (by omega : rounds < 2 * half),
            if_neg (by omega)]
        · rw [if_neg hhigh]
          have hiff : block < blocks ∧ (r < rounds + 1 ∨ half ≤ r ∧ r < rounds + 1 + half) ↔
              block < blocks ∧ (r < rounds ∨ half ≤ r ∧ r < rounds + half) := by omega
          simp only [hiff]

/-- After all rounds of a stage the blocks are combined, and nothing behind them has changed. -/
theorem stageRounds_all (w : R) {half : Nat} (hhalf : 0 < half) (blocks : Nat) (a : Nat → R)
    (p : Nat) :
    (stageRounds w half blocks a half).1 p =
      if p < 2 * half * blocks then butterflies w half a p else a p := by
  have hwidth : 0 < 2 * half := by omega
  have hr := Nat.mod_lt p hwidth
  have hplace := stageRounds_place w blocks a le_rfl (p / (2 * half)) hr
  rw [Nat.div_add_mod] at hplace
  rw [hplace]
  have hiff : p / (2 * half) < blocks ↔ p < 2 * half * blocks := by
    rw [Nat.div_lt_iff_lt_mul hwidth, Nat.mul_comm]
  have hall : p % (2 * half) < half ∨ half ≤ p % (2 * half) ∧ p % (2 * half) < half + half := by
    omega
  simp only [hiff, hall, and_true]

end InPlace

/-! ## The way back -/

section Inverse

variable {K : Type} [Field K] {w v : K} {n : Nat}

theorem sum_powers (hw : IsPrimitiveRoot w n) (hv : v * w = 1) {s t : Nat} (hs : s < n)
    (ht : t < n) : ∑ k ∈ range n, v ^ (k * t) * w ^ (s * k) = if s = t then (n : K) else 0 := by
  have hw0 : w ≠ 0 := right_ne_zero_of_mul_eq_one hv
  have hvw : v = w⁻¹ := eq_inv_of_mul_eq_one_left hv
  have hterm : ∀ k, v ^ (k * t) * w ^ (s * k) = (w ^ s * (w ^ t)⁻¹) ^ k := fun k => by
    rw [hvw, mul_pow, ← pow_mul, inv_pow, inv_pow, ← pow_mul, mul_comm k t, mul_comm]
  simp only [hterm]
  split
  next heq => simp [heq, mul_inv_cancel₀ (pow_ne_zero t hw0)]
  next hne =>
    have hratio : w ^ s * (w ^ t)⁻¹ ≠ 1 := fun heq =>
      hne (hw.pow_inj hs ht (by rwa [mul_inv_eq_one₀ (pow_ne_zero t hw0)] at heq))
    have hturn : (w ^ s * (w ^ t)⁻¹) ^ n = 1 := by
      rw [mul_pow, inv_pow, ← pow_mul, ← pow_mul, mul_comm s, mul_comm t, pow_mul, pow_mul,
        hw.pow_eq_one, one_pow, one_pow, inv_one, mul_one]
    have hgeom := mul_geom_sum (w ^ s * (w ^ t)⁻¹) n
    rw [hturn, sub_self] at hgeom
    exact (mul_eq_zero.1 hgeom).resolve_left (sub_ne_zero.2 hratio)

/-- The transform with the inverse root gives the items back, times their number. -/
theorem dft_dft (hw : IsPrimitiveRoot w n) (hv : v * w = 1) (x : Nat → K) {t : Nat} (ht : t < n) :
    dft v n (dft w n x) t = n * x t := by
  have hswap : dft v n (dft w n x) t =
      ∑ s ∈ range n, (∑ k ∈ range n, v ^ (k * t) * w ^ (s * k)) * x s := by
    unfold dft
    simp only [mul_sum, sum_mul]
    rw [sum_comm]
    exact sum_congr rfl fun s _ => sum_congr rfl fun k _ => (mul_assoc _ _ _).symm
  rw [hswap, sum_eq_single t]
  · rw [sum_powers hw hv ht ht, if_pos rfl]
  · intro s hs hne
    rw [sum_powers hw hv (mem_range.1 hs) ht, if_neg hne, zero_mul]
  · exact fun hnot => absurd (mem_range.2 ht) hnot

end Inverse

end Bldc.Foundation
