import Bldc.Flash.Memory
import Bldc.Foundation.Ring
import Mathlib.Algebra.BigOperators.Group.Finset.Basic

/-!
# The FIR filter over a circular buffer

`filter_add_sample` and `filter_run_fir_iteration` keep a buffer whose length is a power of
two. Both wrap their index with a mask, so that the oldest sample is where the next one is
written.
-/

namespace Bldc.Filter

open Flash (Word)
open Foundation Finset

variable {K : Type}

/-- A buffer of samples and the offset of the next write. -/
structure SampleBuffer (K : Type) where
  buffer : Nat → K
  offset : Word

/-- `cnt_mask`. In C the shift has a meaning from one bit on. -/
def cntMask (bits : Nat) : Word := 0xFFFFFFFF >>> (32 - bits)

/-- `filter_add_sample`. -/
def filterAddSample (bits : Nat) (s : SampleBuffer K) (sample : K) : SampleBuffer K where
  buffer := Function.update s.buffer s.offset.toNat sample
  offset := (s.offset + 1) &&& cntMask bits

/-- One round of the loop of `filter_run_fir_iteration`, on the result and the offset. -/
def firRound [Semiring K] (vector filter : Nat → K) (bits : Nat) (acc : K × Word) (i : Nat) :
    K × Word :=
  (acc.1 + filter i * vector acc.2.toNat, (acc.2 + 1) &&& cntMask bits)

/-- `filter_run_fir_iteration`. -/
def filterRunFirIteration [Semiring K] (vector filter : Nat → K) (bits : Nat) (offset : Word) :
    K :=
  ((List.range (1 <<< bits)).foldl (firRound vector filter bits) (0, offset)).1

/-- The samples are added one after another. -/
def addSamples (bits : Nat) (s : SampleBuffer K) (samples : List K) : SampleBuffer K :=
  samples.foldl (filterAddSample bits) s

/-- The last samples, from the oldest one on. -/
def lastSamples (count : Nat) (samples : List K) : List K :=
  samples.drop (samples.length - count)

theorem cntMask_toNat {bits : Nat} (hbits : bits ≤ 32) : (cntMask bits).toNat = 2 ^ bits - 1 := by
  have hall : ∀ bits ≤ 32, (cntMask bits).toNat = 2 ^ bits - 1 := by decide
  exact hall bits hbits

/-- The mask wraps the offset at the length of the buffer. -/
theorem masked_toNat {bits : Nat} (hbits : bits ≤ 30) {offset : Word} {n : Nat}
    (hoffset : offset.toNat = n % 2 ^ bits) :
    ((offset + 1) &&& cntMask bits).toNat = (n + 1) % 2 ^ bits := by
  have hsize : 2 ^ bits ≤ 2 ^ 30 := Nat.pow_le_pow_right (by decide) hbits
  have hlt : n % 2 ^ bits < 2 ^ bits := Nat.mod_lt _ (Nat.two_pow_pos bits)
  have hadd : (offset + 1).toNat = n % 2 ^ bits + 1 := by
    rw [BitVec.toNat_add, hoffset]
    exact Nat.mod_eq_of_lt (by simp; omega)
  rw [BitVec.toNat_and, cntMask_toNat (by omega), hadd, Nat.and_two_pow_sub_one_eq_mod,
    Nat.mod_add_mod]

/-- The buffer holds the last of the items that were written to it, and the offset is the place
of the next one. -/
structure Holds (bits : Nat) (items : List K) (s : SampleBuffer K) : Prop where
  last : HoldsLast (2 ^ bits) items s.buffer
  offset_eq : s.offset.toNat = items.length % 2 ^ bits

/-- What is below the offset in the beginning is taken for items that were written. -/
theorem holds_start {bits : Nat} {s : SampleBuffer K} (hoffset : s.offset.toNat < 2 ^ bits) :
    Holds bits ((List.range s.offset.toNat).map s.buffer) s where
  last := holdsLast_range hoffset.le s.buffer
  offset_eq := by
    rw [List.length_map, List.length_range]
    exact (Nat.mod_eq_of_lt hoffset).symm

theorem Holds.filterAddSample {bits : Nat} (hbits : bits ≤ 30) {items : List K}
    {s : SampleBuffer K} (h : Holds bits items s) (sample : K) :
    Holds bits (items ++ [sample]) (filterAddSample bits s sample) where
  last := by
    have hpush := h.last.push sample
    rwa [← h.offset_eq] at hpush
  offset_eq := by
    rw [List.length_append]
    exact masked_toNat hbits h.offset_eq

theorem Holds.addSamples {bits : Nat} (hbits : bits ≤ 30) {items : List K} {s : SampleBuffer K}
    (h : Holds bits items s) (samples : List K) :
    Holds bits (items ++ samples) (addSamples bits s samples) := by
  induction samples generalizing items s with
  | nil => rwa [List.append_nil]
  | cons sample samples ih =>
      rw [List.append_cons]
      exact ih (h.filterAddSample hbits sample)

/-- What the ring holds at the places that a round visits are the last items. -/
theorem Holds.visited {bits : Nat} {front samples : List K} {s : SampleBuffer K}
    (h : Holds bits (front ++ samples) s) (hfull : 2 ^ bits ≤ samples.length) {i : Nat}
    (hi : i < 2 ^ bits) :
    (lastSamples (2 ^ bits) samples)[i]? =
      some (s.buffer (((front ++ samples).length + i) % 2 ^ bits)) := by
  have hlength : (front ++ samples).length = front.length + samples.length :=
    List.length_append
  have hround : (front ++ samples).length + i =
      front.length + (samples.length - 2 ^ bits + i) + 2 ^ bits := by omega
  have hitem := h.last (front.length + (samples.length - 2 ^ bits + i)) (by omega) (by omega)
  rw [List.getElem?_append_right (Nat.le_add_right _ _), Nat.add_sub_cancel_left] at hitem
  rw [lastSamples, List.getElem?_drop, hround, Nat.add_mod_right]
  exact hitem

variable [Semiring K]

/-- The loop adds up the products, and its offset goes round the buffer. -/
theorem foldl_firRound {bits : Nat} (hbits : bits ≤ 30) (vector filter : Nat → K) {offset : Word}
    {n : Nat} (hoffset : offset.toNat = n % 2 ^ bits) (rounds : Nat) :
    ((List.range rounds).foldl (firRound vector filter bits) (0, offset)).1 =
        ∑ i ∈ range rounds, filter i * vector ((n + i) % 2 ^ bits) ∧
      ((List.range rounds).foldl (firRound vector filter bits) (0, offset)).2.toNat =
        (n + rounds) % 2 ^ bits := by
  induction rounds with
  | zero => exact ⟨rfl, hoffset⟩
  | succ rounds ih =>
      obtain ⟨hresult, hnext⟩ := ih
      rw [List.range_succ, List.foldl_append, List.foldl_cons, List.foldl_nil]
      refine ⟨?_, masked_toNat hbits hnext⟩
      rw [sum_range_succ, ← hresult, ← hnext]
      rfl

/-- Once the buffer has gone round, the filter is the convolution of its coefficients with the
last samples, whatever the buffer held before. No index leaves the buffer. -/
theorem filterRunFirIteration_addSamples {bits : Nat} (hbits : bits ≤ 30)
    (filter : Nat → K) {s : SampleBuffer K} (hoffset : s.offset.toNat < 2 ^ bits)
    (samples : List K) :
    (addSamples bits s samples).offset.toNat < 2 ^ bits ∧
    (∀ rounds, ((List.range rounds).foldl
      (firRound (addSamples bits s samples).buffer filter bits)
        (0, (addSamples bits s samples).offset)).2.toNat < 2 ^ bits) ∧
    (2 ^ bits ≤ samples.length →
      filterRunFirIteration (addSamples bits s samples).buffer filter bits
          (addSamples bits s samples).offset =
        ∑ i ∈ range (2 ^ bits), filter i * (lastSamples (2 ^ bits) samples).getD i 0) := by
  have hholds := (holds_start hoffset).addSamples hbits samples
  have hnext := hholds.offset_eq
  have hsize := Nat.two_pow_pos bits
  refine ⟨hnext ▸ Nat.mod_lt _ hsize, fun rounds => ?_, fun hmany => ?_⟩
  · rw [(foldl_firRound hbits _ filter hnext rounds).2]
    exact Nat.mod_lt _ hsize
  · rw [filterRunFirIteration, Nat.one_shiftLeft,
      (foldl_firRound hbits _ filter hnext (2 ^ bits)).1]
    refine sum_congr rfl fun i hi => ?_
    rw [List.getD_eq_getElem?_getD, hholds.visited hmany (mem_range.1 hi), Option.getD_some]

theorem filterRunFirIteration_addSamples_two :
    (1 ≤ 30 ∧ (1 : Word).toNat < 2 ^ 1 ∧ 2 ^ 1 ≤ [5, 6, 7].length) ∧
      filterRunFirIteration (addSamples 1 ⟨fun _ => 9, 1⟩ [5, 6, 7]).buffer (fun i => 10 ^ i) 1
          (addSamples 1 ⟨fun _ => 9, 1⟩ [5, 6, 7]).offset =
        ∑ i ∈ range (2 ^ 1), 10 ^ i * (lastSamples (2 ^ 1) [5, 6, 7]).getD i 0 :=
  ⟨by decide, (filterRunFirIteration_addSamples (by decide) _ (by decide) _).2.2 (by decide)⟩

end Bldc.Filter
