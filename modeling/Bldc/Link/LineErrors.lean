import Bldc.Foundation.Detection
import Bldc.Link.Checksum
import Bldc.Link.Grammar
import Mathlib.Tactic.NormNum.Prime

/-!
# Line errors

Which errors the checksum of a packet catches: every burst of at most 16 bits, every odd number
of them and every pair in a packet of any length that the receiver takes.
-/

namespace Bldc.Link

open Flash Foundation Finset

/-! ## The generator -/

/-- The binary digits of an exponent. -/
def exponentDigits (n : Nat) : List Bool := msbFirst (BitVec.ofNat 15 n)

open Polynomial in
/-- The powers of the root come back to one after `2 ^ 15 - 1` steps. -/
theorem orderOf_crcPoly : orderOf (AdjoinRoot.root (generator crcPoly)) = 32767 := by
  have hpow (n : Nat) (hn : binary (exponentDigits n) = n) :
      AdjoinRoot.root (generator crcPoly) ^ n = 1 ↔ power crcPoly (exponentDigits n) = 1 := by
    rw [← root_pow_eq_one_iff (by decide), hn]
  refine orderOf_eq_of_pow_and_pow_div_prime (by decide) ?_ fun p hp hdvd => ?_
  · rw [hpow 32767 (by decide +kernel)]
    decide +kernel
  · -- `32767 = 7 * 31 * 151`
    have hp' : p = 7 ∨ p = 31 ∨ p = 151 := by
      rw [show 32767 = 7 * (31 * 151) from rfl, hp.dvd_mul, hp.dvd_mul,
        Nat.prime_dvd_prime_iff_eq hp (by norm_num), Nat.prime_dvd_prime_iff_eq hp (by norm_num),
        Nat.prime_dvd_prime_iff_eq hp (by norm_num)] at hdvd
      exact hdvd
    rcases hp' with rfl | rfl | rfl
    · rw [show 32767 / 7 = 4681 from rfl, Ne, hpow 4681 (by decide +kernel)]
      decide +kernel
    · rw [show 32767 / 31 = 1057 from rfl, Ne, hpow 1057 (by decide +kernel)]
      decide +kernel
    · rw [show 32767 / 151 = 217 from rfl, Ne, hpow 217 (by decide +kernel)]
      decide +kernel

open Polynomial in
theorem generator_eval_one : (generator crcPoly).eval 1 = 0 := by
  rw [generator_crcPoly]
  simp only [eval_add, eval_pow, eval_X, one_pow, eval_one]
  decide

/-! ## Accepted strings -/

/-- The test of `packet_process_byte`: a payload of so many bytes and its checksum, the high byte
first. -/
def Accepted (n : Nat) (w : List Byte) : Prop := crc16 (w.take n) = w.getD n 0 ++ w.getD (n + 1) 0

instance (n : Nat) (w : List Byte) : Decidable (Accepted n w) :=
  inferInstanceAs (Decidable (crc16 (w.take n) = w.getD n 0 ++ w.getD (n + 1) 0))

/-! ## The register -/

/-- The low byte of a word of the table has a bit at least as high as some bit of the index. -/
theorem crc16Tab_low : ∀ (byte : Byte) (s : Fin 8), byte <<< (8 - s.val) = 0 →
    (crc16Tab.getD byte.toNat 0).extractLsb' 0 8 >>> s.val = 0 → byte = 0 := by
  decide +kernel

/-- No other word of the table than the first one ends in a zero byte. -/
theorem crc16Tab_eq_append {byte high : Byte}
    (h : crc16Tab.getD byte.toNat 0 = high ++ 0#8) : byte = 0 ∧ high = 0 := by
  have hbyte : byte = 0 := by
    refine crc16Tab_low byte 0 (BitVec.shiftLeft_eq_zero (Nat.le_refl 8)) ?_
    rw [h, BitVec.extractLsb'_append_eq_right]
    rfl
  rw [hbyte] at h
  have hzero : (0#8 ++ 0#8 : Half) = high ++ 0#8 := h
  exact ⟨hbyte, ((append_eq_append_iff _ _ _ _).1 hzero).1.symm⟩

theorem crc16Step_xor (r s : Half) (a b : Byte) :
    crc16Step (r ^^^ s) (a ^^^ b) = crc16Step r a ^^^ crc16Step s b := by
  rw [← half_split r, ← half_split s]
  generalize r.extractLsb' 8 8 = high, r.extractLsb' 0 8 = low, s.extractLsb' 8 8 = high',
    s.extractLsb' 0 8 = low'
  have hindex : high ^^^ high' ^^^ (a ^^^ b) = (high ^^^ a) ^^^ (high' ^^^ b) := by ac_rfl
  have hlow : ((low ^^^ low') ++ 0#8 : Half) = (low ++ 0#8) ^^^ (low' ++ 0#8) := by
    rw [BitVec.xor_append, BitVec.xor_self]
  rw [BitVec.xor_append, crc16Step_append, crc16Step_append, crc16Step_append, hindex,
    crc16Tab_xor, hlow]
  ac_rfl

/-- The loop is linear. -/
theorem foldl_crc16Step_xor {w w' : List Byte} (hlength : w.length = w'.length) (r s : Half) :
    (List.zipWith (· ^^^ ·) w w').foldl crc16Step (r ^^^ s) =
      w.foldl crc16Step r ^^^ w'.foldl crc16Step s := by
  induction w generalizing w' r s with
  | nil =>
      rw [List.eq_nil_of_length_eq_zero hlength.symm]
      rfl
  | cons a w ih =>
      cases w' with
      | nil => exact absurd hlength (Nat.succ_ne_zero _)
      | cons b w' =>
          rw [List.zipWith_cons_cons, List.foldl_cons, crc16Step_xor,
            ih (Nat.succ_injective hlength)]
          rfl

/-- Only behind its own bytes nothing is left of a register. -/
theorem crc16Step_eq_zero_iff (r : Half) (high low : Byte) :
    crc16Step (crc16Step r high) low = 0 ↔ r = high ++ low := by
  constructor
  · intro hnone
    rw [← half_split r] at hnone ⊢
    generalize r.extractLsb' 8 8 = a, r.extractLsb' 0 8 = b at hnone ⊢
    rw [crc16Step_append] at hnone
    obtain ⟨word, hword⟩ : ∃ word, crc16Tab.getD (a ^^^ high).toNat 0 = word := ⟨_, rfl⟩
    rw [hword, ← half_split word, BitVec.xor_append, BitVec.xor_zero, crc16Step_append] at hnone
    -- the second byte has left nothing behind, and so the first one has not
    obtain ⟨hsecond, hlowzero⟩ := crc16Tab_eq_append (BitVec.xor_eq_zero_iff.1 hnone)
    rw [← half_split word, hlowzero] at hword
    obtain ⟨hfirst, hhighzero⟩ := crc16Tab_eq_append hword
    have hzero : b ^^^ low = 0 := by
      rw [← hsecond, hhighzero]
      exact congrArg (· ^^^ low) (BitVec.zero_xor).symm
    rw [BitVec.xor_eq_zero_iff.1 hfirst, BitVec.xor_eq_zero_iff.1 hzero]
  · rintro rfl
    exact crc16Step_self high low

theorem crc16Step_zero_iff (r : Half) : crc16Step r 0 = 0 ↔ r = 0 := by
  constructor
  · intro h
    refine (crc16Step_eq_zero_iff r 0 0).1 ?_
    rw [h]
    rfl
  · rintro rfl
    rfl

/-- Zeros neither leave a remainder nor take one away. -/
theorem foldl_zeros {bytes : List Byte} (hzeros : ∀ byte ∈ bytes, byte = 0) (r : Half) :
    bytes.foldl crc16Step r = 0 ↔ r = 0 := by
  induction bytes generalizing r with
  | nil => rfl
  | cons byte bytes ih =>
      rw [List.foldl_cons, ih fun byte hbyte => hzeros byte (List.mem_cons_of_mem _ hbyte),
        hzeros byte List.mem_cons_self, crc16Step_zero_iff]

theorem crc16Step_start (byte : Byte) : crc16Step 0 byte = crc16Tab.getD byte.toNat 0 := by
  have hstep := crc16Step_append 0#8 0#8 byte
  rw [BitVec.zero_xor, show (0#8 ++ 0#8 : Half) = 0#16 from rfl, BitVec.xor_zero] at hstep
  exact hstep

/-- Three bytes without a remainder that begin above some bit and end below it are zeros. -/
theorem crc16_three {a b c : Byte} (h : crc16 [a, b, c] = 0) (s : Fin 8)
    (ha : a <<< (8 - s.val) = 0) (hc : c >>> s.val = 0) : a = 0 ∧ b = 0 ∧ c = 0 := by
  have hword : crc16Tab.getD a.toNat 0 = b ++ c := by
    rw [← crc16Step_start, ← crc16Step_eq_zero_iff]
    exact h
  have hzero : a = 0 := by
    refine crc16Tab_low a s ha ?_
    rwa [hword, BitVec.extractLsb'_append_eq_right]
  rw [hzero] at hword
  have hbytes : (0#8 ++ 0#8 : Half) = b ++ c := hword
  obtain ⟨hb, hc⟩ := (append_eq_append_iff _ _ _ _).1 hbytes
  exact ⟨hzero, hb.symm, hc.symm⟩

theorem accepted_iff {n : Nat} {w : List Byte} (hlength : w.length = n + 2) :
    Accepted n w ↔ crc16 w = 0 := by
  have hdrop : (w.drop n).length = 2 := by
    rw [List.length_drop, hlength, Nat.add_sub_cancel_left]
  obtain ⟨high, low, hrest⟩ := List.length_eq_two.1 hdrop
  have hbyte (i : Nat) : w.getD (n + i) 0 = [high, low].getD i 0 := by
    rw [← hrest, List.getD_eq_getElem?_getD, List.getD_eq_getElem?_getD, List.getElem?_drop]
  have hhigh : w.getD n 0 = high := hbyte 0
  have hlow : w.getD (n + 1) 0 = low := hbyte 1
  rw [Accepted, hhigh, hlow, ← crc16Step_eq_zero_iff]
  conv_rhs => rw [← List.take_append_drop n w, hrest, List.append_cons, crc16_snoc, crc16_snoc]

theorem accepted_append (payload : List Byte) (high low : Byte) :
    Accepted payload.length (payload ++ [high, low]) ↔ crc16 payload = high ++ low := by
  have hlength : (payload ++ [high, low]).length = payload.length + 2 := List.length_append
  rw [accepted_iff hlength, List.append_cons, crc16_snoc, crc16_snoc, crc16Step_eq_zero_iff]

/-! ## The places of the errors -/

/-- The set bits of a string, each with the number of its byte and its significance in it. -/
def onesOf (e : List Byte) : Finset (Nat × Nat) :=
  (range e.length ×ˢ range 8).filter fun place => (e.getD place.1 0).getLsbD place.2

/-- The bits in which two strings differ. -/
def flipped (w w' : List Byte) : Finset (Nat × Nat) :=
  (range w.length ×ˢ range 8).filter fun place =>
    (w.getD place.1 0).getLsbD place.2 ≠ (w'.getD place.1 0).getLsbD place.2

/-- The number of a bit with the most significant bit of each byte first. -/
def highFirst (place : Nat × Nat) : Nat := 8 * place.1 + (7 - place.2)

/-- The number of a bit with the least significant bit of each byte first, as a serial line sends
them. -/
def lowFirst (place : Nat × Nat) : Nat := 8 * place.1 + place.2

/-- A burst of at most 16 bits in either order, an odd number of bits or two of them. -/
inductive LineError (places : Finset (Nat × Nat)) : Prop
  | burst (hsome : places.Nonempty) {start : Nat}
      (hspan : ∀ place ∈ places, start ≤ highFirst place ∧ highFirst place < start + 16)
  | lowBurst (hsome : places.Nonempty) {start : Nat}
      (hspan : ∀ place ∈ places, start ≤ lowFirst place ∧ lowFirst place < start + 16)
  | odd (hodd : Odd places.card)
  | pair (hpair : places.card = 2)

theorem getD_zipWith_xor {w w' : List Byte} (hlength : w.length = w'.length) (k : Nat) :
    (List.zipWith (· ^^^ ·) w w').getD k 0 = w.getD k 0 ^^^ w'.getD k 0 := by
  simp only [List.getD_eq_getElem?_getD, List.getElem?_zipWith]
  by_cases hk : k < w.length
  · rw [List.getElem?_eq_getElem hk, List.getElem?_eq_getElem (hlength ▸ hk)]
    rfl
  · rw [List.getElem?_eq_none (not_lt.1 hk), List.getElem?_eq_none (hlength ▸ not_lt.1 hk)]
    rfl

theorem flipped_eq {w w' : List Byte} (hlength : w.length = w'.length) :
    flipped w w' = onesOf (List.zipWith (· ^^^ ·) w w') := by
  rw [flipped, onesOf, List.length_zipWith, ← hlength, Nat.min_self]
  refine filter_congr fun place _ => ?_
  rw [getD_zipWith_xor hlength, BitVec.getLsbD_xor]
  exact bne_iff_ne.symm

/-- The power that a bit has in the polynomial of a string of so many bytes. -/
def exponent (length : Nat) (place : Nat × Nat) : Nat := 8 * (length - 1 - place.1) + place.2

/-- The bytes of a string, each with the power of its place. -/
theorem stringPoly_bitsOf (w : List Byte) :
    stringPoly (bitsOf w) =
      ∑ k ∈ range w.length, wordPoly (w.getD k 0) * Polynomial.X ^ (8 * (w.length - 1 - k)) := by
  induction w using List.reverseRecOn with
  | nil => rfl
  | append_singleton w byte ih =>
      rw [bitsOf_snoc, stringPoly_append, stringPoly_msbFirst, msbFirst_length, ih, sum_mul,
        List.length_append, List.length_singleton, sum_range_succ, Nat.add_sub_cancel]
      refine congrArg₂ (· + ·) (sum_congr rfl fun k hk => ?_) ?_
      · have hlt := mem_range.1 hk
        have hpow : 8 * (w.length - 1 - k) + 8 = 8 * (w.length - k) := by omega
        rw [List.getD_append _ _ _ _ hlt, mul_assoc, ← pow_add, hpow]
      · rw [Nat.sub_self, pow_zero, mul_one, List.getD_append_right _ _ _ _ (Nat.le_refl _),
          Nat.sub_self]
        rfl

theorem mem_onesOf_iff {e : List Byte} {place : Nat × Nat} :
    place ∈ onesOf e ↔ (e.getD place.1 0).getLsbD place.2 = true := by
  rw [onesOf, mem_filter, mem_product, mem_range, mem_range, and_iff_right_iff_imp]
  intro hset
  refine ⟨?_, BitVec.lt_of_getLsbD hset⟩
  by_contra hge
  rw [List.getD_eq_default _ _ (not_lt.1 hge)] at hset
  simp at hset

theorem mem_onesOf {e : List Byte} {place : Nat × Nat} (h : place ∈ onesOf e) :
    place.1 < e.length ∧ place.2 < 8 := by
  have hplace := mem_product.1 (mem_filter.1 h).1
  exact ⟨mem_range.1 hplace.1, mem_range.1 hplace.2⟩

theorem exponent_injOn (e : List Byte) :
    Set.InjOn (exponent e.length) (onesOf e) := by
  rintro ⟨k, j⟩ hplace ⟨k', j'⟩ hplace' hsame
  obtain ⟨hk, hj⟩ := mem_onesOf hplace
  obtain ⟨hk', hj'⟩ := mem_onesOf hplace'
  simp only [exponent] at hsame
  rw [Prod.mk.injEq]
  omega

/-- The polynomial of a string is the pattern of its set bits. -/
theorem stringPoly_onesOf (e : List Byte) :
    stringPoly (bitsOf e) = patternPoly ((onesOf e).image (exponent e.length)) := by
  rw [patternPoly, sum_image (exponent_injOn e), onesOf, sum_filter, sum_product,
    stringPoly_bitsOf]
  refine sum_congr rfl fun k hk => ?_
  rw [wordPoly_eq_patternPoly, patternPoly, sum_filter, sum_mul]
  refine sum_congr rfl fun j _ => ?_
  rw [ite_mul, zero_mul, ← pow_add, Nat.add_comm]
  rfl

/-- A string with two zeros behind it, by the numbers of its bytes. -/
theorem padded_eq (e : List Byte) :
    e ++ [0, 0] = (List.range (e.length + 2)).map fun k => e.getD k 0 := by
  refine List.ext_getElem (by simp) fun k hk _ => ?_
  rw [List.getElem_map, List.getElem_range]
  obtain hlt | hge := Nat.lt_or_ge k e.length
  · rw [List.getElem_append_left hlt, List.getD_eq_getElem _ _ hlt]
  · have hlength : k < e.length + 2 := by simpa using hk
    obtain ⟨i, rfl⟩ := Nat.exists_eq_add_of_le hge
    rw [List.getElem_append_right hge, List.getD_eq_default _ _ hge]
    obtain rfl | rfl : i = 0 ∨ i = 1 := by omega
    · simp
    · simp

/-- A string whose bytes are zeros but for three of them has no other remainder than those. -/
theorem crc16_middle {e : List Byte} {first : Nat} (hfirst : first < e.length)
    (hzeros : ∀ k, k < first ∨ first + 3 ≤ k → e.getD k 0 = 0) (h : crc16 e = 0) :
    crc16 [e.getD first 0, e.getD (first + 1) 0, e.getD (first + 2) 0] = 0 := by
  have hpadded : crc16 (e ++ [0, 0]) = 0 := by
    rw [List.append_cons, crc16_snoc, crc16_snoc, h]
    rfl
  obtain ⟨rest, hrest⟩ := Nat.exists_eq_add_of_le (Nat.succ_le_of_lt hfirst)
  have hlength : e.length + 2 = first + (3 + rest) := by omega
  have hfront : ((List.range first).map fun k => e.getD k 0).foldl crc16Step 0 = 0 := by
    rw [foldl_zeros]
    intro byte hbyte
    obtain ⟨k, hk, rfl⟩ := List.mem_map.1 hbyte
    exact hzeros k (.inl (List.mem_range.1 hk))
  have hback : ∀ byte ∈ (((List.range rest).map (3 + ·)).map (first + ·)).map
      fun k => e.getD k 0, byte = 0 := by
    intro byte hbyte
    rw [List.map_map, List.map_map] at hbyte
    obtain ⟨k, -, rfl⟩ := List.mem_map.1 hbyte
    exact hzeros _ (.inr (Nat.add_le_add_left (Nat.le_add_right 3 k) first))
  rw [padded_eq, hlength, List.range_add, List.range_add, List.map_append, List.map_append,
    List.map_append, crc16, List.foldl_append, List.foldl_append, foldl_zeros hback,
    hfront] at hpadded
  exact hpadded

theorem byte_eq_zero {byte : Byte} (h : ∀ j < 8, byte.getLsbD j = false) : byte = 0 :=
  BitVec.eq_of_getLsbD_eq fun j hj => (h j hj).trans BitVec.getLsbD_zero.symm

/-- A byte without bits below `s`, and one without bits above it. -/
theorem shiftLeft_eq_zero {byte : Byte} {s : Nat} (h : ∀ j < s, byte.getLsbD j = false) :
    byte <<< (8 - s) = 0 := by
  refine byte_eq_zero fun i hi => ?_
  rw [BitVec.getLsbD_shiftLeft]
  by_cases hlt : i < 8 - s
  · simp [hlt]
  · rw [h _ (by omega), Bool.and_false]

theorem ushiftRight_eq_zero {byte : Byte} {s : Nat} (h : ∀ j, s ≤ j → byte.getLsbD j = false) :
    byte >>> s = 0 := by
  refine byte_eq_zero fun i _ => ?_
  rw [BitVec.getLsbD_ushiftRight]
  exact h _ (Nat.le_add_right s i)

/-- Counted from the least significant bits a burst reaches over three bytes. -/
theorem crc16_lowBurst {e : List Byte} (hsome : (onesOf e).Nonempty) {start : Nat}
    (hspan : ∀ place ∈ onesOf e, start ≤ lowFirst place ∧ lowFirst place < start + 16) :
    crc16 e ≠ 0 := by
  intro hcrc
  have hbit {k j : Nat} (hset : (e.getD k 0).getLsbD j = true) :
      j < 8 ∧ start ≤ 8 * k + j ∧ 8 * k + j < start + 16 := by
    have hj : j < 8 := BitVec.lt_of_getLsbD hset
    exact ⟨hj, hspan (k, j) (mem_onesOf_iff.2 hset)⟩
  have hclear {k j : Nat} (hout : 8 * k + j < start ∨ start + 16 ≤ 8 * k + j) :
      (e.getD k 0).getLsbD j = false := by
    rw [← Bool.not_eq_true]
    intro hset
    have hin := hbit hset
    omega
  have hzeros {k : Nat} (hk : k < start / 8 ∨ start / 8 + 3 ≤ k) : e.getD k 0 = 0 := by
    refine byte_eq_zero fun j hj => hclear ?_
    omega
  obtain ⟨⟨k, j⟩, hplace⟩ := hsome
  have hset := mem_onesOf_iff.1 hplace
  have hfirst : start / 8 < e.length := by
    have hbyte := (mem_onesOf hplace).1
    have hin := hbit hset
    dsimp only at hbyte hin
    omega
  have hbegin : e.getD (start / 8) 0 <<< (8 - start % 8) = 0 :=
    shiftLeft_eq_zero fun j hj => hclear (by omega)
  have hend : e.getD (start / 8 + 2) 0 >>> (start % 8) = 0 :=
    ushiftRight_eq_zero fun j hj => hclear (by omega)
  obtain ⟨ha, hb, hc⟩ := crc16_three (crc16_middle hfirst (fun k hk => hzeros hk) hcrc)
    ⟨start % 8, Nat.mod_lt _ (by decide)⟩ hbegin hend
  have hnone : e.getD k 0 = 0 := by
    obtain hk | rfl | rfl | rfl : (k < start / 8 ∨ start / 8 + 3 ≤ k) ∨ k = start / 8 ∨
        k = start / 8 + 1 ∨ k = start / 8 + 2 := by omega
    · exact hzeros hk
    · exact ha
    · exact hb
    · exact hc
  rw [hnone] at hset
  exact Bool.noConfusion (BitVec.getLsbD_zero.symm.trans hset)

/-! ## Detection -/

/-- A string without a remainder has one again exactly if its errors have one. -/
theorem crc16_flipped {w w' : List Byte} (hlength : w.length = w'.length) (h : crc16 w = 0) :
    crc16 w' = 0 ↔ crc16 (List.zipWith (· ^^^ ·) w w') = 0 := by
  have hxor : crc16 (List.zipWith (· ^^^ ·) w w') = crc16 w ^^^ crc16 w' :=
    foldl_crc16Step_xor hlength 0 0
  rw [hxor, h]
  exact iff_of_eq (congrArg (· = 0) (BitVec.zero_xor).symm)

theorem crc16_eq_zero_iff (e : List Byte) :
    crc16 e = 0 ↔
      generator crcPoly ∣ patternPoly ((onesOf e).image (exponent e.length)) := by
  rw [crc16_remainder, remainder_eq_zero_iff (by decide) (by decide), stringPoly_onesOf]

/-- In a burst the powers lie as close to each other as the bits. -/
theorem not_dvd_highBurst {e : List Byte} (hsome : (onesOf e).Nonempty) {start : Nat}
    (hspan : ∀ place ∈ onesOf e, start ≤ highFirst place ∧ highFirst place < start + 16) :
    ¬generator crcPoly ∣ patternPoly ((onesOf e).image (exponent e.length)) := by
  have hwindow : ∀ i ∈ (onesOf e).image (exponent e.length),
      8 * e.length - (start + 16) ≤ i ∧ i < 8 * e.length - (start + 16) + 16 := by
    intro i hi
    obtain ⟨place, hplace, rfl⟩ := mem_image.1 hi
    obtain ⟨hbyte, hbit⟩ := mem_onesOf hplace
    obtain ⟨hlow, hhigh⟩ := hspan place hplace
    simp only [highFirst, exponent] at hlow hhigh ⊢
    omega
  exact not_dvd_burst (by decide) (by decide) (hsome.image _) hwindow

theorem not_dvd_oddErrors {e : List Byte} (hodd : Odd (onesOf e).card) :
    ¬generator crcPoly ∣ patternPoly ((onesOf e).image (exponent e.length)) := by
  refine not_dvd_odd generator_eval_one ?_
  rwa [card_image_of_injOn (exponent_injOn e)]

/-- Two bits of a packet are closer to each other than the order of the root. -/
theorem not_dvd_twoErrors {e : List Byte} (hlength : e.length ≤ packetMaxPlLen + 2)
    (hpair : (onesOf e).card = 2) :
    ¬generator crcPoly ∣ patternPoly ((onesOf e).image (exponent e.length)) := by
  refine not_dvd_pair (by decide) (by decide) ?_ fun i hi => ?_
  · rwa [card_image_of_injOn (exponent_injOn e)]
  · obtain ⟨place, hplace, rfl⟩ := mem_image.1 hi
    obtain ⟨hbyte, hbit⟩ := mem_onesOf hplace
    rw [orderOf_crcPoly]
    simp only [packetMaxPlLen, exponent] at hlength ⊢
    omega

/-- A packet that passes the test does not pass it any more with a burst of at most 16 bits, with
an odd number of errors or with two of them. -/
theorem not_accepted_of_lineError {n : Nat} (hmax : n ≤ packetMaxPlLen) {w w' : List Byte}
    (hlength : w.length = n + 2) (hlength' : w'.length = n + 2) (haccepted : Accepted n w)
    (herror : LineError (flipped w w')) : ¬Accepted n w' := by
  have hsame : w.length = w'.length := hlength.trans hlength'.symm
  rw [accepted_iff hlength] at haccepted
  rw [accepted_iff hlength', crc16_flipped hsame haccepted]
  rw [flipped_eq hsame] at herror
  have hshort : (List.zipWith (· ^^^ ·) w w').length ≤ packetMaxPlLen + 2 := by
    rw [List.length_zipWith, ← hsame, Nat.min_self, hlength]
    exact Nat.add_le_add_right hmax 2
  cases herror with
  | burst hsome hspan =>
      rw [crc16_eq_zero_iff]
      exact not_dvd_highBurst hsome hspan
  | lowBurst hsome hspan => exact crc16_lowBurst hsome hspan
  | odd hodd =>
      rw [crc16_eq_zero_iff]
      exact not_dvd_oddErrors hodd
  | pair hpair =>
      rw [crc16_eq_zero_iff]
      exact not_dvd_twoErrors hshort hpair

theorem not_accepted_of_lineError_one :
    (1 ≤ packetMaxPlLen ∧ Accepted 1 [0x2A, 0x85, 0x28] ∧
      LineError (flipped [0x2A, 0x85, 0x28] [0x2A, 0x85, 0x29])) ∧
      ¬Accepted 1 [0x2A, 0x85, 0x29] :=
  have hmax : 1 ≤ packetMaxPlLen := by decide
  have haccepted : Accepted 1 [0x2A, 0x85, 0x28] := by decide
  have herror : LineError (flipped [0x2A, 0x85, 0x28] [0x2A, 0x85, 0x29]) :=
    .odd (by decide)
  ⟨⟨hmax, haccepted, herror⟩, not_accepted_of_lineError hmax rfl rfl haccepted herror⟩

/-- At the end of a packet the receiver delivers what passes the test. -/
theorem Handler.processByte_accepted {h : Handler} (hstate : h.rxState = 6) (data : Byte) :
    (h.processByte data).2 ≠ [] ↔
      data = 3 ∧ Accepted h.payloadLength (h.received ++ [h.crcHigh, h.crcLow]) ∧
        h.processFunc := by
  rw [← received_length, accepted_append]
  simp only [Handler.processByte, hstate]
  split
  next hall => exact ⟨fun _ => hall, fun _ => List.cons_ne_nil _ _⟩
  next hnone => exact ⟨fun hne => absurd rfl hne, fun hall => absurd hall hnone⟩

end Bldc.Link
