import Bldc.Foundation.Remainder
import Bldc.Link.Crc

/-!
# What the checksum is

The table of `crc16` holds the remainders of the single bytes, and the loop puts them
together to the remainder of the whole buffer. A buffer that ends with its own checksum
leaves no remainder.
-/

namespace Bldc.Link

open Flash Foundation

/-- `x ^ 12 + x ^ 5 + 1`, which the generator adds to `x ^ 16`. -/
def crcPoly : Half := 0x1021

/-- The bits of a buffer, the most significant bit of each byte first. -/
def bitsOf (buf : List Byte) : List Bool := buf.flatMap msbFirst

theorem bitsOf_snoc (buf : List Byte) (byte : Byte) :
    bitsOf (buf ++ [byte]) = bitsOf buf ++ msbFirst byte := by
  simp [bitsOf]

/-! ## The table -/

/-- A word of the table is what is left of its index after eight more zeros. -/
theorem crc16Tab_eq_shifts (byte : Byte) :
    crc16Tab.getD byte.toNat 0 = shifts crcPoly 8 (byte ++ 0#8) := by
  revert byte
  decide +kernel

/-- A byte that comes into an empty register stays there. -/
theorem divideBits_byte (byte : Byte) : divideBits crcPoly 0 (msbFirst byte) = 0#8 ++ byte := by
  revert byte
  decide +kernel

theorem shiftLeft_append (high low : Byte) : (high ++ low : Half) <<< 8 = low ++ 0#8 := by
  ext i hi
  grind

theorem shifts_low (byte : Byte) : shifts crcPoly 8 (0#8 ++ byte) = byte ++ 0#8 := by
  rw [shifts_of_clear, shiftLeft_append]
  intro i hi
  rw [BitVec.getMsbD_append]
  simp [hi]

/-- It is the remainder of its index. -/
theorem remainder_byte (byte : Byte) :
    remainder crcPoly (msbFirst byte) = crc16Tab.getD byte.toNat 0 := by
  have htwice : shifts crcPoly (8 + 8) (0#8 ++ byte) = shifts crcPoly 8 (byte ++ 0#8) := by
    rw [shifts_add, shifts_low]
  rw [remainder_eq, divideBits_byte, crc16Tab_eq_shifts]
  exact htwice

/-- A register, byte by byte. -/
theorem shifts_register (high low : Byte) :
    shifts crcPoly 8 (high ++ low) = crc16Tab.getD high.toNat 0 ^^^ (low ++ 0#8) := by
  have hsplit : (high ++ low : Half) = (high ++ 0#8) ^^^ (0#8 ++ low) := by
    rw [BitVec.xor_append, BitVec.xor_zero, BitVec.zero_xor]
  rw [hsplit, shifts_xor, shifts_low, crc16Tab_eq_shifts]

theorem crc16Tab_xor (a b : Byte) :
    crc16Tab.getD (a ^^^ b).toNat 0 = crc16Tab.getD a.toNat 0 ^^^ crc16Tab.getD b.toNat 0 := by
  have hsplit : ((a ^^^ b) ++ 0#8 : Half) = (a ++ 0#8) ^^^ (b ++ 0#8) := by
    rw [BitVec.xor_append, BitVec.xor_self]
  rw [crc16Tab_eq_shifts, hsplit, shifts_xor, crc16Tab_eq_shifts, crc16Tab_eq_shifts]

/-! ## The loop -/

/-- The index that a round takes is the high byte with the next byte of the buffer. -/
theorem crc16Step_append (high low byte : Byte) :
    crc16Step (high ++ low) byte =
      crc16Tab.getD (high ^^^ byte).toNat 0 ^^^ (low ++ 0#8) := by
  have hindex : (((high ++ low : Half) >>> 8) ^^^ byte.setWidth 16) &&& 0xFF =
      0#8 ++ (high ^^^ byte) := by
    refine (BitVec.and_setWidth_allOnes 8 8 _).trans (congrArg (0#8 ++ ·) ?_)
    apply BitVec.eq_of_getLsbD_eq
    intro i hi
    rw [BitVec.getLsbD_setWidth, BitVec.getLsbD_xor, BitVec.getLsbD_ushiftRight,
      BitVec.getLsbD_append, BitVec.getLsbD_setWidth, BitVec.getLsbD_xor]
    simp [hi, show i < 16 by omega]
  have hnat : (0#8 ++ (high ^^^ byte)).toNat = (high ^^^ byte).toNat := by
    rw [BitVec.toNat_append]
    exact Nat.zero_or _
  rw [crc16Step, hindex, shiftLeft_append, hnat]

theorem crc16_snoc (buf : List Byte) (byte : Byte) :
    crc16 (buf ++ [byte]) = crc16Step (crc16 buf) byte := by
  rw [crc16, List.foldl_append]
  rfl

/-- A round is the division of eight more bits. -/
theorem crc16Step_remainder (bits : List Bool) (byte : Byte) :
    crc16Step (remainder crcPoly bits) byte = remainder crcPoly (bits ++ msbFirst byte) := by
  rw [remainder_append, msbFirst_length, remainder_byte,
    ← half_split (remainder crcPoly bits), crc16Step_append, shifts_register, crc16Tab_xor,
    BitVec.xor_assoc, BitVec.xor_assoc, BitVec.xor_comm (crc16Tab.getD byte.toNat 0)]

theorem crc16_remainder (buf : List Byte) : crc16 buf = remainder crcPoly (bitsOf buf) := by
  induction buf using List.reverseRecOn with
  | nil => decide +kernel
  | append_singleton buf byte ih => rw [crc16_snoc, ih, crc16Step_remainder, bitsOf_snoc]

/-- Behind its own bytes, high byte first, nothing is left of a register. -/
theorem crc16Step_self (high low : Byte) : crc16Step (crc16Step (high ++ low) high) low = 0 := by
  have hzero : crc16Tab.getD (0#8).toNat 0 = 0#16 := rfl
  rw [crc16Step_append, BitVec.xor_self, hzero, BitVec.zero_xor, crc16Step_append,
    BitVec.xor_self, hzero, BitVec.zero_xor]
  rfl

/-- `crc16` is the remainder it claims to be, and a buffer with its checksum leaves none. -/
theorem crc16_spec (buf : List Byte) :
    crc16 buf = remainder crcPoly (bitsOf buf) ∧
      crc16 (buf ++ [(crc16 buf).extractLsb' 8 8, (crc16 buf).extractLsb' 0 8]) = 0 := by
  refine ⟨crc16_remainder buf, ?_⟩
  rw [List.append_cons, crc16_snoc, crc16_snoc]
  nth_rewrite 1 [← half_split (crc16 buf)]
  exact crc16Step_self _ _

/-! ## Polynomials -/

noncomputable section

open Polynomial

/-- `x ^ 16 + x ^ 12 + x ^ 5 + 1`. -/
theorem generator_crcPoly : generator crcPoly = X ^ 16 + X ^ 12 + X ^ 5 + 1 := by
  have hbits : crcPoly = BitVec.twoPow 16 12 ^^^ BitVec.twoPow 16 5 ^^^ BitVec.twoPow 16 0 := by
    decide
  rw [generator, hbits, wordPoly_xor, wordPoly_xor, wordPoly_twoPow (by decide),
    wordPoly_twoPow (by decide), wordPoly_twoPow (by decide), pow_zero, add_assoc, add_assoc,
    add_assoc]

/-- The checksum is the remainder of the polynomial of the buffer, times `x ^ 16`. -/
theorem crc16_polynomial (buf : List Byte) :
    wordPoly (crc16 buf) =
      (stringPoly (bitsOf buf) * X ^ 16) %ₘ (X ^ 16 + X ^ 12 + X ^ 5 + 1) := by
  rw [crc16_remainder, wordPoly_remainder crcPoly (by decide), generator_crcPoly]

end

end Bldc.Link
