import Mathlib.Data.Rat.Defs
import Bldc.Flash.Memory

/-!
# Byte buffers

Numbers in packets are big endian. A float travels as an integer times a scale;
floats are exact rationals here.
-/

namespace Bldc.Link

open Flash

/-- The bytes behind a pointer. -/
abbrev Buffer := Nat → Byte

/-- `memcpy` of `n` bytes to offset `start` of a buffer. -/
def memcpy (dst : Buffer) (start : Nat) (src : Buffer) (n : Nat) : Buffer :=
  fun x => if start ≤ x ∧ x < start + n then src (x - start) else dst x

/-- The first `len` bytes. -/
def bytesOf (buffer : Buffer) (len : Nat) : List Byte := (List.range len).map buffer

/-- `buffer_get_uint16`. -/
def bufferGetUint16 (buffer : Buffer) (index : Nat) : Half := buffer index ++ buffer (index + 1)

/-- `buffer_get_int16`. -/
def bufferGetInt16 (buffer : Buffer) (index : Nat) : Int := (bufferGetUint16 buffer index).toInt

/-- `buffer_get_uint32`. -/
def bufferGetUint32 (buffer : Buffer) (index : Nat) : Word :=
  bufferGetUint16 buffer index ++ bufferGetUint16 buffer (index + 2)

/-- `buffer_get_int32`. -/
def bufferGetInt32 (buffer : Buffer) (index : Nat) : Int := (bufferGetUint32 buffer index).toInt

/-- `buffer_get_float16`. -/
def bufferGetFloat16 (buffer : Buffer) (scale : Rat) (index : Nat) : Rat :=
  (bufferGetInt16 buffer index : Rat) / scale

/-- `buffer_get_float32`. -/
def bufferGetFloat32 (buffer : Buffer) (scale : Rat) (index : Nat) : Rat :=
  (bufferGetInt32 buffer index : Rat) / scale

/-- The conversion of a float to an integer: towards zero. -/
def truncate (number : Rat) : Int := number.num.tdiv number.den

/-- `buffer_append_uint16`: the bytes it appends. -/
def bufferAppendUint16 (number : Half) : List Byte :=
  [number.extractLsb' 8 8, number.extractLsb' 0 8]

/-- `buffer_append_int16`. -/
def bufferAppendInt16 (number : Int) : List Byte := bufferAppendUint16 (BitVec.ofInt 16 number)

/-- `buffer_append_uint32`. -/
def bufferAppendUint32 (number : Word) : List Byte :=
  bufferAppendUint16 (number.extractLsb' 16 16) ++ bufferAppendUint16 (number.extractLsb' 0 16)

/-- `buffer_append_int32`. -/
def bufferAppendInt32 (number : Int) : List Byte := bufferAppendUint32 (BitVec.ofInt 32 number)

/-- `buffer_append_float16`. -/
def bufferAppendFloat16 (number scale : Rat) : List Byte :=
  bufferAppendInt16 (truncate (number * scale))

/-- `buffer_append_float32`. -/
def bufferAppendFloat32 (number scale : Rat) : List Byte :=
  bufferAppendInt32 (truncate (number * scale))

@[simp] theorem bytesOf_length (buffer : Buffer) (len : Nat) :
    (bytesOf buffer len).length = len := by
  simp [bytesOf]

/-- The buffers are the same in their first `n` bytes. -/
def Agree (n : Nat) (buffer buffer' : Buffer) : Prop := ∀ i < n, buffer i = buffer' i

section Agree

variable {n : Nat} {buffer buffer' : Buffer}

theorem Agree.mono {m : Nat} (h : Agree n buffer buffer') (hm : m ≤ n) : Agree m buffer buffer' :=
  fun i hi => h i (by omega)

/-- What is behind an offset. -/
theorem Agree.shift {m : Nat} (h : Agree n buffer buffer') (k : Nat) (hm : k + m ≤ n) :
    Agree m (fun i => buffer (k + i)) fun i => buffer' (k + i) :=
  fun i hi => h (k + i) (by omega)

theorem bytesOf_congr {len : Nat} (h : Agree len buffer buffer') :
    bytesOf buffer len = bytesOf buffer' len := by
  apply List.map_congr_left
  intro i hi
  exact h i (List.mem_range.1 hi)

theorem bufferGetUint16_congr {index : Nat} (h : Agree n buffer buffer') (hn : index + 2 ≤ n) :
    bufferGetUint16 buffer index = bufferGetUint16 buffer' index := by
  rw [bufferGetUint16, bufferGetUint16, h index (by omega), h (index + 1) (by omega)]

theorem bufferGetInt16_congr {index : Nat} (h : Agree n buffer buffer') (hn : index + 2 ≤ n) :
    bufferGetInt16 buffer index = bufferGetInt16 buffer' index := by
  rw [bufferGetInt16, bufferGetInt16, bufferGetUint16_congr h hn]

theorem bufferGetUint32_congr {index : Nat} (h : Agree n buffer buffer') (hn : index + 4 ≤ n) :
    bufferGetUint32 buffer index = bufferGetUint32 buffer' index := by
  rw [bufferGetUint32, bufferGetUint32, bufferGetUint16_congr h (by omega),
    bufferGetUint16_congr h (by omega)]

theorem bufferGetInt32_congr {index : Nat} (h : Agree n buffer buffer') (hn : index + 4 ≤ n) :
    bufferGetInt32 buffer index = bufferGetInt32 buffer' index := by
  rw [bufferGetInt32, bufferGetInt32, bufferGetUint32_congr h hn]

theorem bufferGetFloat32_congr {index : Nat} (scale : Rat) (h : Agree n buffer buffer')
    (hn : index + 4 ≤ n) :
    bufferGetFloat32 buffer scale index = bufferGetFloat32 buffer' scale index := by
  rw [bufferGetFloat32, bufferGetFloat32, bufferGetInt32_congr h hn]

end Agree

/-- A buffer with the bytes from `start` to `stop` taken from another at the same
place. -/
def patched (buffer data : Buffer) (start stop : Nat) : Buffer :=
  fun x => if start ≤ x ∧ x < stop then data x else buffer x

/-- From `index` on the buffer holds the bytes. -/
def Holds (buffer : Buffer) (index : Nat) (bytes : List Byte) : Prop :=
  bytesOf (fun k => buffer (index + k)) bytes.length = bytes

section Holds

variable {buffer : Buffer} {index : Nat}

@[simp] theorem holds_nil : Holds buffer index [] := rfl

@[simp] theorem holds_cons {byte : Byte} {bytes : List Byte} :
    Holds buffer index (byte :: bytes) ↔ buffer index = byte ∧ Holds buffer (index + 1) bytes := by
  have hshift : bytesOf (fun k => buffer (index + 1 + k)) bytes.length =
      (List.range bytes.length).map ((fun k => buffer (index + k)) ∘ Nat.succ) := by
    apply List.map_congr_left
    intro k _
    exact congrArg buffer (by simp only [Nat.succ_eq_add_one]; omega)
  rw [Holds, Holds, hshift, bytesOf, List.length_cons, List.range_succ_eq_map, List.map_cons,
    List.map_map, List.cons.injEq, Nat.add_zero]

@[simp] theorem holds_append {bytes rest : List Byte} :
    Holds buffer index (bytes ++ rest) ↔
      Holds buffer index bytes ∧ Holds buffer (index + bytes.length) rest := by
  induction bytes generalizing index with
  | nil => simp
  | cons byte bytes ih => simp [ih, and_assoc, Nat.add_assoc, Nat.add_comm 1]

/-- A buffer with nothing but the bytes. -/
def ofBytes (bytes : List Byte) : Buffer := fun i => bytes.getD i 0

theorem holds_ofBytes (bytes : List Byte) : Holds (ofBytes bytes) 0 bytes := by
  apply List.ext_getElem
  · simp
  · intro i _ hi
    simp [bytesOf, ofBytes, hi]

/-- The halfword at the place it was written to. -/
theorem bufferGetUint16_of_holds {number : Half}
    (h : Holds buffer index (bufferAppendUint16 number)) :
    bufferGetUint16 buffer index = number := by
  simp only [bufferAppendUint16, holds_cons, holds_nil, and_true] at h
  rw [bufferGetUint16, h.1, h.2]
  ext i hi
  simp only [BitVec.getElem_append, BitVec.getElem_extractLsb']
  split
  next => simp [BitVec.getLsbD_eq_getElem hi]
  next hge => simp [show 8 + (i - 8) = i by omega, BitVec.getLsbD_eq_getElem hi]

theorem bufferGetUint32_of_holds {number : Word}
    (h : Holds buffer index (bufferAppendUint32 number)) :
    bufferGetUint32 buffer index = number := by
  obtain ⟨hhigh, hlow⟩ := holds_append.1 h
  have hlow' : bufferGetUint16 buffer (index + 2) = number.extractLsb' 0 16 :=
    bufferGetUint16_of_holds hlow
  rw [bufferGetUint32, bufferGetUint16_of_holds hhigh, hlow']
  ext i hi
  simp only [BitVec.getElem_append, BitVec.getElem_extractLsb']
  split
  next => simp [BitVec.getLsbD_eq_getElem hi]
  next hge => simp [show 16 + (i - 16) = i by omega, BitVec.getLsbD_eq_getElem hi]

end Holds

/-- The numbers of an `int32_t`. -/
def InInt32 (number : Int) : Prop := -2147483648 ≤ number ∧ number ≤ 2147483647

instance (number : Int) : Decidable (InInt32 number) := by
  unfold InInt32
  infer_instance

theorem inInt32_toInt (number : Word) : InInt32 number.toInt := by
  have hle := BitVec.le_toInt number
  have hlt := BitVec.toInt_lt (x := number)
  constructor <;> omega

theorem bufferGetInt32_of_holds {buffer : Buffer} {index : Nat} {number : Int}
    (h : Holds buffer index (bufferAppendInt32 number)) (hnumber : InInt32 number) :
    bufferGetInt32 buffer index = number := by
  rw [bufferGetInt32, bufferGetUint32_of_holds h, BitVec.toInt_ofInt]
  obtain ⟨hmin, hmax⟩ := hnumber
  exact Int.bmod_eq_of_le (by omega) (by omega)

/-- A number truncated towards zero to a multiple of `1 / scale`. -/
def toScale (scale number : Rat) : Rat := truncate (number * scale) / scale

theorem bufferGetFloat32_of_holds {buffer : Buffer} {index : Nat} {number scale : Rat}
    (h : Holds buffer index (bufferAppendFloat32 number scale))
    (hnumber : InInt32 (truncate (number * scale))) :
    bufferGetFloat32 buffer scale index = toScale scale number := by
  rw [bufferGetFloat32, bufferGetInt32_of_holds h hnumber, toScale]

@[simp] theorem truncate_intCast (number : Int) : truncate number = number := by
  simp [truncate]

/-- A number at its scale is encoded as before. -/
theorem truncate_toScale_mul {scale : Rat} (hscale : scale ≠ 0) (number : Rat) :
    truncate (toScale scale number * scale) = truncate (number * scale) := by
  rw [toScale, Rat.div_mul_cancel hscale, truncate_intCast]

end Bldc.Link
