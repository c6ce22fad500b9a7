import Mathlib.Data.BitVec
import Mathlib.Data.Fin.VecNotation
import Bldc.Foundation.Program

/-!
# The flash of the controller

Flash is byte addressed. Programming can only clear bits, so it is the bitwise
AND with what is already there; erasing sets a whole sector to ones. Both are
atomic operations of a device whose status values are those of the vendor's
peripheral library.
-/

namespace Bldc.Flash

open Foundation

abbrev Byte := BitVec 8
abbrev Half := BitVec 16
abbrev Word := BitVec 32

/-- Contents of the address space of the flash. -/
abbrev Memory := Nat → Byte

/-- `FLASH_Status`. -/
inductive Status where
  | busy
  | errorRd
  | errorPgs
  | errorPgp
  | errorPga
  | errorWrp
  | errorProgram
  | errorOperation
  | complete
  deriving DecidableEq, Repr

/-- One of the `FLASH_SECTORS` sectors. -/
abbrev Sector := Fin 12

/-- `flash_addr`: base address of every sector. -/
def flashAddr : Sector → Nat :=
  ![0x08000000, 0x08004000, 0x08008000, 0x0800C000, 0x08010000, 0x08020000,
    0x08040000, 0x08060000, 0x08080000, 0x080A0000, 0x080C0000, 0x080E0000]

/-- First address after every sector. -/
def sectorEnd : Sector → Nat :=
  ![0x08004000, 0x08008000, 0x0800C000, 0x08010000, 0x08020000, 0x08040000,
    0x08060000, 0x08080000, 0x080A0000, 0x080C0000, 0x080E0000, 0x08100000]

/-- `flash_helper_get_sector_address`. -/
def getSectorAddress (sector : Sector) : Nat := flashAddr sector

/-- Halfwords and words are stored little endian. -/
def Memory.half (memory : Memory) (address : Nat) : Half :=
  memory (address + 1) ++ memory address

def Memory.word (memory : Memory) (address : Nat) : Word :=
  memory.half (address + 2) ++ memory.half address

inductive Op where
  | programByte (address : Nat) (data : Byte)
  | programHalfWord (address : Nat) (data : Half)
  | eraseSector (sector : Sector)
  deriving DecidableEq, Repr

def Memory.programByte (memory : Memory) (address : Nat) (data : Byte) : Memory :=
  fun x => if x = address then memory x &&& data else memory x

def Memory.programHalfWord (memory : Memory) (address : Nat) (data : Half) : Memory :=
  fun x =>
    if x = address then memory x &&& data.extractLsb' 0 8
    else if x = address + 1 then memory x &&& data.extractLsb' 8 8
    else memory x

def Memory.eraseSector (memory : Memory) (sector : Sector) : Memory :=
  fun x => if flashAddr sector ≤ x ∧ x < sectorEnd sector then 0xFF else memory x

def perform : Op → Memory → Memory
  | .programByte address data, memory => memory.programByte address data
  | .programHalfWord address data, memory => memory.programHalfWord address data
  | .eraseSector sector, memory => memory.eraseSector sector

theorem half_split (data : Half) : data.extractLsb' 8 8 ++ data.extractLsb' 0 8 = data :=
  (BitVec.extractLsb'_append_extractLsb'_eq_extractLsb' (x := data) rfl).trans
    (BitVec.extractLsb'_eq_self)

theorem append_eq_append_iff {w v : Nat} (high high' : BitVec w) (low low' : BitVec v) :
    high ++ low = high' ++ low' ↔ high = high' ∧ low = low' := by
  constructor
  · intro h
    refine ⟨?_, ?_⟩
    · simpa only [BitVec.extractLsb'_append_eq_left] using congrArg (BitVec.extractLsb' v w) h
    · simpa only [BitVec.extractLsb'_append_eq_right] using congrArg (BitVec.extractLsb' 0 v) h
  · rintro ⟨rfl, rfl⟩
    rfl

theorem word_eq_ones_iff (memory : Memory) (address : Nat) :
    memory.word address = 0xFFFFFFFF ↔
      memory.half address = 0xFFFF ∧ memory.half (address + 2) = 0xFFFF := by
  have hones : (0xFFFFFFFF : Word) = (0xFFFF : Half) ++ (0xFFFF : Half) := by decide
  unfold Memory.word
  rw [hones, append_eq_append_iff]
  exact and_comm

@[simp] theorem half_programHalfWord_self (memory : Memory) (address : Nat) (data : Half) :
    (memory.programHalfWord address data).half address = memory.half address &&& data := by
  conv => rhs; rw [← half_split data]
  simp only [Memory.half, Memory.programHalfWord, Nat.add_eq_left, one_ne_zero, if_false, if_true]
  exact BitVec.and_append.symm

/-- Programming one halfword leaves every halfword that does not overlap it. -/
theorem half_programHalfWord_of_ne (memory : Memory) {address other : Nat} (data : Half)
    (h : other + 2 ≤ address ∨ address + 2 ≤ other) :
    (memory.programHalfWord address data).half other = memory.half other := by
  have h1 : other ≠ address := by omega
  have h2 : other ≠ address + 1 := by omega
  have h3 : other + 1 ≠ address := by omega
  simp [Memory.half, Memory.programHalfWord, h1, h2, h3]

theorem half_eraseSector_of_mem (memory : Memory) {sector : Sector} {address : Nat}
    (hlow : flashAddr sector ≤ address) (hhigh : address + 2 ≤ sectorEnd sector) :
    (memory.eraseSector sector).half address = 0xFFFF := by
  have h1 : flashAddr sector ≤ address + 1 ∧ address + 1 < sectorEnd sector := by omega
  have h2 : flashAddr sector ≤ address ∧ address < sectorEnd sector := by omega
  simp only [Memory.half, Memory.eraseSector, if_pos h1, if_pos h2]
  decide

theorem half_eraseSector_of_not_mem (memory : Memory) {sector : Sector} {address : Nat}
    (h : address + 2 ≤ flashAddr sector ∨ sectorEnd sector ≤ address) :
    (memory.eraseSector sector).half address = memory.half address := by
  have h1 : ¬(flashAddr sector ≤ address + 1 ∧ address + 1 < sectorEnd sector) := by omega
  have h2 : ¬(flashAddr sector ≤ address ∧ address < sectorEnd sector) := by omega
  simp only [Memory.half, Memory.eraseSector, if_neg h1, if_neg h2]

theorem byte_eq_ones_of_half (memory : Memory) (address : Nat)
    (h : memory.half address = 0xFFFF) :
    memory address = 0xFF ∧ memory (address + 1) = 0xFF := by
  have hones : (0xFFFF : Half) = (0xFF : Byte) ++ (0xFF : Byte) := by decide
  rw [Memory.half, hones, append_eq_append_iff] at h
  exact h.symm

end Bldc.Flash
