import Bldc.Foundation.Shift
import Bldc.Flash.Memory

/-!
# The SPI bus in software

The driver of the radio moves the lines of its SPI bus bit by bit. It exchanges whole bytes with
a device that takes its bits in when the clock rises.
-/

namespace Bldc.Link

open Flash Foundation

/-- The lines of the bus, with the device at their end. -/
structure SpiLines (σ : Type) where
  device : σ
  sck : Bool
  mosi : Bool

/-- `send` and `recieve` in the loop of a transfer. -/
structure SpiShift (σ : Type) (w : Nat) where
  lines : SpiLines σ
  send : BitVec w
  recieve : BitVec w

section Model

variable {σ : Type} (D : ShiftDevice σ)

/-- `palSetPad` at the clock. -/
def SpiLines.setSck (s : SpiLines σ) : SpiLines σ :=
  if s.sck then s else { s with device := D.raise s.device s.mosi, sck := true }

/-- `palClearPad` at the clock. -/
def SpiLines.clearSck (s : SpiLines σ) : SpiLines σ :=
  if s.sck then { s with device := D.lower s.device s.mosi, sck := false } else s

/-- `palReadPad`. -/
def SpiLines.readMiso (s : SpiLines σ) : Bool := D.output s.device

/-- One round of the inner loop in `spi_sw_transfer`. -/
def spiSwBit (s : SpiShift σ 8) : SpiShift σ 8 :=
  let lines := { s.lines with mosi := (s.send >>> 7).getLsbD 0 }
  let send := s.send <<< 1
  let recieve := s.recieve <<< 1
  let recieve := if lines.readMiso D then recieve ||| 1 else recieve
  ⟨(lines.setSck D).clearSck D, send, recieve⟩

/-- One byte in `spi_sw_transfer`: the lines after it, and `in_buf[i]`. -/
def spiSwByte (lines : SpiLines σ) (send : Byte) : SpiLines σ × Byte :=
  let s := (List.range 8).foldl (fun s _ => spiSwBit D s) ⟨lines, send, 0⟩
  (s.lines, s.recieve)

/-- `out_buf ? out_buf[i] : 0`. -/
def outByte (outBuf : Option (List Byte)) (i : Nat) : Byte :=
  match outBuf with
  | some buf => buf.getD i 0
  | none => 0

/-- `spi_sw_transfer`: the lines after it, and `in_buf`. -/
def spiSwTransfer (lines : SpiLines σ) (outBuf : Option (List Byte)) (length : Nat) :
    SpiLines σ × List Byte :=
  (List.range length).foldl
    (fun s i =>
      let r := spiSwByte D s.1 (outByte outBuf i)
      (r.1, s.2 ++ [r.2]))
    (lines.clearSck D, [])

/-- `spi_sw_begin`. -/
def spiSwBegin (lines : SpiLines σ) : SpiLines σ := { lines with device := D.select lines.device }

/-- `spi_sw_end`. -/
def spiSwEnd (lines : SpiLines σ) : SpiLines σ := { lines with device := D.deselect lines.device }

end Model

/-! ## One byte -/

section Proof

variable {τ : Type} {d : WordDevice 8 τ}

theorem recieve_eq_shiftIn {w : Nat} (x : BitVec w) (bit : Bool) :
    (if bit then x <<< 1 ||| 1 else x <<< 1) = shiftIn x bit := by
  apply BitVec.eq_of_getLsbD_eq
  intro i hi
  cases bit <;> simp [shiftIn, hi]

/-- A round exchanges one bit. -/
theorem spiSwBit_after (state : τ) (word : Byte) {count : Nat} (h : count < 8) (mosi : Bool) :
    ∃ level, spiSwBit d.leading
        ⟨⟨.after state word count, false, mosi⟩, word <<< count, d.reply state >>> (8 - count)⟩ =
      ⟨⟨d.turn (.after state word (count + 1)), false, level⟩, word <<< (count + 1),
        d.reply state >>> (8 - (count + 1))⟩ := by
  refine ⟨word.getLsbD (8 - 1 - count), ?_⟩
  have hbit : ((word <<< count) >>> 7).getLsbD 0 = word.getLsbD (8 - 1 - count) := by
    rw [BitVec.getLsbD_ushiftRight]
    exact msb_shiftLeft word h
  have hmiso : (SpiLines.mk (InWord.after state word count) false
      (word.getLsbD (8 - 1 - count))).readMiso d.leading =
        (d.reply state).getLsbD (8 - 1 - count) :=
    WordDevice.leading_output state word count
  unfold spiSwBit
  dsimp only
  rw [hbit, hmiso, recieve_eq_shiftIn, shiftIn_ushiftRight _ h]
  simp [SpiLines.setSck, SpiLines.clearSck, WordDevice.leading_period state word h rfl,
    BitVec.shiftLeft_add]

/-- The rounds of a byte. -/
theorem foldl_spiSwBit (state : τ) (word : Byte) (mosi : Bool) {count : Nat} (h : count ≤ 8) :
    ∃ level, (List.range count).foldl (fun s _ => spiSwBit d.leading s)
        ⟨⟨.between 8 state, false, mosi⟩, word, 0⟩ =
      ⟨⟨d.turn (.after state word count), false, level⟩, word <<< count,
        d.reply state >>> (8 - count)⟩ := by
  induction count with
  | zero => exact ⟨mosi, by simp [WordDevice.after_zero, WordDevice.turn, InWord.between]⟩
  | succ count ih =>
      rcases ih (Nat.le_of_succ_le h) with ⟨level, hrounds⟩
      have hwithin : d.turn (.after state word count) = .after state word count := by
        unfold WordDevice.turn
        exact if_neg (show ¬count = 8 by omega)
      rw [List.range_succ, List.foldl_append, hrounds, hwithin]
      exact spiSwBit_after state word h level

theorem spiSwByte_between (state : τ) (word : Byte) (mosi : Bool) :
    ∃ level, spiSwByte d.leading ⟨.between 8 state, false, mosi⟩ word =
      (⟨.between 8 (d.next state word), false, level⟩, d.reply state) := by
  rcases foldl_spiSwBit (d := d) state word mosi (le_refl 8) with ⟨level, hrounds⟩
  refine ⟨level, ?_⟩
  unfold spiSwByte
  rw [hrounds, WordDevice.turn_after state word 7]
  simp

/-! ## Transfers -/

/-- The bytes that are sent. -/
def sentBytes (outBuf : Option (List Byte)) (length : Nat) : List Byte :=
  (List.range length).map (outByte outBuf)

theorem sentBytes_some (buf : List Byte) : sentBytes (some buf) buf.length = buf := by
  apply List.ext_getElem
  · simp [sentBytes]
  · intro i hi hi'
    simp [sentBytes, outByte, hi']

theorem sentBytes_none (length : Nat) : sentBytes none length = List.replicate length 0 := by
  apply List.ext_getElem <;> simp [sentBytes, outByte]

theorem spiSwTransfer_succ {σ : Type} (D : ShiftDevice σ) (lines : SpiLines σ)
    (outBuf : Option (List Byte)) (length : Nat) :
    spiSwTransfer D lines outBuf (length + 1) =
      let s := spiSwTransfer D lines outBuf length
      let r := spiSwByte D s.1 (outByte outBuf length)
      (r.1, s.2 ++ [r.2]) := by
  unfold spiSwTransfer
  rw [List.range_succ, List.foldl_append]
  rfl

/-- A transfer exchanges its bytes with any device of this mode, and leaves the clock low and the
device between two bytes. -/
theorem spiSwTransfer_exchanges (d : WordDevice 8 τ) (state : τ) (mosi : Bool)
    (outBuf : Option (List Byte)) (length : Nat) :
    ∃ level, spiSwTransfer d.leading ⟨.between 8 state, false, mosi⟩ outBuf length =
      (⟨.between 8 (d.exchange state (sentBytes outBuf length)).1, false, level⟩,
        (d.exchange state (sentBytes outBuf length)).2) := by
  induction length with
  | zero => exact ⟨mosi, rfl⟩
  | succ length ih =>
      rcases ih with ⟨level, htransfer⟩
      have hsent : sentBytes outBuf (length + 1) =
          sentBytes outBuf length ++ [outByte outBuf length] := by
        simp [sentBytes, List.range_succ]
      rcases spiSwByte_between (d := d) (d.exchange state (sentBytes outBuf length)).1
        (outByte outBuf length) level with ⟨level', hbyte⟩
      refine ⟨level', ?_⟩
      rw [spiSwTransfer_succ, htransfer, hsent]
      dsimp only
      rw [hbyte, WordDevice.exchange_append]
      rfl

end Proof

end Bldc.Link
