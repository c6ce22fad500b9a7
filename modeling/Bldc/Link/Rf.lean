import Bldc.Foundation.Session
import Bldc.Link.Buffer
import Bldc.Link.Spi

/-!
# The registers of the radio

The driver asks the radio for one frame after the other. A frame goes over the lines of the SPI
bus, and its first byte is a command. What the radio does with the frames is not part of the
driver; it relies on the registers keeping what is written to them.
-/

namespace Bldc.Link

open Flash Foundation

/-- What the driver asks for: a command alone, a command with bytes that are sent or read, and
a millisecond in which the radio is left to itself. -/
inductive RfRequest where
  | command (cmd : Byte)
  | frame (cmd : Byte) (outBuf : Option (List Byte)) (length : Nat)
  | sleep
  deriving DecidableEq

/-- A radio, as it exchanges bytes, and what becomes of it in a millisecond. -/
structure RfChip (τ : Type) extends WordDevice 8 τ where
  wait : τ → τ

namespace RfChip

variable {τ : Type} (chip : RfChip τ)

/-- A frame of whole bytes, with the bytes that come back. -/
def exchangeFrame (state : τ) (bytes : List Byte) : τ × List Byte :=
  let r := chip.exchange (chip.select state) bytes
  (chip.deselect r.1, r.2)

/-- The radio, if whole bytes are exchanged. -/
def overBytes : Responder τ RfRequest (List Byte)
  | state, .command cmd => chip.exchangeFrame state [cmd]
  | state, .frame cmd outBuf length => chip.exchangeFrame state (cmd :: sentBytes outBuf length)
  | state, .sleep => (chip.wait state, [])

/-- The radio at the end of its lines. -/
def overLines : Responder (SpiLines (InWord 8 τ)) RfRequest (List Byte)
  | lines, .command cmd =>
      let r := spiSwTransfer chip.leading (spiSwBegin chip.leading lines) (some [cmd]) 1
      (spiSwEnd chip.leading r.1, r.2)
  | lines, .frame cmd outBuf length =>
      let r := spiSwTransfer chip.leading (spiSwBegin chip.leading lines) (some [cmd]) 1
      let r' := spiSwTransfer chip.leading r.1 outBuf length
      (spiSwEnd chip.leading r'.1, r.2 ++ r'.2)
  | lines, .sleep => ({ lines with device.state := chip.wait lines.device.state }, [])

end RfChip

/-- The lines are at rest, and the radio is in this state. -/
def AtRest {τ : Type} (lines : SpiLines (InWord 8 τ)) (state : τ) : Prop :=
  lines.sck = false ∧ lines.device = .between 8 state

/-- What the driver does with the radio. -/
abbrev Rf : Type → Type := Session RfRequest (List Byte)

/-! ## Over the lines -/

section Lines

variable {τ : Type} {chip : RfChip τ}

theorem begin_atRest {lines : SpiLines (InWord 8 τ)} {state : τ} (h : AtRest lines state) :
    spiSwBegin chip.leading lines = ⟨.between 8 (chip.select state), false, lines.mosi⟩ := by
  rcases lines with ⟨device, sck, mosi⟩
  rcases h with ⟨hsck, hdevice⟩
  dsimp only at hsck hdevice
  subst hsck hdevice
  rfl

theorem end_atRest (state : τ) (level : Bool) :
    AtRest (spiSwEnd chip.leading ⟨.between 8 state, false, level⟩) (chip.deselect state) :=
  ⟨rfl, rfl⟩

theorem overLines_atRest {lines : SpiLines (InWord 8 τ)} {state : τ} (h : AtRest lines state)
    (request : RfRequest) :
    AtRest (chip.overLines lines request).1 (chip.overBytes state request).1 ∧
      (chip.overLines lines request).2 = (chip.overBytes state request).2 := by
  have hone (cmd : Byte) : sentBytes (some [cmd]) 1 = [cmd] := rfl
  cases request with
  | command cmd =>
      rcases spiSwTransfer_exchanges chip.toWordDevice (chip.select state) lines.mosi
        (some [cmd]) 1 with ⟨level, hcmd⟩
      unfold RfChip.overLines RfChip.overBytes RfChip.exchangeFrame
      dsimp only
      rw [begin_atRest h, hcmd, hone]
      exact ⟨end_atRest _ level, rfl⟩
  | frame cmd outBuf length =>
      rcases spiSwTransfer_exchanges chip.toWordDevice (chip.select state) lines.mosi
        (some [cmd]) 1 with ⟨level, hcmd⟩
      rcases spiSwTransfer_exchanges chip.toWordDevice
        (chip.exchange (chip.select state) [cmd]).1 level outBuf length with ⟨level', hdata⟩
      have happend := WordDevice.exchange_append (d := chip.toWordDevice) (chip.select state)
        [cmd] (sentBytes outBuf length)
      unfold RfChip.overLines RfChip.overBytes RfChip.exchangeFrame
      dsimp only
      rw [begin_atRest h, hcmd, hone]
      dsimp only
      rw [List.singleton_append] at happend
      rw [hdata, happend]
      exact ⟨end_atRest _ level', rfl⟩
  | sleep =>
      rcases h with ⟨hsck, hdevice⟩
      unfold RfChip.overLines RfChip.overBytes
      refine ⟨⟨hsck, ?_⟩, rfl⟩
      simp [hdevice, InWord.between]

/-- Whatever is done with the radio over its lines is what is done if whole bytes are
exchanged. -/
theorem rf_overLines {α : Type} (chip : RfChip τ) (session : Rf α)
    {lines : SpiLines (InWord 8 τ)} {state : τ} (h : AtRest lines state) :
    AtRest (session.run chip.overLines lines).2 (session.run chip.overBytes state).2 ∧
      (session.run chip.overLines lines).1 = (session.run chip.overBytes state).1 :=
  Session.run_related (Q := AtRest) (fun _ _ request hsame => overLines_atRest hsame request)
    session h

end Lines

/-- A device that sends each byte back with the next one. -/
def RfChip.echo : RfChip Byte := ⟨⟨id, id, id, fun _ word => word⟩, id⟩

theorem rf_overLines_echo :
    let session : Rf (List Byte) :=
      (Session.request (.frame 1 (some [2, 3]) 2)).bind fun reply =>
        .request (.command (reply.headD 0))
    let lines : SpiLines (InWord 8 Byte) := ⟨.between 8 7, false, true⟩
    AtRest (session.run RfChip.echo.overLines lines).2 (session.run RfChip.echo.overBytes 7).2 ∧
      (session.run RfChip.echo.overLines lines).1 = (session.run RfChip.echo.overBytes 7).1 :=
  rf_overLines RfChip.echo _ ⟨rfl, rfl⟩

/-! ## Registers -/

theorem pipe0_lt : 0 < 6 := by decide

/-- The first of the pipes. -/
def pipe0 : Fin 6 := ⟨0, pipe0_lt⟩

/-- The registers that the driver uses. -/
inductive NrfReg where
  | config
  | enAa
  | enRxaddr
  | setupAw
  | setupRetr
  | rfCh
  | rfSetup
  | status
  | rxAddr (pipe : Fin 6)
  | txAddr
  | dynpd
  | feature
  deriving DecidableEq, Repr

namespace NrfReg

def code : NrfReg → Byte
  | config => 0x00
  | enAa => 0x01
  | enRxaddr => 0x02
  | setupAw => 0x03
  | setupRetr => 0x04
  | rfCh => 0x05
  | rfSetup => 0x06
  | status => 0x07
  | rxAddr pipe => 0x0A + BitVec.ofNat 8 pipe
  | txAddr => 0x10
  | dynpd => 0x1C
  | feature => 0x1D

/-- The registers that keep what is written to them, of any of their sizes. -/
def kept : NrfReg → Bool
  | status => false
  | rxAddr pipe => pipe = pipe0
  | _ => true

/-- The bytes of a register. -/
def size : NrfReg → Nat
  | rxAddr _ | txAddr => 5
  | _ => 1

/-- The bits of each byte that the driver uses. -/
def used : NrfReg → Byte
  | config => 0x7F
  | enAa | enRxaddr | dynpd => 0x3F
  | setupAw => 0x03
  | rfCh => 0x7F
  | rfSetup => 0x2E
  | feature => 0x07
  | setupRetr | rxAddr _ | txAddr => 0xFF
  | status => 0

end NrfReg

/-- `NRF_CMD_READ_REGISTER` and the other commands. -/
def nrfCmdReadRegister : Byte := 0x00

def nrfCmdWriteRegister : Byte := 0x20

def nrfCmdReadRxPayload : Byte := 0x61

def nrfCmdWriteTxPayload : Byte := 0xA0

def nrfCmdFlushTx : Byte := 0xE1

def nrfCmdFlushRx : Byte := 0xE2

def nrfCmdReadRxPayloadWidth : Byte := 0x60

def nrfCmdWriteTxPayloadNoAck : Byte := 0xB0

def nrfCmdNop : Byte := 0xFF

/-- `rf_write_reg`. -/
def rfWriteReg (reg : NrfReg) (data : List Byte) : Rf Unit := do
  let _ ← Session.request (.frame (nrfCmdWriteRegister ||| reg.code) (some data) data.length)

/-- `rf_write_reg_byte`. -/
def rfWriteRegByte (reg : NrfReg) (data : Byte) : Rf Unit := rfWriteReg reg [data]

/-- `rf_read_reg`. The first byte that comes back is not read. -/
def rfReadReg (reg : NrfReg) (len : Nat) : Rf (List Byte) := do
  let reply ← Session.request (.frame (nrfCmdReadRegister ||| reg.code) none len)
  return reply.tail

/-- `rf_read_reg_byte`. -/
def rfReadRegByte (reg : NrfReg) : Rf Byte := do
  let result ← rfReadReg reg 1
  return result.headD 0

/-- A byte of a register is written anew if it changes. -/
def rfUpdate (reg : NrfReg) (change : Byte → Byte) : Rf Unit := do
  let regOld ← rfReadRegByte reg
  if regOld ≠ change regOld then rfWriteRegByte reg (change regOld)

/-- Bits of a register are set if they are not all set. -/
def rfSetBits (reg : NrfReg) (bits : Byte) : Rf Unit := do
  let tmp ← rfReadRegByte reg
  if tmp &&& bits ≠ bits then rfWriteRegByte reg (tmp ||| bits)

/-- A bit of a register is cleared if it is set. -/
def rfClearBits (reg : NrfReg) (bits : Byte) : Rf Unit := do
  let tmp ← rfReadRegByte reg
  if tmp &&& bits ≠ 0 then rfWriteRegByte reg (tmp &&& ~~~bits)

/-- `NRF_RF_SETUP_RF_DR_LOW` and the other masks. -/
def nrfRfSetupRfDrLow : Byte := 0x20

def nrfRfSetupRfDrHigh : Byte := 0x08

def nrfRfSetupRfPwr : Byte := 0x06

def nrfConfigPrimRx : Byte := 0x01

def nrfConfigPwrUp : Byte := 0x02

def nrfConfigCrco : Byte := 0x04

def nrfConfigEnCrc : Byte := 0x08

def nrfFeatureDynAck : Byte := 0x01

def nrfFeatureDpl : Byte := 0x04

def nrfSetupRetrArc : Byte := 0x0F

def nrfSetupRetrArd : Byte := 0xF0

def nrfMaskPipe0 : Byte := 0x01

def nrfStatusMaxRt : Byte := 0x10

def nrfStatusTxDs : Byte := 0x20

def nrfStatusRxDr : Byte := 0x40

def nrfStatusIrq : Byte := nrfStatusMaxRt ||| nrfStatusTxDs ||| nrfStatusRxDr

/-- `rf_set_speed`. -/
def rfSetSpeed (speed : Byte) : Rf Unit :=
  rfUpdate .rfSetup fun regOld =>
    regOld &&& ~~~(nrfRfSetupRfDrLow ||| nrfRfSetupRfDrHigh) |||
      -- `NRF_SPEED_250K` and `NRF_SPEED_2M`
      (if speed = 0 then nrfRfSetupRfDrLow else if speed = 2 then nrfRfSetupRfDrHigh else 0)

/-- `rf_set_power`. The lowest bit is for another radio. -/
def rfSetPower (power : Byte) : Rf Unit :=
  rfUpdate .rfSetup fun regOld =>
    regOld &&& ~~~(nrfRfSetupRfPwr ||| 1) ||| (power <<< 1 ||| if power = 3 then 1 else 0)

/-- `rf_set_address_width`. -/
def rfSetAddressWidth (aw : Byte) : Rf Unit := rfWriteRegByte .setupAw (aw + 1)

/-- `rf_set_crc_type`. -/
def rfSetCrcType (crcType : Byte) : Rf Unit :=
  rfUpdate .config fun regOld =>
    regOld &&& ~~~(nrfConfigCrco ||| nrfConfigEnCrc) |||
      -- `NRF_CRC_1B` and `NRF_CRC_2B`
      (if crcType = 1 then nrfConfigEnCrc
        else if crcType = 2 then nrfConfigEnCrc ||| nrfConfigCrco
        else 0)

/-- `rf_set_retr_retries`. -/
def rfSetRetrRetries (retries : Byte) : Rf Unit :=
  rfUpdate .setupRetr fun regOld => regOld &&& ~~~nrfSetupRetrArc ||| retries &&& 0xF

/-- `rf_set_retr_delay`. -/
def rfSetRetrDelay (delay : Byte) : Rf Unit :=
  rfUpdate .setupRetr fun regOld => regOld &&& ~~~nrfSetupRetrArd ||| (delay &&& 0xF) <<< 4

/-- `rf_set_rx_addr`. -/
def rfSetRxAddr (pipe : Fin 6) (address : Buffer) (addrLen : Nat) : Rf Unit :=
  rfWriteReg (.rxAddr pipe) (bytesOf address addrLen)

/-- `rf_set_tx_addr`. -/
def rfSetTxAddr (address : Buffer) (addrLen : Nat) : Rf Unit :=
  rfWriteReg .txAddr (bytesOf address addrLen)

/-- `rf_write_tx_payload`. -/
def rfWriteTxPayload (data : List Byte) : Rf Unit := do
  let _ ← Session.request (.frame nrfCmdWriteTxPayload (some data) data.length)

/-- `rf_write_tx_payload_no_ack`. -/
def rfWriteTxPayloadNoAck (data : List Byte) : Rf Unit := do
  let _ ← Session.request (.frame nrfCmdWriteTxPayloadNoAck (some data) data.length)

/-- `rf_read_rx_payload`. -/
def rfReadRxPayload (length : Nat) : Rf (List Byte) := do
  let reply ← Session.request (.frame nrfCmdReadRxPayload none length)
  return reply.tail

/-- `rf_set_frequency`. -/
def rfSetFrequency (freq : Int) : Rf Unit :=
  rfWriteRegByte .rfCh (BitVec.ofInt 8 (freq - 2400) &&& 0x7F)

/-- `rf_power_up` and `rf_power_down`. -/
def rfPowerUp : Rf Unit := rfSetBits .config nrfConfigPwrUp

def rfPowerDown : Rf Unit := rfClearBits .config nrfConfigPwrUp

/-- `rf_mode_tx` and `rf_mode_rx`. -/
def rfModeTx : Rf Unit := rfClearBits .config nrfConfigPrimRx

def rfModeRx : Rf Unit := rfSetBits .config nrfConfigPrimRx

/-- `rf_enable_pipe_autoack`. -/
def rfEnablePipeAutoack (pipes : Byte) : Rf Unit := rfSetBits .enAa pipes

/-- `rf_enable_pipe_address`. -/
def rfEnablePipeAddress (pipes : Byte) : Rf Unit := rfSetBits .enRxaddr pipes

/-- `rf_enable_pipe_dlp`. -/
def rfEnablePipeDlp (pipes : Byte) : Rf Unit := rfSetBits .dynpd pipes

/-- `rf_enable_features`. -/
def rfEnableFeatures (features : Byte) : Rf Unit := rfSetBits .feature features

/-- `rf_flush_all`: `rf_flush_rx` and `rf_flush_tx`. -/
def rfFlushAll : Rf Unit := do
  let _ ← Session.request (.command nrfCmdFlushRx)
  let _ ← Session.request (.command nrfCmdFlushTx)

/-- `rf_clear_irq`, `rf_clear_rx_irq` and `rf_clear_maxrt_irq`. -/
def rfClearIrq : Rf Unit := rfWriteRegByte .status nrfStatusIrq

def rfClearRxIrq : Rf Unit := rfWriteRegByte .status nrfStatusRxDr

def rfClearMaxrtIrq : Rf Unit := rfWriteRegByte .status nrfStatusMaxRt

/-- `rf_get_payload_width`. -/
def rfGetPayloadWidth : Rf Byte := do
  let reply ← Session.request (.frame nrfCmdReadRxPayloadWidth none 1)
  return reply.tail.headD 0

/-- `rf_status`: what comes back for the command itself. -/
def rfStatus : Rf Byte := do
  let reply ← Session.request (.command nrfCmdNop)
  return reply.headD 0

end Bldc.Link
