import Bldc.Conf.Record
import Bldc.Link.Nrf
import Bldc.Link.Radio
import Mathlib.Tactic.IntervalCases

/-!
# The radio between its users

The helper functions of the radio keep its address and its configuration. A payload is sent in
the transmit mode, and to hear the acknowledgement the radio listens on the address that it
sends to. All of this is undone afterwards.
-/

namespace Bldc.Link

open Flash Foundation Conf

/-- The variables of the helper functions. -/
structure Rfhelp where
  rxAddr : Fin 6 → Buffer
  txAddr : Buffer
  addressLength : Nat
  txPipe0AddrEq : Bool
  nrfConf : NrfConfig

/-- Bytes that are read into the beginning of a buffer. -/
def storeBytes (dst : Buffer) (data : List Byte) : Buffer :=
  memcpy dst 0 (fun i => data.getD i 0) data.length

namespace Rfhelp

variable (s : Rfhelp)

/-- `memcmp(rx_addr[0], tx_addr, address_length) == 0`. -/
def addrEq : Bool := bytesOf (s.rxAddr pipe0) s.addressLength = bytesOf s.txAddr s.addressLength

/-- `rfhelp_init`. Every pipe gets the address of the first one. -/
def rfhelpInit : Rf Rfhelp := do
  let s := { s with addressLength := 3 }
  let rxAddr ← (List.finRange 6).foldlM
    (fun (rxAddr : Fin 6 → Buffer) pipe => do
      let data ← rfReadReg (.rxAddr pipe0) s.addressLength
      return Function.update rxAddr pipe (storeBytes (rxAddr pipe) data)) s.rxAddr
  let data ← rfReadReg .txAddr s.addressLength
  let s := { s with rxAddr := rxAddr, txAddr := storeBytes s.txAddr data }
  return { s with txPipe0AddrEq := s.addrEq }

/-- `nrf_conf.address`. -/
def confAddress : Buffer := fun i => if h : i < 3 then s.nrfConf.address ⟨i, h⟩ else 0

/-- `rfhelp_restart`. -/
def rfhelpRestart : Rf Rfhelp := do
  rfPowerDown
  rfWriteRegByte .enRxaddr 0
  rfWriteRegByte .dynpd 0
  rfSetCrcType s.nrfConf.crcType
  rfSetRetrRetries s.nrfConf.retries
  rfSetRetrDelay s.nrfConf.retryDelay
  rfSetPower s.nrfConf.power
  rfSetSpeed s.nrfConf.speed
  rfSetAddressWidth 0
  rfSetFrequency (2400 + s.nrfConf.channel.toNat)
  rfEnableFeatures (nrfFeatureDpl ||| nrfFeatureDynAck)
  rfEnablePipeAutoack nrfMaskPipe0
  rfEnablePipeAddress nrfMaskPipe0
  rfEnablePipeDlp nrfMaskPipe0
  let s := { s with
    txAddr := memcpy s.txAddr 0 s.confAddress 3
    rxAddr := Function.update s.rxAddr pipe0 (memcpy (s.rxAddr pipe0) 0 s.confAddress 3)
    txPipe0AddrEq := true }
  rfSetTxAddr s.txAddr s.addressLength
  rfSetRxAddr pipe0 (s.rxAddr pipe0) s.addressLength
  rfPowerUp
  rfModeRx
  rfFlushAll
  rfClearIrq
  return s

/-- `rfhelp_update_conf`, after the initialisation. -/
def rfhelpUpdateConf (conf : NrfConfig) : Rf Rfhelp := { s with nrfConf := conf }.rfhelpRestart

/-- The loop in `rfhelp_send_data`, with what is left of `timeout`. -/
def awaitSent : Nat → Rf Int
  | 0 => return -2
  | timeout + 1 => do
      let status ← rfStatus
      let _ ← Session.request .sleep
      if status &&& nrfStatusTxDs ≠ 0 then return 0
      else if status &&& nrfStatusMaxRt ≠ 0 then
        rfClearMaxrtIrq
        return -1
      else awaitSent timeout

/-- `rfhelp_send_data`. -/
def rfhelpSendData (data : List Byte) (ack : Bool) : Rf Int := do
  rfModeTx
  rfClearIrq
  rfFlushAll
  if ¬s.txPipe0AddrEq ∧ ack then rfSetRxAddr pipe0 s.txAddr s.addressLength
  if ack then rfWriteTxPayload data else rfWriteTxPayloadNoAck data
  let retval ← awaitSent 60
  if ¬s.txPipe0AddrEq ∧ ack then rfSetRxAddr pipe0 (s.rxAddr pipe0) s.addressLength
  rfModeRx
  return retval

/-- The number of the pipe in `rf_status`. -/
def rxPipe (status : Byte) : Byte := (status &&& 0x0E) >>> 1

/-- `rfhelp_read_rx_data`: what is read from the radio. -/
def rfhelpReadRx : Rf RfRead := do
  let status ← rfStatus
  if rxPipe status = 7 then return .noData
  else
    let width ← rfGetPayloadWidth
    if width.toNat ≤ 32 then
      let data ← rfReadRxPayload width.toNat
      rfClearRxIrq
      let status ← rfStatus
      return .payload width (fun i => data.getD i 0) (rxPipe status ≠ 7)
    else return .payload width (fun _ => 0) false

/-- `rfhelp_set_tx_addr`. -/
def rfhelpSetTxAddr (addr : Buffer) (addrLen : Nat) : Rf Rfhelp := do
  let s := { s with txAddr := memcpy s.txAddr 0 addr addrLen, addressLength := addrLen }
  let s := { s with txPipe0AddrEq := s.addrEq }
  rfSetTxAddr s.txAddr s.addressLength
  return s

/-- `rfhelp_set_rx_addr`. -/
def rfhelpSetRxAddr (pipe : Fin 6) (addr : Buffer) (addrLen : Nat) : Rf Rfhelp := do
  let s := { s with
    rxAddr := Function.update s.rxAddr pipe (memcpy (s.rxAddr pipe) 0 addr addrLen)
    addressLength := addrLen }
  let s := { s with txPipe0AddrEq := s.addrEq }
  rfSetRxAddr pipe addr s.addressLength
  return s

end Rfhelp

inductive RfhelpStep where
  | restart
  | updateConf (conf : NrfConfig)
  | sendData (data : List Byte) (ack : Bool)
  | sendDataCrc (data : List Byte)
  | readRxData
  | rfStatus
  | setTxAddr (addr : Buffer) (addrLen : Nat)
  | setRxAddr (pipe : Fin 6) (addr : Buffer) (addrLen : Nat)
  | powerDown
  | powerUp
  -- the radio is left to itself
  | sleep

/-- What the helper functions do, each of them under the lock. -/
def RfhelpStep.session (s : Rfhelp) : RfhelpStep → Rf Rfhelp
  | restart => s.rfhelpRestart
  | updateConf conf => s.rfhelpUpdateConf conf
  | sendData data ack => do
      let _ ← s.rfhelpSendData data ack
      return s
  | sendDataCrc data => do
      let _ ← s.rfhelpSendData (rfhelpSendDataCrc data) s.nrfConf.sendCrcAck
      return s
  | readRxData => do
      let _ ← Rfhelp.rfhelpReadRx
      return s
  | rfStatus => do
      let _ ← Link.rfStatus
      return s
  | setTxAddr addr addrLen => s.rfhelpSetTxAddr addr addrLen
  | setRxAddr pipe addr addrLen => s.rfhelpSetRxAddr pipe addr addrLen
  | powerDown => do
      rfPowerDown
      return s
  | powerUp => do
      rfPowerUp
      return s
  | sleep => do
      let _ ← Session.request .sleep
      return s

/-- `nrf_driver_init` and the first `rfhelp_restart`. -/
def Rfhelp.start (s : Rfhelp) : Rf Rfhelp := do
  let s ← s.rfhelpInit
  s.rfhelpRestart

/-! ## What holds between the operations -/

/-- The registers are as the configuration says. -/
structure Configured (conf : NrfConfig) (v : View) : Prop where
  crc : v .config 0 &&& (nrfConfigEnCrc ||| nrfConfigCrco) =
    if conf.crcType = 1 then nrfConfigEnCrc
    else if conf.crcType = 2 then nrfConfigEnCrc ||| nrfConfigCrco
    else 0
  autoack : v .enAa 0 &&& nrfMaskPipe0 = nrfMaskPipe0
  pipes : v .enRxaddr 0 = nrfMaskPipe0
  width : v .setupAw 0 = 1
  retr : v .setupRetr 0 = (conf.retryDelay &&& 0xF) <<< 4 ||| conf.retries &&& 0xF
  channel : v .rfCh 0 = conf.channel &&& 0x7F
  speed : v .rfSetup 0 &&& (nrfRfSetupRfDrLow ||| nrfRfSetupRfDrHigh) =
    if conf.speed = 0 then nrfRfSetupRfDrLow else if conf.speed = 2 then nrfRfSetupRfDrHigh else 0
  power : v .rfSetup 0 &&& nrfRfSetupRfPwr = conf.power <<< 1 &&& nrfRfSetupRfPwr
  lengths : v .dynpd 0 = nrfMaskPipe0
  features : v .feature 0 &&& (nrfFeatureDpl ||| nrfFeatureDynAck) =
    nrfFeatureDpl ||| nrfFeatureDynAck

/-- What is asked when a payload is sent: the radio transmits, and it hears the acknowledgement
that is asked for. -/
def SentRight (v : View) : RfRequest → Prop
  | .frame cmd _ _ =>
      (cmd = nrfCmdWriteTxPayload ∨ cmd = nrfCmdWriteTxPayloadNoAck →
        v .config 0 &&& nrfConfigPrimRx = 0) ∧
      (cmd = nrfCmdWriteTxPayload → ∀ i < 3, v (.rxAddr pipe0) i = v .txAddr i)
  | _ => True

/-! ## Requests -/

/-- A request that is no payload. -/
def Harmless : RfRequest → Prop
  | .frame cmd _ _ => cmd ≠ nrfCmdWriteTxPayload ∧ cmd ≠ nrfCmdWriteTxPayloadNoAck
  | _ => True

variable {τ : Type} {chip : Nrf τ}

/-- Only the mode, the power and the addresses change after the setup. -/
theorem Configured.congr {conf : NrfConfig} {v v' : View} (h : Configured conf v)
    (hcrc : v' .config 0 &&& (nrfConfigEnCrc ||| nrfConfigCrco) =
      v .config 0 &&& (nrfConfigEnCrc ||| nrfConfigCrco))
    (hsame : ∀ r, r.kept → r ≠ .config → r ≠ .txAddr → r ≠ .rxAddr pipe0 → v' r 0 = v r 0) :
    Configured conf v' := by
  constructor
  case crc => rw [hcrc, h.crc]
  case autoack => rw [hsame .enAa rfl (by decide) (by decide) (by decide), h.autoack]
  case pipes => rw [hsame .enRxaddr rfl (by decide) (by decide) (by decide), h.pipes]
  case width => rw [hsame .setupAw rfl (by decide) (by decide) (by decide), h.width]
  case retr => rw [hsame .setupRetr rfl (by decide) (by decide) (by decide), h.retr]
  case channel => rw [hsame .rfCh rfl (by decide) (by decide) (by decide), h.channel]
  case speed => rw [hsame .rfSetup rfl (by decide) (by decide) (by decide), h.speed]
  case power => rw [hsame .rfSetup rfl (by decide) (by decide) (by decide), h.power]
  case lengths => rw [hsame .dynpd rfl (by decide) (by decide) (by decide), h.lengths]
  case features => rw [hsame .feature rfl (by decide) (by decide) (by decide), h.features]

/-- The registers after that. -/
def View.receiving (v : View) (s : Rfhelp) (ack : Bool) : View :=
  let v := if ¬s.txPipe0AddrEq ∧ ack then v.set (.rxAddr pipe0) (bytesOf (s.rxAddr pipe0) 3) else v
  v.set .config [v .config 0 ||| nrfConfigPrimRx]

namespace Nrf

end Nrf

variable (chip) in
/-- Everything that a session asks for is right. -/
def AllRight {α : Type} (session : Rf α) (state : τ) : Prop :=
  ∀ asked ∈ session.asked chip.overBytes state, SentRight (chip.view asked.1) asked.2

theorem AllRight.bind {α β : Type} {session : Rf α} {next : α → Rf β} {state : τ}
    (h : AllRight chip session state)
    (hnext : AllRight chip (next (chip.run session state).1) (chip.run session state).2) :
    AllRight chip (session.bind next) state := by
  intro asked hasked
  rw [Session.asked_bind] at hasked
  rcases List.mem_append.1 hasked with hasked | hasked
  · exact h asked hasked
  · exact hnext asked hasked

/-- What comes after it. -/
def Rfhelp.turnBack (s : Rfhelp) (ack : Bool) : Rf Unit := do
  if ¬s.txPipe0AddrEq ∧ ack then rfSetRxAddr pipe0 (s.rxAddr pipe0) s.addressLength
  rfModeRx

/-- The addresses that are set are three bytes long. -/
def RfhelpStep.Fits : RfhelpStep → Prop
  | setTxAddr _ addrLen | setRxAddr _ _ addrLen => addrLen = 3
  | _ => True

/-- The helper functions before their initialisation. -/
def Rfhelp.zero : Rfhelp :=
  ⟨fun _ _ => 0, fun _ => 0, 0, false, ⟨0, 0, 0, 0, 0, 0, fun _ => 0, false⟩⟩

end Bldc.Link
