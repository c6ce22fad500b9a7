import Bldc.Foundation.Fragments
import Bldc.Link.Can

/-!
# Buffers over the radio

A radio frame carries up to 32 bytes, of which the last two are a checksum.
Buffers of up to 24 bytes travel in one frame. Longer ones are cut into fragments
as on the CAN bus, but their last 20 bytes ride in the frame that closes the
buffer.
-/

namespace Bldc.Link

open Foundation Flash

/-- `MOTE_PACKET`. -/
inductive MotePacket where
  | battLevel
  | buttons
  | alive
  | fillRxBuffer
  | fillRxBufferLong
  | processRxBuffer
  | processShortBuffer
  deriving DecidableEq, Repr

def MotePacket.code : MotePacket → Byte
  | battLevel => 0
  | buttons => 1
  | alive => 2
  | fillRxBuffer => 3
  | fillRxBufferLong => 4
  | processRxBuffer => 5
  | processShortBuffer => 6

def MotePacket.ofCode (code : Byte) : Option MotePacket :=
  [battLevel, buttons, alive, fillRxBuffer, fillRxBufferLong, processRxBuffer,
    processShortBuffer][code.toNat]?

/-- `rfhelp_send_data_crc`: the frame on the air. -/
def rfhelpSendDataCrc (data : List Byte) : List Byte :=
  data ++ [(crc16 data).extractLsb' 8 8, (crc16 data).extractLsb' 0 8]

/-- What the radio has for `rfhelp_read_rx_data`: nothing, or a payload of some
width, and then perhaps more. -/
inductive RfRead where
  | noData
  | payload (width : Byte) (bytes : Buffer) (more : Bool)

/-- `rfhelp_read_rx_data`: the result, the data and its length. -/
def rfhelpReadRxData (data : Buffer) : RfRead → Int × Buffer × Int
  | .noData => (-1, data, 0)
  | .payload width bytes more =>
      if width.toNat ≤ 32 then
        (if more then 1 else 0, memcpy data 0 bytes width.toNat, width.toNat)
      else (-2, data, 0)

/-- `rfhelp_read_rx_data_crc`. The checksum is looked at when there is something
in front of it. -/
def rfhelpReadRxDataCrc (data : Buffer) (read : RfRead) : Int × Buffer × Int :=
  let (res, data, len) := rfhelpReadRxData data read
  let res :=
    if res ≥ 0 ∧ len > 2 then
      if crc16 (bytesOf data (len - 2).toNat) ≠ data (len - 2).toNat ++ data (len - 1).toNat then -3
      else res
    else res
  (res, data, len - 2)

/-- `mote_state`. -/
structure MoteState where
  jsX : Byte
  jsY : Byte
  btC : Bool
  btZ : Bool
  btPush : Bool
  vbat : Rat
  deriving DecidableEq, Repr

/-- The variables of the radio module, with the packet buffer of `rx_thread` and
the send function of the command module. -/
structure NrfState where
  rxBuffer : Buffer
  buf : Buffer
  mstate : MoteState
  sendFunc : Option SendFunc

/-- A call of `commands_process_packet`, with the send function it then finds. -/
structure Processed where
  data : Buffer
  len : Nat
  sendFunc : Option SendFunc

inductive NrfEffect where
  | nunchukUpdateOutput (jsX jsY : Int) (btC btZ : Bool)
  | process (packet : Processed)

def NrfEffect.packet : NrfEffect → Option Processed
  | process packet => some packet
  | _ => none

/-- An `int` as the unsigned length it is passed as. -/
def unsigned (n : Int) : Nat := (BitVec.ofInt 32 n).toNat

/-- `memcpy` to `rx_buffer + start`, where `start` may be negative. -/
def memcpyAt (dst : Buffer) (start : Int) (src : Buffer) (n : Nat) : Buffer :=
  fun x => if start ≤ x ∧ x < start + n then src (x - start).toNat else dst x

/-- The case `MOTE_PACKET_BUTTONS`. -/
def NrfState.buttons (s : NrfState) : NrfState × List NrfEffect :=
  let buttons := s.buf 3
  let mstate : MoteState :=
    { jsX := s.buf 1
      jsY := s.buf 2
      btC := buttons.getLsbD 0
      btZ := buttons.getLsbD 1
      btPush := buttons.getLsbD 2
      vbat := (bufferGetInt16 s.buf 4 : Rat) / 1000 }
  ({ s with mstate := mstate },
    [.nunchukUpdateOutput (255 - mstate.jsX.toNat) mstate.jsY.toNat mstate.btC mstate.btZ])

/-- Hand a buffer to the command module. -/
def NrfState.hand (s : NrfState) (data : Buffer) (len : Nat) : NrfState × List NrfEffect :=
  let s := { s with sendFunc := some .nrf }
  (s, [.process ⟨data, len, s.sendFunc⟩])

/-- `rxbuf_ind` of a long fragment, and `rxbuf_len` of a closing frame. -/
def twoBytes (buf : Buffer) : Nat := (buf 1).toNat <<< 8 ||| (buf 2).toNat

/-- The case `MOTE_PACKET_PROCESS_RX_BUFFER`. -/
def NrfState.processRxBuffer (s : NrfState) (len : Int) : NrfState × List NrfEffect :=
  let rxbufLen := twoBytes s.buf
  if rxbufLen > rxBufferSize then (s, [])
  else
    let s := { s with
      rxBuffer := memcpyAt s.rxBuffer (rxbufLen - (len - 5)) (fun k => s.buf (5 + k))
        (unsigned (len - 5)) }
    if crc16 (bytesOf s.rxBuffer rxbufLen) = s.buf 3 ++ s.buf 4 then s.hand s.rxBuffer rxbufLen
    else (s, [])

/-- The switch of `rx_thread`. -/
def NrfState.act (s : NrfState) (len : Int) : NrfState × List NrfEffect :=
  match MotePacket.ofCode (s.buf 0) with
  | some .buttons => s.buttons
  | some .fillRxBuffer =>
      ({ s with
        rxBuffer := memcpyAt s.rxBuffer (s.buf 1).toNat (fun k => s.buf (2 + k))
          (unsigned (len - 2)) }, [])
  | some .fillRxBufferLong =>
      let rxbufInd := twoBytes s.buf
      if rxbufInd < rxBufferSize then
        ({ s with
          rxBuffer := memcpyAt s.rxBuffer rxbufInd (fun k => s.buf (3 + k))
            (unsigned (len - 3)) }, [])
      else (s, [])
  | some .processRxBuffer => s.processRxBuffer len
  | some .processShortBuffer => s.hand (fun k => s.buf (1 + k)) (unsigned (len - 1))
  | _ => (s, [])

/-- `rx_thread`, one call of `rfhelp_read_rx_data_crc` at a time. -/
def nrfRx : Machine NrfState RfRead NrfEffect where
  step s read :=
    let (res, buf, len) := rfhelpReadRxDataCrc s.buf read
    let s := { s with buf := buf }
    if res ≥ 0 then s.act len else (s, [])

/-! ## Over the air -/

/-- The radio hands over the frame that was sent. -/
def RfRead.Carries (frame : List Byte) : RfRead → Prop
  | noData => False
  | payload width bytes _ => width.toNat = frame.length ∧ Holds bytes 0 frame

theorem unsigned_natCast {n : Nat} (hn : n < 2 ^ 32) : unsigned n = n := by
  rw [unsigned, BitVec.toNat_ofInt]
  omega

/-- The packet writes the bytes of `data` from `start` to `stop` where they
belong. -/
def FillsAir (data : Buffer) (packet : List Byte) (start stop : Nat) : Prop :=
  ∀ s read, read.Carries (rfhelpSendDataCrc packet) →
    ∃ buf, nrfRx.step s read =
      ({ s with buf := buf, rxBuffer := patched s.rxBuffer data start stop }, [])

variable {data : Buffer} {len : Nat}

/-- Where the data has arrived it stays, and nothing is passed on. -/
theorem FillsAir.step {packet : List Byte} {start stop : Nat}
    (hfills : FillsAir data packet start stop) (s : NrfState) {read : RfRead}
    (hcarries : read.Carries (rfhelpSendDataCrc packet)) :
    (nrfRx.step s read).2 = [] ∧ ∀ x, s.rxBuffer x = data x ∨ start ≤ x ∧ x < stop →
      (nrfRx.step s read).1.rxBuffer x = data x := by
  obtain ⟨buf, hstep⟩ := hfills s read hcarries
  rw [hstep]
  refine ⟨rfl, fun x hx => ?_⟩
  simp only [patched]
  split
  next => rfl
  next hout => exact hx.resolve_right hout

/-- The frame as the radio hands it over. -/
def onAir (frame : List Byte) (more : Bool) : RfRead :=
  .payload (BitVec.ofNat 8 frame.length) (ofBytes frame) more

/-- The radio module after start-up. -/
def bootedNrf : NrfState :=
  ⟨fun _ => 0, fun _ => 0, ⟨0, 0, false, false, false, 0⟩, none⟩

end Bldc.Link
