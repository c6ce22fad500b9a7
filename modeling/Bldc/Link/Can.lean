import Bldc.Foundation.Fragments
import Bldc.Link.Buffer
import Bldc.Link.Crc

/-!
# Buffers over CAN

A frame carries eight bytes. Buffers of up to six bytes travel in one frame;
longer ones are cut into fragments that name the offset they belong to, at first
in one byte and from 259 on in two, and a last frame closes the buffer with its
length and checksum.
-/

namespace Bldc.Link

open Foundation Flash

/-- `RX_BUFFER_SIZE`. -/
def rxBufferSize : Nat := 1024

/-- `CAN_STATUS_MSGS_TO_STORE`. -/
def canStatusMsgsToStore : Nat := 10

/-- `CAN_PACKET_ID`. -/
inductive CanPacketId where
  | setDuty
  | setCurrent
  | setCurrentBrake
  | setRpm
  | setPos
  | fillRxBuffer
  | fillRxBufferLong
  | processRxBuffer
  | processShortBuffer
  | status
  deriving DecidableEq, Repr

def CanPacketId.code : CanPacketId → Nat
  | setDuty => 0
  | setCurrent => 1
  | setCurrentBrake => 2
  | setRpm => 3
  | setPos => 4
  | fillRxBuffer => 5
  | fillRxBufferLong => 6
  | processRxBuffer => 7
  | processShortBuffer => 8
  | status => 9

def CanPacketId.ofCode : Nat → Option CanPacketId
  | 0 => some setDuty
  | 1 => some setCurrent
  | 2 => some setCurrentBrake
  | 3 => some setRpm
  | 4 => some setPos
  | 5 => some fillRxBuffer
  | 6 => some fillRxBufferLong
  | 7 => some processRxBuffer
  | 8 => some processShortBuffer
  | 9 => some status
  | _ => none

/-- `CANRxFrame`; what is behind the eight data bytes is whatever the memory
holds there. -/
structure CanRxFrame where
  ide : Bool
  eid : BitVec 29
  dlc : BitVec 4
  data8 : Buffer

/-- An extended frame as it is handed to the driver. -/
structure CanTxFrame where
  eid : BitVec 29
  data : List Byte
  deriving DecidableEq, Repr

/-! ## Sending -/

/-- `comm_can_transmit`. -/
def commCanTransmit (id : Word) (data : List Byte) : CanTxFrame := ⟨id.setWidth 29, data⟩

/-- The identifier of a command to one controller. -/
def canId (controllerId : Byte) (cmd : CanPacketId) : Word :=
  controllerId.setWidth 32 ||| BitVec.ofNat 32 cmd.code <<< 8

/-- `n` bytes of the payload from offset `i` on. -/
def fragment (data : Buffer) (i n : Nat) : List Byte := bytesOf (fun k => data (i + k)) n

/-- The frame of the first loop at offset `i`. -/
def fillFrame (controllerId : Byte) (data : Buffer) (len i : Nat) : CanTxFrame :=
  commCanTransmit (canId controllerId .fillRxBuffer)
    (BitVec.ofNat 8 i :: fragment data i (if i + 7 ≤ len then 7 else len - i))

/-- The first loop of `comm_can_send_buffer`: its frames and `end_a`. -/
def fillLoop (controllerId : Byte) (data : Buffer) (len i endA : Nat) : List CanTxFrame × Nat :=
  if i < len then
    if i > 255 then ([], endA)
    else
      let rest := fillLoop controllerId data len (i + 7) (i + 7)
      (fillFrame controllerId data len i :: rest.1, rest.2)
  else ([], endA)
termination_by len - i

/-- The frame of the second loop at offset `i`. -/
def fillLongFrame (controllerId : Byte) (data : Buffer) (len i : Nat) : CanTxFrame :=
  commCanTransmit (canId controllerId .fillRxBufferLong)
    (BitVec.ofNat 8 (i >>> 8) :: BitVec.ofNat 8 (i &&& 0xFF) ::
      fragment data i (if i + 6 ≤ len then 6 else len - i))

/-- The second loop of `comm_can_send_buffer`. -/
def fillLongLoop (controllerId : Byte) (data : Buffer) (len i : Nat) : List CanTxFrame :=
  if i < len then
    fillLongFrame controllerId data len i :: fillLongLoop controllerId data len (i + 6)
  else []
termination_by len - i

/-- `comm_can_send_buffer` of the controller `ownId`. -/
def commCanSendBuffer (ownId controllerId : Byte) (data : Buffer) (len : Nat) (send : Bool) :
    List CanTxFrame :=
  if len ≤ 6 then
    [commCanTransmit (canId controllerId .processShortBuffer)
      (ownId :: (if send then 1 else 0) :: bytesOf data len)]
  else
    let fill := fillLoop controllerId data len 0 0
    let crc := crc16 (bytesOf data len)
    fill.1 ++ fillLongLoop controllerId data len fill.2 ++
      [commCanTransmit (canId controllerId .processRxBuffer)
        [ownId, if send then 1 else 0, BitVec.ofNat 8 (len >>> 8), BitVec.ofNat 8 (len &&& 0xFF),
          crc.extractLsb' 8 8, crc.extractLsb' 0 8]]

/-! ### The frames depend on the payload only -/

section Congr

variable {controllerId : Byte} {data data' : Buffer} {len : Nat}

theorem fragment_congr (h : Agree len data data') {i n : Nat} (hn : i + n ≤ len) :
    fragment data i n = fragment data' i n :=
  bytesOf_congr (h.shift i hn)

theorem fillLoop_congr (h : Agree len data data') (i endA : Nat) :
    fillLoop controllerId data len i endA = fillLoop controllerId data' len i endA := by
  fun_induction fillLoop controllerId data len i endA with
  | case1 i endA hi hlarge => rw [fillLoop, if_pos hi, if_pos hlarge]
  | case2 i endA hi hsmall rest ih =>
      rw [fillLoop, if_pos hi, if_neg hsmall, ← ih, fillFrame, fillFrame,
        fragment_congr h (by split <;> omega)]
  | case3 i endA hi => rw [fillLoop, if_neg hi]

theorem fillLongLoop_congr (h : Agree len data data') (i : Nat) :
    fillLongLoop controllerId data len i = fillLongLoop controllerId data' len i := by
  fun_induction fillLongLoop controllerId data len i with
  | case1 i hi ih =>
      conv_rhs => rw [fillLongLoop, if_pos hi]
      rw [ih, fillLongFrame, fillLongFrame, fragment_congr h (by split <;> omega)]
  | case2 i hi => rw [fillLongLoop, if_neg hi]

theorem commCanSendBuffer_congr (h : Agree len data data') (ownId : Byte) (send : Bool) :
    commCanSendBuffer ownId controllerId data len send =
      commCanSendBuffer ownId controllerId data' len send := by
  simp only [commCanSendBuffer, bytesOf_congr h, fillLoop_congr h, fillLongLoop_congr h]

/-- The first frame names the receiver. -/
theorem commCanSendBuffer_head (ownId controllerId : Byte) (data : Buffer) (send : Bool)
    (h : 6 < len) :
    (commCanSendBuffer ownId controllerId data len send).head? =
      some (fillFrame controllerId data len 0) := by
  rw [commCanSendBuffer, if_neg (by omega), fillLoop, if_pos (by omega), if_neg (by omega)]
  rfl

end Congr

/-! ## Receiving -/

/-- The functions `commands_set_send_func` is called with. -/
inductive SendFunc where
  | usb
  | uart
  | can
  | nrf
  deriving DecidableEq, Repr

/-- `can_status_msg`. -/
structure CanStatusMsg where
  id : Int
  rxTime : Nat
  rpm : Rat
  current : Rat
  duty : Rat
  deriving DecidableEq, Repr

/-- The variables of the CAN module, with the controller id of the active
configuration and the send function of the command module. -/
structure CanState where
  rxBuffer : Buffer
  rxBufferLastId : Nat
  statMsgs : List CanStatusMsg
  controllerId : Byte
  sendFunc : Option SendFunc

/-- `comm_can_init`, as far as these variables are concerned. -/
def commCanInit (s : CanState) : CanState :=
  { s with statMsgs := s.statMsgs.map fun msg => { msg with id := -1 } }

/-- The motor commands that travel over CAN. -/
inductive CanControl where
  | duty
  | current
  | currentBrake
  | rpm
  | pos
  deriving DecidableEq, Repr

/-- A call of `commands_send_packet` (`send`) or `commands_process_packet`, with
the variables it then finds. -/
structure Delivery where
  send : Bool
  data : Buffer
  len : Nat
  sendFunc : Option SendFunc
  lastId : Nat

inductive CanEffect where
  | control (command : CanControl) (value : Rat)
  | timeoutReset
  | deliver (delivery : Delivery)

def CanEffect.delivery : CanEffect → Option Delivery
  | deliver delivery => some delivery
  | _ => none

/-- The low byte of the identifier. -/
def CanRxFrame.id (rxmsg : CanRxFrame) : Byte := BitVec.ofNat 8 rxmsg.eid.toNat

/-- The command, of which the one-byte enumeration keeps eight bits. -/
def CanRxFrame.cmd (rxmsg : CanRxFrame) : Option CanPacketId :=
  CanPacketId.ofCode (rxmsg.eid.toNat / 256 % 256)

/-- `DLC - k` as an unsigned length. -/
def CanRxFrame.lengthAfter (rxmsg : CanRxFrame) (k : Nat) : Nat :=
  (BitVec.ofNat 32 rxmsg.dlc.toNat - BitVec.ofNat 32 k).toNat

def motorCommand (s : CanState) (command : CanControl) (scale : Rat) (rxmsg : CanRxFrame) :
    CanState × List CanEffect :=
  (s, [.control command (bufferGetFloat32 rxmsg.data8 scale 0), .timeoutReset])

/-- Hand a buffer to the command module. -/
def CanState.hand (s : CanState) (commandsSend : Bool) (data : Buffer) (len : Nat) :
    CanState × List CanEffect :=
  let s := if commandsSend then s else { s with sendFunc := some .can }
  (s, [.deliver ⟨commandsSend, data, len, s.sendFunc, s.rxBufferLastId⟩])

/-- The case `CAN_PACKET_PROCESS_RX_BUFFER`. -/
def CanState.processRxBuffer (s : CanState) (rxmsg : CanRxFrame) : CanState × List CanEffect :=
  let s := { s with rxBufferLastId := (rxmsg.data8 0).toNat }
  let rxbufLen := (rxmsg.data8 2).toNat <<< 8 ||| (rxmsg.data8 3).toNat
  if rxbufLen > rxBufferSize then (s, [])
  else if crc16 (bytesOf s.rxBuffer rxbufLen) = rxmsg.data8 4 ++ rxmsg.data8 5 then
    s.hand (rxmsg.data8 1 ≠ 0) s.rxBuffer rxbufLen
  else (s, [])

/-- The case `CAN_PACKET_PROCESS_SHORT_BUFFER`. -/
def CanState.processShortBuffer (s : CanState) (rxmsg : CanRxFrame) :
    CanState × List CanEffect :=
  let s := { s with rxBufferLastId := (rxmsg.data8 0).toNat }
  s.hand (rxmsg.data8 1 ≠ 0) (fun k => rxmsg.data8 (2 + k)) (rxmsg.lengthAfter 2)

/-- The first switch of `cancom_process_thread`. -/
def CanState.processAddressed (s : CanState) (rxmsg : CanRxFrame) : CanState × List CanEffect :=
  match rxmsg.cmd with
  | some .setDuty => motorCommand s .duty 100000 rxmsg
  | some .setCurrent => motorCommand s .current 1000 rxmsg
  | some .setCurrentBrake => motorCommand s .currentBrake 1000 rxmsg
  | some .setRpm => motorCommand s .rpm 1 rxmsg
  | some .setPos => motorCommand s .pos 1000000 rxmsg
  | some .fillRxBuffer =>
      ({ s with
        rxBuffer := memcpy s.rxBuffer (rxmsg.data8 0).toNat (fun k => rxmsg.data8 (1 + k))
          (rxmsg.lengthAfter 1) }, [])
  | some .fillRxBufferLong =>
      let rxbufInd := (rxmsg.data8 0).toNat <<< 8 ||| (rxmsg.data8 1).toNat
      if rxbufInd < rxBufferSize then
        ({ s with
          rxBuffer := memcpy s.rxBuffer rxbufInd (fun k => rxmsg.data8 (2 + k))
            (rxmsg.lengthAfter 2) }, [])
      else (s, [])
  | some .processRxBuffer => s.processRxBuffer rxmsg
  | some .processShortBuffer => s.processShortBuffer rxmsg
  | _ => (s, [])

/-- The loop over `stat_msgs`: the first slot that is the sender's or free. -/
def recordStatus (msg : CanStatusMsg) : List CanStatusMsg → List CanStatusMsg
  | [] => []
  | slot :: rest =>
      if slot.id = msg.id ∨ slot.id = -1 then msg :: rest else slot :: recordStatus msg rest

/-- The second switch of `cancom_process_thread`. -/
def CanState.processStatus (s : CanState) (rxTime : Nat) (rxmsg : CanRxFrame) : CanState :=
  match rxmsg.cmd with
  | some .status =>
      let msg : CanStatusMsg :=
        { id := rxmsg.id.toNat
          rxTime := rxTime
          rpm := bufferGetInt32 rxmsg.data8 0
          current := (bufferGetInt16 rxmsg.data8 4 : Rat) / 10
          duty := (bufferGetInt16 rxmsg.data8 6 : Rat) / 1000 }
      { s with statMsgs := recordStatus msg s.statMsgs }
  | _ => s

/-- A frame and the time at which it is processed. -/
structure Arrival where
  rxTime : Nat
  rxmsg : CanRxFrame

/-- `cancom_process_thread`, one frame at a time. -/
def cancomProcess : Machine CanState Arrival CanEffect where
  step s arrival :=
    if arrival.rxmsg.ide then
      let r :=
        if arrival.rxmsg.id = 255 ∨ arrival.rxmsg.id = s.controllerId then
          s.processAddressed arrival.rxmsg
        else (s, [])
      (r.1.processStatus arrival.rxTime arrival.rxmsg, r.2)
    else (s, [])

/-! ## What one frame does -/

/-- The frame on the bus: the receiver sees the bytes that were sent, and nothing
is known about the data registers behind them. -/
def CanRxFrame.Carries (rxmsg : CanRxFrame) (tx : CanTxFrame) : Prop :=
  rxmsg.ide = true ∧ rxmsg.eid = tx.eid ∧ bytesOf rxmsg.data8 rxmsg.dlc.toNat = tx.data

theorem canId_toNat (controllerId : Byte) (cmd : CanPacketId) :
    (canId controllerId cmd).toNat = cmd.code * 256 + controllerId.toNat := by
  have hcode : cmd.code < 10 := by cases cmd <;> decide
  have hid := controllerId.isLt
  have hshift : (BitVec.ofNat 32 cmd.code <<< 8).toNat = cmd.code <<< 8 := by
    rw [BitVec.toNat_shiftLeft, BitVec.toNat_ofNat, Nat.shiftLeft_eq, Nat.shiftLeft_eq]
    omega
  rw [canId, BitVec.toNat_or, BitVec.toNat_setWidth, hshift, Nat.or_comm,
    Nat.mod_eq_of_lt (by omega), ← Nat.shiftLeft_add_eq_or_of_lt hid, Nat.shiftLeft_eq]

section Carries

variable {rxmsg : CanRxFrame} {controllerId : Byte} {cmd : CanPacketId} {payload : List Byte}

theorem CanRxFrame.Carries.eid_toNat
    (h : rxmsg.Carries (commCanTransmit (canId controllerId cmd) payload)) :
    rxmsg.eid.toNat = cmd.code * 256 + controllerId.toNat := by
  have hcode : cmd.code < 10 := by cases cmd <;> decide
  have hid := controllerId.isLt
  rw [h.2.1, commCanTransmit, BitVec.toNat_setWidth, canId_toNat]
  omega

theorem CanRxFrame.Carries.id_eq
    (h : rxmsg.Carries (commCanTransmit (canId controllerId cmd) payload)) :
    rxmsg.id = controllerId := by
  have hid := controllerId.isLt
  apply BitVec.eq_of_toNat_eq
  rw [CanRxFrame.id, h.eid_toNat, BitVec.toNat_ofNat]
  omega

theorem CanRxFrame.Carries.cmd_eq
    (h : rxmsg.Carries (commCanTransmit (canId controllerId cmd) payload)) :
    rxmsg.cmd = some cmd := by
  have hcode : cmd.code < 10 := by cases cmd <;> decide
  have hid := controllerId.isLt
  have hdiv : rxmsg.eid.toNat / 256 % 256 = cmd.code := by
    rw [h.eid_toNat]
    omega
  rw [CanRxFrame.cmd, hdiv]
  cases cmd <;> rfl

/-- A frame for this controller that is no status message goes through the first
switch only. -/
theorem CanRxFrame.Carries.step {s : CanState} {arrival : Arrival}
    (h : arrival.rxmsg.Carries (commCanTransmit (canId s.controllerId cmd) payload))
    (hcmd : cmd ≠ .status) :
    cancomProcess.step s arrival = s.processAddressed arrival.rxmsg := by
  have hstatus : ∀ s : CanState, s.processStatus arrival.rxTime arrival.rxmsg = s := by
    intro s
    rw [CanState.processStatus, h.cmd_eq]
    cases cmd <;> first | rfl | exact absurd rfl hcmd
  simp [cancomProcess, h.1, h.id_eq, hstatus]

end Carries

theorem CanRxFrame.lengthAfter_eq {rxmsg : CanRxFrame} {k n : Nat}
    (h : rxmsg.dlc.toNat = n + k) : rxmsg.lengthAfter k = n := by
  have hdlc := rxmsg.dlc.isLt
  rw [CanRxFrame.lengthAfter, BitVec.toNat_sub, BitVec.toNat_ofNat, BitVec.toNat_ofNat]
  omega

/-- The frame writes the bytes of `data` from `start` to `stop` where they
belong. -/
def Fills (controllerId : Byte) (data : Buffer) (tx : CanTxFrame) (start stop : Nat) : Prop :=
  ∀ s arrival, s.controllerId = controllerId → arrival.rxmsg.Carries tx →
    cancomProcess.step s arrival = ({ s with rxBuffer := patched s.rxBuffer data start stop }, [])

variable {controllerId : Byte} {data : Buffer} {len : Nat}

def deliveries (effects : List CanEffect) : List Delivery := effects.filterMap CanEffect.delivery

theorem processStatus_rxBuffer (s : CanState) (rxTime : Nat) (rxmsg : CanRxFrame) :
    (s.processStatus rxTime rxmsg).rxBuffer = s.rxBuffer ∧
      (s.processStatus rxTime rxmsg).controllerId = s.controllerId := by
  unfold CanState.processStatus
  split <;> exact ⟨rfl, rfl⟩

/-- A frame as the receiver gets it from the bus. -/
def CanTxFrame.onBus (tx : CanTxFrame) : CanRxFrame :=
  ⟨true, tx.eid, BitVec.ofNat 4 tx.data.length, fun i => tx.data.getD i 0⟩

/-- Controller 5 after start-up. -/
def bootedCan : CanState :=
  commCanInit ⟨fun _ => 0, 0, List.replicate canStatusMsgsToStore ⟨0, 0, 0, 0, 0⟩, 5, none⟩

end Bldc.Link
