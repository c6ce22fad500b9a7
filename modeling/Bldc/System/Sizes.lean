import Bldc.Command.Process
import Bldc.Link.CanBounds
import Bldc.Link.Grammar
import Bldc.Link.RadioBounds

/-!
# The sizes of the transport buffers

Two stores rely on sizes that another file has chosen: the UART copies a finished frame to
a staging buffer of its own, and `COMM_TERMINAL_CMD` puts a zero behind the packet, in
whatever buffer the transport has left the packet.
-/

namespace Bldc.Sys

open Foundation Flash Link Command

/-- `len` bytes from `start` on, in a buffer of `size` bytes. -/
structure Store where
  size : Nat
  start : Nat
  len : Nat
  deriving DecidableEq, Repr

def Store.Inside (store : Store) : Prop := store.start + store.len ≤ store.size

/-! ## Frames -/

/-- The size of `tx_buffer`. -/
def txBufferSize : Nat := packetMaxPlLen + 6

/-- The size of `buffer` in the `send_packet` of the UART. -/
def uartBufferSize : Nat := packetMaxPlLen + 5

/-- What `packet_send_packet` puts together in `tx_buffer`. -/
def txFrame (data : List Byte) : List Byte :=
  packetHeader data.length ++ data ++ crcBytes (crc16 data) ++ [3]

/-- The stores of `packet_send_packet`, and of `send_packet` where the handler is that of the
UART. -/
def sendStores (states : HandlerStates) (handlerNum : Fin packetHandlers) (data : List Byte) :
    List Store :=
  (if data.length > packetMaxPlLen then [] else [⟨txBufferSize, 0, (txFrame data).length⟩]) ++
    if handlerNum = uartHandler then
      (packetSendPacket states handlerNum data).map fun frame => ⟨uartBufferSize, 0, frame.length⟩
    else []

theorem packetSendPacket_eq (states : HandlerStates) (handlerNum : Fin packetHandlers)
    (data : List Byte) :
    packetSendPacket states handlerNum data =
      if data.length > packetMaxPlLen then []
      else if (states handlerNum).sendFunc then [txFrame data] else [] := rfl

theorem txFrame_length (data : List Byte) :
    (txFrame data).length = data.length + if data.length ≤ 256 then 5 else 6 := by
  unfold txFrame packetHeader
  split <;> simp [crcBytes]

/-- Every frame fits `tx_buffer`. -/
theorem txFrame_length_le {data : List Byte} (hmax : data.length ≤ packetMaxPlLen) :
    (txFrame data).length ≤ txBufferSize := by
  rw [txFrame_length, txBufferSize]
  split <;> omega

/-- The staging buffer is short of one byte, for the longest payload. -/
theorem txFrame_length_le_uart_iff {data : List Byte} (hmax : data.length ≤ packetMaxPlLen) :
    (txFrame data).length ≤ uartBufferSize ↔ data.length ≠ packetMaxPlLen := by
  unfold packetMaxPlLen at hmax
  rw [txFrame_length, uartBufferSize, packetMaxPlLen]
  split <;> omega

theorem sendStores_inside_iff (states : HandlerStates) (handlerNum : Fin packetHandlers)
    (data : List Byte) :
    (∀ store ∈ sendStores states handlerNum data, store.Inside) ↔
      (handlerNum = uartHandler → (states handlerNum).sendFunc →
        data.length ≠ packetMaxPlLen) := by
  rw [sendStores, packetSendPacket_eq]
  by_cases hlong : data.length > packetMaxPlLen
  · simp only [hlong, if_true, List.map_nil, ite_self, List.append_nil, List.not_mem_nil,
      false_implies, implies_true, true_iff]
    intro _ _
    omega
  · have hmax : data.length ≤ packetMaxPlLen := by omega
    have htx : (⟨txBufferSize, 0, (txFrame data).length⟩ : Store).Inside := by
      simpa [Store.Inside] using txFrame_length_le hmax
    have huart : (⟨uartBufferSize, 0, (txFrame data).length⟩ : Store).Inside ↔
        data.length ≠ packetMaxPlLen := by
      simpa [Store.Inside] using txFrame_length_le_uart_iff hmax
    rw [if_neg hlong, if_neg hlong]
    by_cases hnum : handlerNum = uartHandler
    · by_cases hsend : (states handlerNum).sendFunc = true
      · simp only [hnum, if_true, ← huart, true_implies] at hsend ⊢
        simp [hsend, htx]
      · simp [hsend, htx]
    · simp [hnum, htx]

/-! ## The terminating zero -/

/-- The packet is a `COMM_TERMINAL_CMD`. -/
def IsTerminal (data : Buffer) : Prop := CommPacketId.ofCode (data 0) = some .terminalCmd

instance (data : Buffer) : Decidable (IsTerminal data) := inferInstanceAs (Decidable (_ = _))

/-- Where `commands_process_packet` puts the zero, counted from the start of the packet: at
`data[len]` when the id is split off. -/
def terminalZero (data : Buffer) (len : Word) : Option Nat :=
  if len = 0 then none else if IsTerminal data then some (1 + (len - 1).toNat) else none

/-- The string that begins at `index`. -/
def HoldsString (buffer : Buffer) (index : Nat) (str : List Byte) : Prop :=
  0 ∉ str ∧ Holds buffer index (str ++ [0])

theorem holdsString_nil {buffer : Buffer} {index : Nat} :
    HoldsString buffer index [] ↔ buffer index = 0 := by
  simp [HoldsString]

theorem holdsString_cons {buffer : Buffer} {index : Nat} {byte : Byte} {rest : List Byte} :
    HoldsString buffer index (byte :: rest) ↔
      byte ≠ 0 ∧ buffer index = byte ∧ HoldsString buffer (index + 1) rest := by
  simp only [HoldsString, List.mem_cons, not_or, List.cons_append, holds_cons, ne_comm (a := byte)]
  tauto

theorem holdsString_unique {buffer : Buffer} {index : Nat} {str str' : List Byte}
    (h : HoldsString buffer index str) (h' : HoldsString buffer index str') : str = str' := by
  induction str generalizing index str' with
  | nil =>
      rw [holdsString_nil] at h
      cases str' with
      | nil => rfl
      | cons byte rest =>
          obtain ⟨hne, hbyte, -⟩ := holdsString_cons.1 h'
          exact absurd (hbyte.symm.trans h) hne
  | cons byte rest ih =>
      obtain ⟨hne, hbyte, hrest⟩ := holdsString_cons.1 h
      cases str' with
      | nil => exact absurd (hbyte.symm.trans (holdsString_nil.1 h')) hne
      | cons byte' rest' =>
          obtain ⟨-, hbyte', hrest'⟩ := holdsString_cons.1 h'
          rw [← hbyte, ← hbyte', ih hrest hrest']

/-- With a zero behind `n` bytes, the string ends there or before. -/
theorem holdsString_update (data : Buffer) (index n : Nat) :
    HoldsString (Function.update data (index + n) 0) index
      ((bytesOf (fun k => data (index + k)) n).takeWhile (· != 0)) := by
  induction n generalizing index with
  | zero => simp [bytesOf, holdsString_nil]
  | succ n ih =>
      have hbytes : bytesOf (fun k => data (index + k)) (n + 1) =
          data index :: bytesOf (fun k => data (index + 1 + k)) n := by
        rw [bytesOf, List.range_succ_eq_map, List.map_cons, List.map_map]
        refine congrArg (List.cons _) (List.map_congr_left fun k _ => ?_)
        exact congrArg data (by simp only [Nat.succ_eq_add_one]; omega)
      have hkeep : Function.update data (index + (n + 1)) 0 index = data index :=
        Function.update_of_ne (by omega) ..
      rw [hbytes, List.takeWhile_cons]
      split
      next hne =>
        refine holdsString_cons.2 ⟨by simpa using hne, hkeep, ?_⟩
        rw [show index + (n + 1) = index + 1 + n by omega]
        exact ih (index + 1)
      next hzero => exact holdsString_nil.2 (hkeep.trans (by simpa using hzero))

/-- A terminal command is the string that the zero ends. -/
theorem terminalProcessString_mem_iff (dev : Device) (data : Buffer) (len : Word)
    (str : List Byte) :
    .terminalProcessString str ∈ commandsProcessPacket dev data len ↔
      ∃ i, terminalZero data len = some i ∧ HoldsString (Function.update data i 0) 1 str := by
  unfold commandsProcessPacket terminalZero
  split
  next => simp
  next hlen =>
    by_cases hterminal : IsTerminal data
    · have hid : CommPacketId.ofCode (data 0) = some .terminalCmd := hterminal
      have hstring := holdsString_update data 1 (len - 1).toNat
      simp only [hid, hterminal, if_true, processCommand, List.mem_singleton,
        Effect.terminalProcessString.injEq, Option.some.injEq, exists_eq_left']
      exact ⟨fun heq => heq ▸ hstring, fun h => holdsString_unique h hstring⟩
    · simp only [hterminal, if_false, reduceCtorEq, false_and, exists_false, iff_false]
      unfold IsTerminal at hterminal
      split
      next id hid =>
        rw [hid] at hterminal
        cases id with
        | terminalCmd => exact absurd rfl hterminal
        | setDetect | detectEncoder | detectHallFoc | customAppData =>
            simp only [processCommand]
            repeat' split
            all_goals simp
        | _ => simp [processCommand, flashReply]
      next => simp

/-! ## The buffers that hold packets -/

/-- The buffers in which the transports leave a packet: `rx_buffer` of a handler, of the CAN
module and of the radio module, `data8` of a frame and `buf` of `rx_thread`. -/
inductive Holder where
  | handler
  | canBuffer
  | canFrame
  | nrfBuffer
  | nrfBuf
  deriving DecidableEq, Repr

namespace Holder

def size : Holder → Nat
  | handler => packetMaxPlLen
  | canBuffer | nrfBuffer => rxBufferSize
  | canFrame => 8
  | nrfBuf => 32

/-- Where the packet begins. -/
def start : Holder → Nat
  | canFrame => 2
  | nrfBuf => 1
  | _ => 0

/-- The stores of `commands_process_packet` behind a packet. The index is the unsigned one of
the source, so that it is outside where a length has wrapped. -/
def zeros (holder : Holder) (data : Buffer) (len : Nat) : List Store :=
  (terminalZero data (BitVec.ofNat 32 len)).toList.map fun i =>
    ⟨holder.size, holder.start + i, 1⟩

theorem zeros_inside_iff (holder : Holder) (data : Buffer) {len : Nat} (hlen : len < 2 ^ 32) :
    (∀ store ∈ holder.zeros data len, store.Inside) ↔
      (0 < len → IsTerminal data → holder.start + len < holder.size) := by
  have htoNat : (BitVec.ofNat 32 len).toNat = len := by
    rw [BitVec.toNat_ofNat, Nat.mod_eq_of_lt hlen]
  unfold zeros terminalZero
  by_cases hzero : BitVec.ofNat 32 len = 0
  · have hlen0 : len = 0 := by rw [← htoNat, hzero]; rfl
    simp [hlen0]
  · have hpos : 0 < len := by
      rcases Nat.eq_zero_or_pos len with rfl | hpos
      · exact absurd rfl hzero
      · exact hpos
    have hindex : 1 + (BitVec.ofNat 32 len - 1).toNat = len := by
      rw [BitVec.toNat_sub, htoNat, show (1 : Word).toNat = 1 from rfl]
      omega
    rw [if_neg hzero, hindex]
    by_cases hterminal : IsTerminal data
    · simp only [hterminal, if_true, Option.toList_some, List.map_cons, List.map_nil,
        List.mem_singleton, forall_eq, hpos, true_implies, Store.Inside]
      exact Iff.rfl
    · simp [hterminal]

end Holder

/-- The buffer that a CAN frame has the command module process. -/
def canHolder (rxmsg : CanRxFrame) : Holder :=
  if rxmsg.cmd = some .processShortBuffer then .canFrame else .canBuffer

def canZeros (rxmsg : CanRxFrame) (delivery : Delivery) : List Store :=
  if delivery.send then [] else (canHolder rxmsg).zeros delivery.data delivery.len

/-- The buffer that the packet in `buf` has the command module process. -/
def nrfHolder (buf : Buffer) : Holder :=
  if MotePacket.ofCode (buf 0) = some .processShortBuffer then .nrfBuf else .nrfBuffer

def nrfZeros (buf : Buffer) (packet : Processed) : List Store :=
  (nrfHolder buf).zeros packet.data packet.len

/-! ## All transports together -/

structure Transports where
  handlers : HandlerStates
  can : CanState
  nrf : NrfState

/-- A byte or a tick for the packet module, a frame on the CAN bus, a read of the radio, a
packet to send, and a command handler that has worked in the buffer it was given. -/
inductive Traffic where
  | link (event : LinkEvent)
  | can (arrival : Arrival)
  | nrf (read : RfRead)
  | send (handlerNum : Fin packetHandlers) (data : List Byte)
  | handled (handlers : Fin packetHandlers → Buffer) (canBuffer nrfBuffer nrfBuf : Buffer)

/-- The transports, with the stores that rely on the size of a buffer. -/
def transports : Machine Transports Traffic Store where
  step s
    | .link event =>
        let r := packets.step s.handlers event
        ({ s with handlers := r.1 },
          r.2.flatMap fun delivery => Holder.handler.zeros (ofBytes delivery.2) delivery.2.length)
    | .can arrival =>
        let r := cancomProcess.step s.can arrival
        ({ s with can := r.1 },
          (r.2.filterMap CanEffect.delivery).flatMap (canZeros arrival.rxmsg))
    | .nrf read =>
        let r := nrfRx.step s.nrf read
        ({ s with nrf := r.1 }, (r.2.filterMap NrfEffect.packet).flatMap (nrfZeros r.1.buf))
    | .send handlerNum data => (s, sendStores s.handlers handlerNum data)
    | .handled handlers canBuffer nrfBuffer nrfBuf =>
        ({ handlers := fun i => { s.handlers i with rxBuffer := handlers i }
           can := { s.can with rxBuffer := canBuffer }
           nrf := { s.nrf with rxBuffer := nrfBuffer, buf := nrfBuf } }, [])

/-! ## What fits -/

/-- The byte completes a frame. -/
def Completes (h : Handler) (rxData : Byte) : Prop :=
  h.rxState = 6 ∧ rxData = 3 ∧ crc16 h.received = h.crcHigh ++ h.crcLow ∧ h.processFunc

/-- A terminal command in a frame leaves room for the zero. -/
def HandlerFits (h : Handler) (rxData : Byte) : Prop :=
  Completes h rxData → IsTerminal h.rxBuffer → h.payloadLength < packetMaxPlLen

/-- A terminal command in `rx_buffer` is shorter than the buffer, and one in a frame of its
own is not wrapped and leaves the last byte free. -/
def CanFits (s : CanState) (rxmsg : CanRxFrame) : Prop :=
  rxmsg.ide → s.Addressed rxmsg → rxmsg.data8 1 = 0 →
    match rxmsg.cmd with
    | some .processRxBuffer =>
        crc16 (bytesOf s.rxBuffer rxmsg.rxbufLen) = rxmsg.data8 4 ++ rxmsg.data8 5 →
          IsTerminal s.rxBuffer → rxmsg.rxbufLen ≠ rxBufferSize
    | some .processShortBuffer =>
        IsTerminal (fun k => rxmsg.data8 (2 + k)) → 2 ≤ rxmsg.dlc.toNat ∧ rxmsg.dlc.toNat < 8
    | _ => True

/-- `rx_buffer` with the end of the packet, which rides in the closing frame. -/
def closed (s : NrfState) (width : Nat) : Buffer :=
  memcpyAt s.rxBuffer (twoBytes s.buf - ((width : Int) - 2 - 5)) (fun k => s.buf (5 + k))
    (unsigned ((width : Int) - 2 - 5))

/-- The same for the packet that is now in `buf`. -/
def PacketLeavesRoom (s : NrfState) (width : Nat) : Prop :=
  match MotePacket.ofCode (s.buf 0) with
  | some .processRxBuffer =>
      crc16 (bytesOf (closed s width) (twoBytes s.buf)) = s.buf 3 ++ s.buf 4 →
        IsTerminal (closed s width) → twoBytes s.buf ≠ rxBufferSize
  | some .processShortBuffer => IsTerminal (fun k => s.buf (1 + k)) → 3 ≤ width
  | _ => True

def NrfFits (s : NrfState) : RfRead → Prop
  | .noData => True
  | .payload width bytes _ =>
      Reported width bytes →
        PacketLeavesRoom { s with buf := memcpy s.buf 0 bytes width.toNat } width.toNat

/-- What the code relies on: the UART does not send the longest payload, and no terminal
command fills the buffer it arrives in. -/
def Transports.Fits (s : Transports) : Traffic → Prop
  | .link (.byte handlerNum data) => HandlerFits (s.handlers handlerNum) data
  | .link .tick => True
  | .can arrival => CanFits s.can arrival.rxmsg
  | .nrf read => NrfFits s.nrf read
  | .send handlerNum data =>
      handlerNum = uartHandler → (s.handlers handlerNum).sendFunc → data.length ≠ packetMaxPlLen
  | .handled _ _ _ _ => True

/-! ## One step -/

/-- A frame that is being completed has a payload of 1 to 1024 bytes. -/
def Bounded (h : Handler) : Prop :=
  3 ≤ h.rxState → 0 < h.payloadLength ∧ h.payloadLength ≤ packetMaxPlLen

theorem Bounded.processByte {h : Handler} (hbounded : Bounded h) (rxData : Byte) :
    Bounded (h.processByte rxData).1 := by
  unfold Bounded at hbounded ⊢
  unfold Handler.processByte
  split
  next hstate =>
    split
    · simp [hstate]
    · split <;> simp [hstate]
  next hstate => simp [hstate]
  next =>
    dsimp only
    split
    next hlen => exact fun _ => hlen
    next => simp
  next hstate => exact fun _ => hbounded hstate.ge
  next hstate => exact fun _ => hbounded (by omega)
  next hstate => exact fun _ => hbounded (by omega)
  next => simp
  next => simp

theorem Bounded.timerfunc {h : Handler} (hbounded : Bounded h) : Bounded h.timerfunc := by
  unfold Handler.timerfunc
  split
  · exact hbounded
  · simp [Bounded]

theorem mem_processByte_iff {h : Handler} {rxData : Byte} {payload : List Byte} :
    payload ∈ (h.processByte rxData).2 ↔ Completes h rxData ∧ payload = h.received := by
  unfold Handler.processByte Completes
  split
  next hstate => split <;> (try split) <;> simp [hstate]
  next hstate => simp [hstate]
  next hstate => dsimp only; split <;> simp [hstate]
  next hstate => simp [hstate]
  next hstate => simp [hstate]
  next hstate => simp [hstate]
  next hstate => simp [hstate]
  next hsix =>
    simp only [List.not_mem_nil, false_iff, not_and]
    exact fun hcompletes => absurd hcompletes.1 hsix

theorem isTerminal_received {h : Handler} (hpos : 0 < h.payloadLength) :
    IsTerminal (ofBytes h.received) ↔ IsTerminal h.rxBuffer := by
  have hfirst : ofBytes h.received 0 = h.rxBuffer 0 := by
    simp [ofBytes, Handler.received, List.getD, hpos]
  rw [IsTerminal, IsTerminal, hfirst]

theorem linkByte_inside_iff {states : HandlerStates} {handlerNum : Fin packetHandlers}
    (hbounded : Bounded (states handlerNum)) (data : Byte) :
    (∀ delivery ∈ (packets.step states (.byte handlerNum data)).2,
      ∀ store ∈ Holder.handler.zeros (ofBytes delivery.2) delivery.2.length, store.Inside) ↔
        HandlerFits (states handlerNum) data := by
  have hmem : (∀ delivery ∈ (packets.step states (.byte handlerNum data)).2,
      ∀ store ∈ Holder.handler.zeros (ofBytes delivery.2) delivery.2.length, store.Inside) ↔
      (Completes (states handlerNum) data →
        ∀ store ∈ Holder.handler.zeros (ofBytes (states handlerNum).received)
          (states handlerNum).payloadLength, store.Inside) := by
    simp only [packets, packetProcessByte, List.forall_mem_map, mem_processByte_iff, and_imp,
      forall_eq_apply_imp_iff, received_length]
  rw [hmem, HandlerFits]
  refine imp_congr_right fun hcompletes => ?_
  obtain ⟨hpos, hmax⟩ := hbounded (by rw [hcompletes.1]; decide)
  rw [Holder.zeros_inside_iff _ _ (by unfold packetMaxPlLen at hmax; omega),
    isTerminal_received hpos]
  simp [hpos, Holder.size, Holder.start]

/-- A packet that `rx_buffer` can hold leaves room for the zero unless it fills the buffer. -/
theorem room_iff {len : Nat} {terminal : Prop} (hlen : len ≤ rxBufferSize) :
    (0 < len → terminal → 0 + len < rxBufferSize) ↔ (terminal → len ≠ rxBufferSize) := by
  unfold rxBufferSize at hlen ⊢
  constructor
  · intro hroom hterminal hfull
    have hlt := hroom (by omega) hterminal
    omega
  · intro hroom _ hterminal
    have hne := hroom hterminal
    omega

theorem hand_inside_iff (s : CanState) (rxmsg : CanRxFrame) (commandsSend : Bool) (data : Buffer)
    {len : Nat} (hlen : len < 2 ^ 32) :
    (∀ delivery ∈ (s.hand commandsSend data len).2.filterMap CanEffect.delivery,
      ∀ store ∈ canZeros rxmsg delivery, store.Inside) ↔
      (commandsSend = false → 0 < len → IsTerminal data →
        (canHolder rxmsg).start + len < (canHolder rxmsg).size) := by
  rw [← Holder.zeros_inside_iff _ _ hlen]
  cases commandsSend <;> simp [CanState.hand, CanEffect.delivery, canZeros]

theorem lengthAfter_lt (rxmsg : CanRxFrame) (k : Nat) : rxmsg.lengthAfter k < 2 ^ 32 :=
  BitVec.isLt _

theorem lengthAfter_two_iff (rxmsg : CanRxFrame) :
    (0 < rxmsg.lengthAfter 2 → 2 + rxmsg.lengthAfter 2 < 8) ↔
      2 ≤ rxmsg.dlc.toNat ∧ rxmsg.dlc.toNat < 8 := by
  have hdlc := rxmsg.dlc.isLt
  rw [CanRxFrame.lengthAfter, BitVec.toNat_sub, BitVec.toNat_ofNat, BitVec.toNat_ofNat]
  omega

theorem processAddressed_inside_iff (s : CanState) (rxmsg : CanRxFrame) :
    (∀ delivery ∈ (s.processAddressed rxmsg).2.filterMap CanEffect.delivery,
      ∀ store ∈ canZeros rxmsg delivery, store.Inside) ↔
      (rxmsg.data8 1 = 0 →
        match rxmsg.cmd with
        | some .processRxBuffer =>
            crc16 (bytesOf s.rxBuffer rxmsg.rxbufLen) = rxmsg.data8 4 ++ rxmsg.data8 5 →
              IsTerminal s.rxBuffer → rxmsg.rxbufLen ≠ rxBufferSize
        | some .processShortBuffer =>
            IsTerminal (fun k => rxmsg.data8 (2 + k)) →
              2 ≤ rxmsg.dlc.toNat ∧ rxmsg.dlc.toNat < 8
        | _ => True) := by
  unfold CanState.processAddressed
  cases hcmd : rxmsg.cmd with
  | none => simp
  | some cmd =>
      cases cmd with
      | setDuty | setCurrent | setCurrentBrake | setRpm | setPos =>
          simp [motorCommand, CanEffect.delivery]
      | fillRxBuffer | status => simp
      | fillRxBufferLong =>
          dsimp only
          split <;> simp
      | processRxBuffer =>
          have hholder : canHolder rxmsg = .canBuffer := by simp [canHolder, hcmd]
          dsimp only [CanState.processRxBuffer]
          rw [← CanRxFrame.rxbufLen]
          split
          next hlong =>
            simp only [List.filterMap_nil, List.not_mem_nil, false_implies, implies_true, true_iff]
            intros
            omega
          next hlen =>
            split
            next hcrc =>
              rw [hand_inside_iff _ _ _ _ (by unfold rxBufferSize at hlen; omega), hholder]
              simp only [hcrc, true_implies, Holder.start, Holder.size, decide_eq_false_iff_not,
                not_not]
              exact imp_congr_right fun _ => room_iff (Nat.le_of_not_lt hlen)
            next hcrc => simp [hcrc]
      | processShortBuffer =>
          have hholder : canHolder rxmsg = .canFrame := by simp [canHolder, hcmd]
          dsimp only [CanState.processShortBuffer]
          rw [hand_inside_iff _ _ _ _ (lengthAfter_lt rxmsg 2), hholder]
          simp only [Holder.start, Holder.size, decide_eq_false_iff_not, not_not]
          rw [← lengthAfter_two_iff]
          tauto

theorem canStep_inside_iff (s : CanState) (arrival : Arrival) :
    (∀ delivery ∈ (cancomProcess.step s arrival).2.filterMap CanEffect.delivery,
      ∀ store ∈ canZeros arrival.rxmsg delivery, store.Inside) ↔ CanFits s arrival.rxmsg := by
  unfold CanFits
  simp only [cancomProcess]
  by_cases hide : arrival.rxmsg.ide = true
  · by_cases haddressed : s.Addressed arrival.rxmsg
    · have haddressed' := haddressed
      unfold CanState.Addressed at haddressed'
      rw [if_pos hide, if_pos haddressed']
      simp only [processAddressed_inside_iff, hide, haddressed, true_implies]
    · have haddressed' := haddressed
      unfold CanState.Addressed at haddressed'
      rw [if_pos hide, if_neg haddressed']
      simp [haddressed]
  · simp [hide]

theorem nrfHand_inside_iff (s : NrfState) (data : Buffer) {len : Nat} (hlen : len < 2 ^ 32) :
    (∀ packet ∈ (s.hand data len).2.filterMap NrfEffect.packet,
      ∀ store ∈ nrfZeros s.buf packet, store.Inside) ↔
      (0 < len → IsTerminal data →
        (nrfHolder s.buf).start + len < (nrfHolder s.buf).size) := by
  rw [← Holder.zeros_inside_iff _ _ hlen]
  simp [NrfState.hand, NrfEffect.packet, nrfZeros]

theorem unsigned_lt (n : Int) : unsigned n < 2 ^ 32 := BitVec.isLt _

theorem unsigned_short_iff {width : Nat} (hwidth : width ≤ 32) :
    (0 < unsigned ((width : Int) - 2 - 1) → 1 + unsigned ((width : Int) - 2 - 1) < 32) ↔
      3 ≤ width := by
  rw [unsigned, BitVec.toNat_ofInt]
  omega

theorem act_buf (s : NrfState) (len : Int) : (s.act len).1.buf = s.buf := by
  unfold NrfState.act
  cases MotePacket.ofCode (s.buf 0) with
  | none => rfl
  | some packet =>
      cases packet with
      | fillRxBufferLong =>
          dsimp only
          split <;> rfl
      | processRxBuffer =>
          dsimp only [NrfState.processRxBuffer]
          split
          · rfl
          · split <;> rfl
      | _ => rfl

theorem act_inside_iff (s : NrfState) {width : Nat} (hwidth : width ≤ 32) :
    (∀ packet ∈ (s.act ((width : Int) - 2)).2.filterMap NrfEffect.packet,
      ∀ store ∈ nrfZeros s.buf packet, store.Inside) ↔ PacketLeavesRoom s width := by
  unfold NrfState.act PacketLeavesRoom
  cases hpacket : MotePacket.ofCode (s.buf 0) with
  | none => simp
  | some packet =>
      cases packet with
      | battLevel | alive | fillRxBuffer => simp
      | buttons => simp [NrfState.buttons, NrfEffect.packet]
      | fillRxBufferLong =>
          dsimp only
          split <;> simp
      | processRxBuffer =>
          have hholder : nrfHolder s.buf = .nrfBuffer := by simp [nrfHolder, hpacket]
          dsimp only [NrfState.processRxBuffer]
          rw [← closed]
          split
          next hlong =>
            simp only [List.filterMap_nil, List.not_mem_nil, false_implies, implies_true, true_iff]
            intros
            omega
          next hlen =>
            split
            next hcrc =>
              have hlt : twoBytes s.buf < 2 ^ 32 := by
                unfold rxBufferSize at hlen
                omega
              refine (nrfHand_inside_iff { s with rxBuffer := closed s width } _ hlt).trans ?_
              simp only [hholder, hcrc, true_implies, Holder.start, Holder.size]
              exact room_iff (Nat.le_of_not_lt hlen)
            next hcrc => simp [hcrc]
      | processShortBuffer =>
          have hholder : nrfHolder s.buf = .nrfBuf := by simp [nrfHolder, hpacket]
          dsimp only
          rw [nrfHand_inside_iff _ _ (unsigned_lt _), hholder, ← unsigned_short_iff hwidth]
          simp only [Holder.start, Holder.size]
          tauto

theorem nrfStep_inside_iff (s : NrfState) (read : RfRead) :
    (∀ packet ∈ (nrfRx.step s read).2.filterMap NrfEffect.packet,
      ∀ store ∈ nrfZeros (nrfRx.step s read).1.buf packet, store.Inside) ↔ NrfFits s read := by
  cases read with
  | noData => simp [nrfRx, NrfFits, rfhelpReadRxDataCrc, rfhelpReadRxData]
  | payload width bytes more =>
      by_cases hwidth : width.toNat ≤ 32
      · obtain ⟨hres, hdata⟩ := rfhelpReadRxDataCrc_payload s.buf width bytes more hwidth
        unfold NrfFits
        by_cases hreported : Reported width bytes
        · have hstep : nrfRx.step s (.payload width bytes more) =
              { s with buf := memcpy s.buf 0 bytes width.toNat }.act ((width.toNat : Int) - 2) := by
            simp only [nrfRx, hdata]
            exact if_pos (hres.2 hreported)
          simp only [hstep, act_buf, act_inside_iff _ hwidth, hreported, true_implies]
        · have hnone : (nrfRx.step s (.payload width bytes more)).2 = [] := by
            simp only [nrfRx]
            rw [if_neg (mt hres.1 hreported)]
          simp [hnone, hreported]
      · simp [nrfRx, NrfFits, rfhelpReadRxDataCrc, rfhelpReadRxData, hwidth, Reported]

theorem packets_bounded {states : HandlerStates} (hbounded : ∀ i, Bounded (states i))
    (event : LinkEvent) (i : Fin packetHandlers) : Bounded ((packets.step states event).1 i) := by
  cases event with
  | tick => exact (hbounded i).timerfunc
  | byte handlerNum data =>
      by_cases hnum : i = handlerNum
      · subst hnum
        simpa [packets, packetProcessByte] using (hbounded i).processByte data
      · simpa [packets, packetProcessByte, Function.update_of_ne hnum] using hbounded i

/-- The handlers stay bounded. -/
theorem transports_bounded (s : Transports) (traffic : Traffic)
    (hbounded : ∀ i, Bounded (s.handlers i)) (i : Fin packetHandlers) :
    Bounded ((transports.step s traffic).1.handlers i) := by
  cases traffic with
  | link event => exact packets_bounded hbounded event i
  | can arrival => exact hbounded i
  | nrf read => exact hbounded i
  | send handlerNum data => exact hbounded i
  | handled handlers canBuffer nrfBuffer nrfBuf => exact hbounded i

theorem transports_inside_iff (s : Transports) (traffic : Traffic)
    (hbounded : ∀ i, Bounded (s.handlers i)) :
    (∀ store ∈ (transports.step s traffic).2, store.Inside) ↔ s.Fits traffic := by
  cases traffic with
  | link event =>
      cases event with
      | tick => simp [transports, packets, Transports.Fits]
      | byte handlerNum data =>
          simp only [transports, List.forall_mem_flatMap]
          exact linkByte_inside_iff (hbounded handlerNum) data
  | can arrival =>
      simp only [transports, List.forall_mem_flatMap]
      exact canStep_inside_iff s.can arrival
  | nrf read =>
      simp only [transports, List.forall_mem_flatMap]
      exact nrfStep_inside_iff s.nrf read
  | send handlerNum data => exact sendStores_inside_iff s.handlers handlerNum data
  | handled handlers canBuffer nrfBuffer nrfBuf => simp [transports, Transports.Fits]

/-! ## Every run -/

/-- From idle handlers, every store of a run stays in its buffer iff everything fits when it
comes. -/
theorem stores_inside_iff (s : Transports) (hidle : ∀ i, Idle i s.handlers)
    (traffic : List Traffic) :
    (∀ store ∈ (transports.run s traffic).2, store.Inside) ↔
      transports.Always Transports.Fits s traffic := by
  have hbounded : ∀ i, Bounded (s.handlers i) := by
    intro i hstate
    rw [hidle i] at hstate
    exact absurd hstate (by decide)
  have hstep : ∀ (state : Transports) (event : Traffic), (∀ i, Bounded (state.handlers i)) →
      (state.Fits event ↔ (∀ i, Bounded ((transports.step state event).1.handlers i)) ∧
        ∀ store ∈ (transports.step state event).2, store.Inside) := by
    intro state event hstate
    rw [transports_inside_iff state event hstate]
    exact (and_iff_right (transports_bounded state event hstate)).symm
  rw [Machine.always_iff_run hstep hbounded]
  refine (and_iff_right fun before after _ => ?_).symm
  exact Machine.run_invariant (I := fun state : Transports => ∀ i, Bounded (state.handlers i))
    transports_bounded hbounded before

/-- The transports after start-up. -/
def booted : Transports := ⟨ready, bootedCan, bootedNrf⟩

/-- A terminal command of the given characters, in a CAN frame of its own. -/
def terminalFrame (str : List Byte) : CanRxFrame :=
  (commCanTransmit (canId 5 .processShortBuffer)
    ([3, 0, CommPacketId.terminalCmd.code] ++ str)).onBus

def pingTraffic : List Traffic :=
  [.can ⟨0, terminalFrame [0x70, 0x69, 0x6E, 0x67]⟩, .send uartHandler []]

/-- Four characters over CAN have the zero in the last byte of the frame; with the shortest
frame over the UART. -/
theorem stores_inside_ping :
    ⟨8, 7, 1⟩ ∈ (transports.run booted pingTraffic).2 ∧
      ∀ store ∈ (transports.run booted pingTraffic).2, store.Inside := by
  refine ⟨by decide,
    (stores_inside_iff booted (fun i => (ready_idle i).1) _).2 ⟨?_, ?_, trivial⟩⟩
  · intro _ _ _
    have hcmd : (terminalFrame [0x70, 0x69, 0x6E, 0x67]).cmd = some .processShortBuffer := by
      decide
    rw [hcmd]
    exact fun _ => by decide
  · exact fun _ _ => by decide

/-! ## The longest packets -/

theorem transports_run_link (s : Transports) (events : List LinkEvent) :
    (transports.run s (events.map .link)).2 = (packets.run s.handlers events).2.flatMap
      fun delivery => Holder.handler.zeros (ofBytes delivery.2) delivery.2.length := by
  induction events generalizing s with
  | nil => rfl
  | cons event events ih =>
      rw [List.map_cons, Machine.run_cons, Machine.run_cons, List.flatMap_append, ih]
      rfl

/-- A handler that gets the longest terminal command writes behind its buffer. -/
theorem longest_overruns {s : Transports} {states : HandlerStates}
    {txNum rxNum : Fin packetHandlers} {p : List Byte} (hsend : (states txNum).sendFunc)
    (hidle : Idle rxNum s.handlers) (hprocess : (s.handlers rxNum).processFunc)
    (hlen : p.length = packetMaxPlLen) (hterminal : IsTerminal (ofBytes p)) :
    ∃ frame, packetSendPacket states txNum p = [frame] ∧
      ∃ store ∈ (transports.run s (frame.map fun byte => .link (.byte rxNum byte))).2,
        ¬store.Inside := by
  have hpos : 0 < p.length := by rw [hlen]; decide
  have h256 : p.length ≠ 256 := by rw [hlen]; decide
  obtain ⟨frame, hframe, hp⟩ := frame_packetSendPacket hsend hpos hlen.le h256
  refine ⟨frame, hframe, ?_⟩
  have hne : frame ≠ [] := by
    rintro rfl
    exact absurd hp.length_ge (by decide)
  have hevents : (frame.map (LinkEvent.byte rxNum)).filterMap (LinkEvent.at rxNum) =
      frame.map Event.byte := by
    rw [List.filterMap_map, ← List.filterMap_eq_map]
    refine List.filterMap_congr fun byte _ => ?_
    simp [LinkEvent.at]
  have hstream : Stream [frame] (frame.map Event.byte) := by
    simpa using Stream.cons 0 (spaced_bytes hne) (.nil 0)
  have hdelivered := packets_run_delivered rxNum s.handlers (frame.map (LinkEvent.byte rxNum))
  rw [hevents, run_frames (.cons hp .nil) hstream hidle hprocess] at hdelivered
  obtain ⟨⟨num, payload⟩, hmem, hpayload⟩ := List.mem_filterMap.1
    (hdelivered ▸ List.mem_singleton_self p)
  obtain rfl : payload = p := by
    unfold deliveredAt at hpayload
    split at hpayload
    · exact Option.some.inj hpayload
    · cases hpayload
  have hlt : payload.length < 2 ^ 32 := by rw [hlen]; decide
  have hout : ¬∀ store ∈ Holder.handler.zeros (ofBytes payload) payload.length, store.Inside := by
    rw [Holder.zeros_inside_iff _ _ hlt]
    intro hinside
    exact absurd (hinside hpos hterminal) (by rw [hlen]; decide)
  simp only [not_forall, exists_prop] at hout
  obtain ⟨store, hstore, hinside⟩ := hout
  refine ⟨store, ?_, hinside⟩
  have hlink := transports_run_link s (frame.map (LinkEvent.byte rxNum))
  rw [List.map_map] at hlink
  exact hlink ▸ List.mem_flatMap.2 ⟨_, hmem, hstore⟩

/-- The longest payload does not fit the staging buffer of the UART, and a terminal command
that fills a CAN frame has its zero behind the frame. -/
theorem not_inside_longest :
    (¬∀ store ∈ (transports.run booted [.send uartHandler (List.replicate 1024 0)]).2,
      store.Inside) ∧
    ¬∀ store ∈ (transports.run booted
      [.can ⟨0, terminalFrame [0x66, 0x61, 0x75, 0x6C, 0x74]⟩]).2, store.Inside := by
  constructor
  · intro hinside
    rw [Machine.run_cons, Machine.run_nil, List.append_nil] at hinside
    have hlong := (sendStores_inside_iff ready uartHandler (List.replicate 1024 0)).1 hinside
    exact hlong rfl rfl List.length_replicate
  · intro hinside
    refine absurd (hinside ⟨8, 8, 1⟩ ?_) (by simp [Store.Inside])
    decide

end Bldc.Sys
