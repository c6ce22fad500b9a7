import Bldc.Foundation.Machine
import Bldc.Link.Crc

/-!
# Packets on a byte stream

A payload travels in a frame: a start byte that says how long the length field
is, the length, the payload, its checksum and a stop byte. The receiver is a
machine of seven states that a timer resets when a frame stalls.
-/

namespace Bldc.Link

open Foundation Flash

/-- `PACKET_RX_TIMEOUT`. -/
def packetRxTimeout : Nat := 2

/-- `PACKET_HANDLERS`. -/
def packetHandlers : Nat := 2

/-- `PACKET_MAX_PL_LEN`. -/
def packetMaxPlLen : Nat := 1024

/-- `PACKET_STATE_t`. Of the two functions only whether they are set matters; the
transmit buffer is filled anew for every frame. -/
structure Handler where
  rxState : Nat
  rxTimeout : Nat
  sendFunc : Bool
  processFunc : Bool
  payloadLength : Nat
  rxBuffer : Nat → Byte
  rxDataPtr : Nat
  crcLow : Byte
  crcHigh : Byte

/-- `handler_states`. -/
abbrev HandlerStates := Fin packetHandlers → Handler

/-- `packet_init`. -/
def packetInit (handlerNum : Fin packetHandlers) (states : HandlerStates) : HandlerStates :=
  Function.update states handlerNum
    { states handlerNum with sendFunc := true, processFunc := true }

/-- The two checksum bytes of a frame. -/
def crcBytes (crc : Half) : List Byte := [crc.extractLsb' 8 8, crc.extractLsb' 0 8]

def packetHeader (len : Nat) : List Byte :=
  if len ≤ 256 then [2, BitVec.ofNat 8 len]
  else [3, BitVec.ofNat 8 (len >>> 8), BitVec.ofNat 8 (len &&& 0xFF)]

/-- `packet_send_packet`: the byte strings handed to `send_func`. -/
def packetSendPacket (states : HandlerStates) (handlerNum : Fin packetHandlers)
    (data : List Byte) : List (List Byte) :=
  if data.length > packetMaxPlLen then []
  else if (states handlerNum).sendFunc then
    [packetHeader data.length ++ data ++ crcBytes (crc16 data) ++ [3]]
  else []

/-- The payload that `process_func` is given. -/
def Handler.received (h : Handler) : List Byte := (List.range h.payloadLength).map h.rxBuffer

/-- `packet_timerfunc` for one handler. -/
def Handler.timerfunc (h : Handler) : Handler :=
  if h.rxTimeout ≠ 0 then { h with rxTimeout := h.rxTimeout - 1 } else { h with rxState := 0 }

/-- `packet_process_byte` for one handler, with the calls of `process_func`. -/
def Handler.processByte (h : Handler) (rxData : Byte) : Handler × List (List Byte) :=
  match h.rxState with
  | 0 =>
      if rxData = 2 then
        ({ h with
          rxState := h.rxState + 2
          rxTimeout := packetRxTimeout
          rxDataPtr := 0
          payloadLength := 0 }, [])
      else if rxData = 3 then
        ({ h with
          rxState := h.rxState + 1
          rxTimeout := packetRxTimeout
          rxDataPtr := 0
          payloadLength := 0 }, [])
      else ({ h with rxState := 0 }, [])
  | 1 =>
      ({ h with
        payloadLength := rxData.toNat <<< 8
        rxState := h.rxState + 1
        rxTimeout := packetRxTimeout }, [])
  | 2 =>
      let payloadLength := h.payloadLength ||| rxData.toNat
      if payloadLength > 0 ∧ payloadLength ≤ packetMaxPlLen then
        ({ h with
          payloadLength := payloadLength
          rxState := h.rxState + 1
          rxTimeout := packetRxTimeout }, [])
      else ({ h with payloadLength := payloadLength, rxState := 0 }, [])
  | 3 =>
      ({ h with
        rxBuffer := Function.update h.rxBuffer h.rxDataPtr rxData
        rxDataPtr := h.rxDataPtr + 1
        rxState := if h.rxDataPtr + 1 = h.payloadLength then h.rxState + 1 else h.rxState
        rxTimeout := packetRxTimeout }, [])
  | 4 => ({ h with crcHigh := rxData, rxState := h.rxState + 1, rxTimeout := packetRxTimeout }, [])
  | 5 => ({ h with crcLow := rxData, rxState := h.rxState + 1, rxTimeout := packetRxTimeout }, [])
  | 6 =>
      ({ h with rxState := 0 },
        if rxData = 3 ∧ crc16 h.received = h.crcHigh ++ h.crcLow ∧ h.processFunc then [h.received]
        else [])
  | _ => ({ h with rxState := 0 }, [])

/-- `packet_timerfunc`. -/
def packetTimerfunc (states : HandlerStates) : HandlerStates := fun i => (states i).timerfunc

/-- `packet_process_byte`. -/
def packetProcessByte (rxData : Byte) (handlerNum : Fin packetHandlers) (states : HandlerStates) :
    HandlerStates × List (List Byte) :=
  let result := (states handlerNum).processByte rxData
  (Function.update states handlerNum result.1, result.2)

/-- What reaches the receiver: a byte, or the timer every millisecond. -/
inductive Event where
  | byte (data : Byte)
  | tick
  deriving DecidableEq, Repr

/-- The receiving side of one handler. -/
def link (handlerNum : Fin packetHandlers) : Machine HandlerStates Event (List Byte) where
  step states
    | .byte data => packetProcessByte data handlerNum states
    | .tick => (packetTimerfunc states, [])

/-- The same on the state of that handler alone. -/
def receiver : Machine Handler Event (List Byte) where
  step h
    | .byte data => h.processByte data
    | .tick => (h.timerfunc, [])

theorem link_run (handlerNum : Fin packetHandlers) (states : HandlerStates)
    (events : List Event) :
    (((link handlerNum).run states events).1 handlerNum,
        ((link handlerNum).run states events).2) =
      receiver.run (states handlerNum) events := by
  apply Machine.run_view fun states : HandlerStates => states handlerNum
  intro states event
  cases event with
  | byte data => simp [link, receiver, packetProcessByte]
  | tick => rfl

/-! ## Frames as the receiver takes them -/

/-- What follows the payload. -/
def trailer (p : List Byte) : List Byte := crcBytes (crc16 p) ++ [3]

/-- The frames of a payload: with one length byte, or with two. -/
inductive Frame (p : List Byte) : List Byte → Prop
  | short {len : Byte} (hpos : 0 < p.length) (hlen : len.toNat = p.length) :
      Frame p (2 :: len :: (p ++ trailer p))
  | long {high low : Byte} (hpos : 0 < p.length) (hmax : p.length ≤ packetMaxPlLen)
      (hlen : high.toNat <<< 8 ||| low.toNat = p.length) :
      Frame p (3 :: high :: low :: (p ++ trailer p))

/-- In the middle of a frame of `p`, these bytes are still to come. -/
inductive Expects (p : List Byte) (h : Handler) : List Byte → Prop
  | start {bytes : List Byte} (hstate : h.rxState = 0) (hframe : Frame p bytes) :
      Expects p h bytes
  | lengthHigh {high low : Byte} (hstate : h.rxState = 1) (hptr : h.rxDataPtr = 0)
      (hpos : 0 < p.length) (hmax : p.length ≤ packetMaxPlLen)
      (hlen : high.toNat <<< 8 ||| low.toNat = p.length) :
      Expects p h (high :: low :: (p ++ trailer p))
  | lengthLow {low : Byte} (hstate : h.rxState = 2) (hptr : h.rxDataPtr = 0)
      (hpos : 0 < p.length) (hmax : p.length ≤ packetMaxPlLen)
      (hlen : h.payloadLength ||| low.toNat = p.length) :
      Expects p h (low :: (p ++ trailer p))
  | payload {byte : Byte} {rest : List Byte} (hstate : h.rxState = 3)
      (hlen : h.payloadLength = p.length)
      (hsplit : p = (List.range h.rxDataPtr).map h.rxBuffer ++ byte :: rest) :
      Expects p h (byte :: (rest ++ trailer p))
  | crcHigh (hstate : h.rxState = 4) (hreceived : h.received = p) : Expects p h (trailer p)
  | crcLow (hstate : h.rxState = 5) (hreceived : h.received = p)
      (hhigh : h.crcHigh = (crc16 p).extractLsb' 8 8) :
      Expects p h [(crc16 p).extractLsb' 0 8, 3]
  | stop (hstate : h.rxState = 6) (hreceived : h.received = p)
      (hcrc : h.crcHigh ++ h.crcLow = crc16 p) : Expects p h [3]

/-- The timer does not show in what is expected. -/
theorem Expects.timeout {p : List Byte} {h : Handler} {bytes : List Byte}
    (hexp : Expects p h bytes) (timeout : Nat) :
    Expects p { h with rxTimeout := timeout } bytes := by
  cases hexp with
  | start hstate hframe => exact .start hstate hframe
  | lengthHigh hstate hptr hpos hmax hlen => exact .lengthHigh hstate hptr hpos hmax hlen
  | lengthLow hstate hptr hpos hmax hlen => exact .lengthLow hstate hptr hpos hmax hlen
  | payload hstate hlen hsplit => exact .payload hstate hlen hsplit
  | crcHigh hstate hreceived => exact .crcHigh hstate hreceived
  | crcLow hstate hreceived hhigh => exact .crcLow hstate hreceived hhigh
  | stop hstate hreceived hcrc => exact .stop hstate hreceived hcrc

/-- One more payload byte. -/
theorem received_update {buffer : Nat → Byte} (n : Nat) (byte : Byte) :
    (List.range (n + 1)).map (Function.update buffer n byte) =
      (List.range n).map buffer ++ [byte] := by
  rw [List.range_succ, List.map_append, List.map_singleton, Function.update_self]
  congr 1
  apply List.map_congr_left
  intro i hi
  rw [Function.update_of_ne (Nat.ne_of_lt (List.mem_range.1 hi))]

theorem Expects.payload_start {p : List Byte} {h : Handler} (hstate : h.rxState = 3)
    (hlen : h.payloadLength = p.length) (hptr : h.rxDataPtr = 0) (hpos : 0 < p.length) :
    Expects p h (p ++ trailer p) := by
  cases p with
  | nil => simp at hpos
  | cons byte rest => exact .payload hstate hlen (by simp [hptr])

/-- The checksum and the stop byte, or more of the payload. -/
theorem Expects.payload_next {p : List Byte} {h : Handler} {rest : List Byte}
    (hstate : h.rxState = if h.rxDataPtr = p.length then 4 else 3)
    (hlen : h.payloadLength = p.length)
    (hsplit : p = (List.range h.rxDataPtr).map h.rxBuffer ++ rest) :
    Expects p h (rest ++ trailer p) := by
  have hlength := congrArg List.length hsplit
  rw [List.length_append, List.length_map, List.length_range] at hlength
  cases rest with
  | nil =>
      have hptr : h.rxDataPtr = p.length := by simpa using hlength.symm
      rw [if_pos hptr] at hstate
      refine .crcHigh hstate ?_
      rw [Handler.received, hlen, ← hptr]
      simpa using hsplit.symm
  | cons byte rest =>
      rw [if_neg (by simp at hlength; omega)] at hstate
      exact .payload hstate hlen hsplit

variable {p : List Byte} {h : Handler}

/-- A byte in the middle of a frame delivers nothing and restarts the timer. -/
theorem Expects.step {byte : Byte} {rest : List Byte} (hexp : Expects p h (byte :: rest))
    (hrest : rest ≠ []) :
    (h.processByte byte).2 = [] ∧ (h.processByte byte).1.rxTimeout = packetRxTimeout ∧
      (h.processByte byte).1.processFunc = h.processFunc ∧
      Expects p (h.processByte byte).1 rest := by
  cases hexp with
  | start hstate hframe =>
      cases hframe with
      | short hpos hlen =>
          rename_i len
          have hmax : p.length ≤ packetMaxPlLen := by
            have := len.isLt
            unfold packetMaxPlLen
            omega
          simp only [Handler.processByte, hstate, if_true, true_and]
          exact .lengthLow rfl rfl hpos hmax (by simpa using hlen)
      | long hpos hmax hlen =>
          simp only [Handler.processByte, hstate]
          exact ⟨rfl, rfl, rfl, .lengthHigh rfl rfl hpos hmax hlen⟩
  | lengthHigh hstate hptr hpos hmax hlen =>
      simp only [Handler.processByte, hstate, true_and]
      exact .lengthLow rfl hptr hpos hmax hlen
  | lengthLow hstate hptr hpos hmax hlen =>
      simp only [Handler.processByte, hstate, hlen, gt_iff_lt, hpos, hmax, and_self, if_true,
        true_and]
      exact .payload_start rfl rfl hptr hpos
  | payload hstate hlen hsplit =>
      simp only [Handler.processByte, hstate, true_and]
      refine .payload_next ?_ hlen ?_
      · simp [hlen]
      · rw [received_update, List.append_assoc]
        exact hsplit
  | crcHigh hstate hreceived =>
      simp only [Handler.processByte, hstate, true_and]
      exact .crcLow rfl hreceived rfl
  | crcLow hstate hreceived hhigh =>
      simp only [Handler.processByte, hstate, true_and]
      refine .stop rfl hreceived ?_
      simp only [hhigh]
      exact half_split _
  | stop => exact absurd rfl hrest

/-- The stop byte delivers the payload. -/
theorem Expects.last {byte : Byte} (hexp : Expects p h [byte]) (hprocess : h.processFunc) :
    (h.processByte byte).2 = [p] ∧ (h.processByte byte).1.rxState = 0 ∧
      (h.processByte byte).1.processFunc := by
  generalize hbytes : [byte] = bytes at hexp
  cases hexp with
  | start hstate hframe => cases hframe <;> simp at hbytes
  | lengthHigh => simp at hbytes
  | lengthLow => simp [trailer] at hbytes
  | payload => simp [trailer] at hbytes
  | crcHigh => simp [trailer, crcBytes] at hbytes
  | crcLow => simp at hbytes
  | stop hstate hreceived hcrc =>
      obtain rfl : byte = 3 := by simpa using hbytes
      simp [Handler.processByte, hstate, hreceived, hcrc, hprocess]

/-! ## Streams -/

/-- The bytes of a frame with at most `PACKET_RX_TIMEOUT` ticks between two of
them. -/
inductive Spaced : List Byte → List Event → Prop
  | last (byte : Byte) : Spaced [byte] [.byte byte]
  | cons (byte : Byte) {ticks : Nat} {bytes : List Byte} {events : List Event}
      (hticks : ticks ≤ packetRxTimeout) (hrest : Spaced bytes events) :
      Spaced (byte :: bytes) (.byte byte :: (List.replicate ticks .tick ++ events))

/-- Frames one after the other, with any number of ticks around them. -/
inductive Stream : List (List Byte) → List Event → Prop
  | nil (ticks : Nat) : Stream [] (List.replicate ticks .tick)
  | cons (ticks : Nat) {frame : List Byte} {frames : List (List Byte)} {events rest : List Event}
      (hframe : Spaced frame events) (hrest : Stream frames rest) :
      Stream (frame :: frames) (List.replicate ticks .tick ++ events ++ rest)

theorem Spaced.ne_nil {bytes : List Byte} {events : List Event} (hspaced : Spaced bytes events) :
    bytes ≠ [] := by
  cases hspaced <;> simp

/-- Ticks within the timeout only count it down. -/
theorem run_ticks {ticks : Nat} (hticks : ticks ≤ h.rxTimeout) :
    receiver.run h (List.replicate ticks .tick) =
      ({ h with rxTimeout := h.rxTimeout - ticks }, []) := by
  induction ticks generalizing h with
  | zero => rfl
  | succ ticks ih =>
      have hstep : receiver.step h .tick = ({ h with rxTimeout := h.rxTimeout - 1 }, []) := by
        simp [receiver, Handler.timerfunc, show h.rxTimeout ≠ 0 by omega]
      rw [List.replicate_succ, Machine.run_cons, hstep, ih (by simp; omega)]
      simp [Nat.sub_sub, Nat.add_comm]

/-- Ticks between frames do nothing. -/
theorem run_ticks_idle (hstate : h.rxState = 0) (ticks : Nat) :
    (receiver.run h (List.replicate ticks .tick)).2 = [] ∧
      (receiver.run h (List.replicate ticks .tick)).1.rxState = 0 ∧
      (receiver.run h (List.replicate ticks .tick)).1.processFunc = h.processFunc := by
  induction ticks generalizing h with
  | zero => exact ⟨rfl, hstate, rfl⟩
  | succ ticks ih =>
      have hidle : h.timerfunc.rxState = 0 := by
        unfold Handler.timerfunc
        split
        · exact hstate
        · rfl
      have hprocess : h.timerfunc.processFunc = h.processFunc := by
        unfold Handler.timerfunc
        split <;> rfl
      rw [← hprocess]
      exact ih hidle

/-- A frame whose bytes come in time is delivered. -/
theorem run_expected {bytes : List Byte} {events : List Event} (hspaced : Spaced bytes events) :
    ∀ {h : Handler}, Expects p h bytes → h.processFunc →
      (receiver.run h events).2 = [p] ∧ (receiver.run h events).1.rxState = 0 ∧
        (receiver.run h events).1.processFunc := by
  induction hspaced with
  | last byte =>
      intro h hexp hprocess
      simpa [receiver] using hexp.last hprocess
  | @cons byte ticks bytes events hticks hrest ih =>
      intro h hexp hprocess
      obtain ⟨hnone, htimeout, hkeep, hexp'⟩ := hexp.step hrest.ne_nil
      rw [← htimeout] at hticks
      have hbyte : receiver.step h (.byte byte) = ((h.processByte byte).1, []) := by
        rw [← hnone]
        rfl
      rw [Machine.run_cons, hbyte, Machine.run_append, run_ticks hticks]
      exact ih (hexp'.timeout ((h.processByte byte).1.rxTimeout - ticks)) (hkeep.trans hprocess)

theorem run_frames {payloads frames : List (List Byte)} {events : List Event}
    (hframes : List.Forall₂ Frame payloads frames) (hstream : Stream frames events)
    (hstate : h.rxState = 0) (hprocess : h.processFunc) :
    (receiver.run h events).2 = payloads := by
  induction hframes generalizing h events with
  | nil =>
      cases hstream with
      | nil ticks => exact (run_ticks_idle hstate ticks).1
  | cons hframe _ ih =>
      cases hstream with
      | cons ticks hspaced hrest =>
          obtain ⟨hnone, hstate', hkeep⟩ := run_ticks_idle hstate ticks
          obtain ⟨hone, hstate'', hprocess'⟩ :=
            run_expected hspaced (.start hstate' hframe) (hkeep.trans hprocess)
          rw [List.append_assoc, Machine.run_append, Machine.run_append, hnone, hone,
            ih hrest hstate'' hprocess']
          rfl

/-! ## What the sender produces -/

variable {states : HandlerStates} {handlerNum : Fin packetHandlers}

/-- Except at 256 bytes, the sender produces a frame. -/
theorem frame_packetSendPacket (hsend : (states handlerNum).sendFunc) (hpos : 0 < p.length)
    (hmax : p.length ≤ packetMaxPlLen) (hne : p.length ≠ 256) :
    ∃ frame, packetSendPacket states handlerNum p = [frame] ∧ Frame p frame := by
  have hheader : ∃ header, packetHeader p.length = header ∧ Frame p (header ++ p ++ trailer p) := by
    unfold packetHeader
    split
    · refine ⟨_, rfl, .short hpos ?_⟩
      simp only [BitVec.toNat_ofNat]
      omega
    · refine ⟨_, rfl, .long hpos hmax ?_⟩
      unfold packetMaxPlLen at hmax
      have hlow : p.length &&& 0xFF = p.length % 2 ^ 8 := Nat.and_two_pow_sub_one_eq_mod _ 8
      rw [hlow, BitVec.toNat_ofNat, BitVec.toNat_ofNat, Nat.mod_mod,
        ← Nat.shiftLeft_add_eq_or_of_lt (Nat.mod_lt _ (by decide)), Nat.shiftRight_eq_div_pow,
        Nat.shiftLeft_eq]
      omega
  obtain ⟨header, hheader, hframe⟩ := hheader
  refine ⟨_, ?_, hframe⟩
  rw [packetSendPacket, if_neg (by omega), if_pos hsend, hheader, trailer]
  simp

theorem length_packetSendPacket (hsend : (states handlerNum).sendFunc)
    (hmax : p.length ≤ packetMaxPlLen) :
    ∃ frame, packetSendPacket states handlerNum p = [frame] ∧
      frame.length = p.length + if p.length ≤ 256 then 5 else 6 := by
  refine ⟨_, by rw [packetSendPacket, if_neg (by omega), if_pos hsend], ?_⟩
  unfold packetHeader
  split <;> simp [crcBytes]

/-! ## What a delivery takes -/

/-- Bytes a delivered payload has consumed, at least. -/
def frameCost (p : List Byte) : Nat := p.length + if p.length < 256 then 5 else 6

/-- Bytes of the current frame consumed so far, at least. -/
def Handler.progress (h : Handler) : Nat :=
  let long := if h.payloadLength < 256 then 0 else 1
  match h.rxState with
  | 1 => 1
  | 2 => 1 + long
  | 3 => 2 + long + h.rxDataPtr
  | 4 => 2 + long + h.payloadLength
  | 5 => 3 + long + h.payloadLength
  | 6 => 4 + long + h.payloadLength
  | _ => 0

/-- The states a handler gets into from state 0. -/
structure Handler.Regular (h : Handler) : Prop where
  lengthHigh : h.rxState = 1 → h.rxDataPtr = 0
  lengthLow : h.rxState = 2 → h.rxDataPtr = 0 ∧ h.payloadLength % 256 = 0
  payload : h.rxState = 3 → h.rxDataPtr < h.payloadLength

/-- The bytes an event brings. -/
def Event.bytes : Event → Nat
  | .byte _ => 1
  | .tick => 0

theorem Handler.regular_of_idle (hstate : h.rxState = 0) : h.Regular := by
  constructor <;> simp [hstate]

theorem or_byte {n : Nat} (hmod : n % 256 = 0) (byte : Byte) :
    n ||| byte.toNat = n + byte.toNat := by
  obtain ⟨k, rfl⟩ : ∃ k, n = k <<< 8 := ⟨n / 256, by rw [Nat.shiftLeft_eq]; omega⟩
  exact (Nat.shiftLeft_add_eq_or_of_lt byte.isLt k).symm

theorem Handler.Regular.processByte (hregular : h.Regular) (byte : Byte) :
    (h.processByte byte).1.Regular := by
  unfold Handler.processByte
  split
  next hstate =>
    split
    · constructor <;> simp [hstate]
    · split
      · constructor <;> simp [hstate]
      · exact regular_of_idle rfl
  next hstate =>
    constructor <;> simp [hstate, hregular.lengthHigh hstate, Nat.shiftLeft_eq]
  next hstate =>
    obtain ⟨hptr, -⟩ := hregular.lengthLow hstate
    dsimp only
    split
    next hlen =>
      constructor <;> simp [hstate, hptr]
      simpa using hlen.1
    next => exact regular_of_idle rfl
  next hstate =>
    have hptr := hregular.payload hstate
    by_cases hlast : h.rxDataPtr + 1 = h.payloadLength
    · constructor <;> simp [hstate, hlast]
    · constructor <;> simp [hstate, hlast]
      omega
  next hstate => constructor <;> simp [hstate]
  next hstate => constructor <;> simp [hstate]
  next => exact regular_of_idle rfl
  next => exact regular_of_idle rfl

theorem Handler.Regular.timerfunc (hregular : h.Regular) : h.timerfunc.Regular := by
  unfold Handler.timerfunc
  split
  · exact ⟨hregular.lengthHigh, hregular.lengthLow, hregular.payload⟩
  · exact regular_of_idle rfl

theorem Handler.Regular.step (hregular : h.Regular) (event : Event) :
    (receiver.step h event).1.Regular := by
  cases event with
  | byte data => exact hregular.processByte data
  | tick => exact hregular.timerfunc

theorem Handler.Regular.progress_processByte (hregular : h.Regular) (byte : Byte) :
    ((h.processByte byte).2.map frameCost).sum + (h.processByte byte).1.progress ≤
      h.progress + 1 := by
  unfold Handler.processByte
  split
  next hstate =>
    split
    · simp [progress, hstate]
    · split <;> simp [progress, hstate]
  next hstate =>
    simp only [progress, hstate, List.map_nil, List.sum_nil]
    split <;> omega
  next hstate =>
    obtain ⟨hptr, hmod⟩ := hregular.lengthLow hstate
    dsimp only
    rw [or_byte hmod]
    have hbyte := byte.isLt
    split
    · simp only [progress, hstate, hptr, List.map_nil, List.sum_nil]
      split <;> split <;> omega
    · simp [progress]
  next hstate =>
    by_cases hlast : h.rxDataPtr + 1 = h.payloadLength
    · simp only [progress, hstate, hlast, List.map_nil, List.sum_nil, if_true]
      omega
    · simp only [progress, hstate, hlast, List.map_nil, List.sum_nil, if_false]
      omega
  next hstate =>
    simp only [progress, hstate, List.map_nil, List.sum_nil]
    omega
  next hstate =>
    simp only [progress, hstate, List.map_nil, List.sum_nil]
    omega
  next hstate =>
    simp only [progress, hstate]
    split
    · simp only [List.map_cons, List.map_nil, List.sum_singleton, frameCost, received,
        List.length_map, List.length_range]
      split <;> omega
    · simp
  next => simp [progress]

theorem Handler.Regular.progress_step (hregular : h.Regular) (event : Event) :
    ((receiver.step h event).2.map frameCost).sum + (receiver.step h event).1.progress ≤
      h.progress + event.bytes := by
  cases event with
  | byte data => exact hregular.progress_processByte data
  | tick =>
      simp only [receiver, List.map_nil, List.sum_nil, Event.bytes]
      unfold Handler.timerfunc
      split <;> simp [Handler.progress]

/-- Nothing is delivered that was not paid for in bytes. -/
theorem frameCost_run (hstate : h.rxState = 0) (events : List Event) :
    ((receiver.run h events).2.map frameCost).sum ≤ (events.map Event.bytes).sum := by
  have hrun := Machine.run_potential (fun _ event hregular => hregular.step event)
    (fun _ event hregular => hregular.progress_step event) (Handler.regular_of_idle hstate) events
  have hzero : h.progress = 0 := by simp [Handler.progress, hstate]
  omega

theorem Spaced.bytes_sum {bytes : List Byte} {events : List Event}
    (hspaced : Spaced bytes events) : (events.map Event.bytes).sum = bytes.length := by
  induction hspaced with
  | last byte => rfl
  | cons byte hticks hrest ih => simp [Event.bytes, ih, Nat.add_comm]

theorem Stream.bytes_sum {frames : List (List Byte)} {events : List Event}
    (hstream : Stream frames events) :
    (events.map Event.bytes).sum = (frames.map List.length).sum := by
  induction hstream with
  | nil ticks => simp [Event.bytes]
  | cons ticks hframe hrest ih => simp [Event.bytes, ih, hframe.bytes_sum]

/-- A payload of 256 bytes is sent in fewer bytes than its delivery takes. -/
theorem sum_length_add_le (hsend : (states handlerNum).sendFunc) {payloads : List (List Byte)}
    (hmax : ∀ p ∈ payloads, p.length ≤ packetMaxPlLen) :
    ((payloads.flatMap (packetSendPacket states handlerNum)).map List.length).sum +
        (payloads.filter fun p => p.length = 256).length ≤ (payloads.map frameCost).sum := by
  induction payloads with
  | nil => simp
  | cons p payloads ih =>
      obtain ⟨frame, hframe, hlength⟩ :=
        length_packetSendPacket (p := p) hsend (hmax p List.mem_cons_self)
      have hrest := ih fun q hq => hmax q (List.mem_cons_of_mem p hq)
      have hcost : frame.length + (if p.length = 256 then 1 else 0) ≤ frameCost p := by
        rw [hlength, frameCost]
        split <;> split <;> split <;> omega
      simp only [List.flatMap_cons, hframe, List.map_append, List.map_cons, List.map_nil,
        List.sum_append, List.sum_cons, List.sum_nil, List.filter_cons]
      split at hcost
      next h256 =>
        simp only [h256, decide_true, if_true, List.length_cons] at hcost hrest ⊢
        omega
      next h256 =>
        simp only [h256, decide_false, Bool.false_eq_true, if_false]
        omega

theorem forall₂_frames (hsend : (states handlerNum).sendFunc) {payloads : List (List Byte)}
    (hlen : ∀ p ∈ payloads, 0 < p.length ∧ p.length ≤ packetMaxPlLen)
    (hne : ∀ p ∈ payloads, p.length ≠ 256) :
    List.Forall₂ Frame payloads (payloads.flatMap (packetSendPacket states handlerNum)) := by
  induction payloads with
  | nil => exact .nil
  | cons p payloads ih =>
      obtain ⟨frame, hframe, hp⟩ := frame_packetSendPacket hsend (hlen p List.mem_cons_self).1
        (hlen p List.mem_cons_self).2 (hne p List.mem_cons_self)
      rw [List.flatMap_cons, hframe]
      exact .cons hp (ih (fun q hq => hlen q (List.mem_cons_of_mem p hq))
        fun q hq => hne q (List.mem_cons_of_mem p hq))

theorem run_frames_256 {payloads : List (List Byte)} {events : List Event}
    (hsend : (states handlerNum).sendFunc) (hmax : ∀ p ∈ payloads, p.length ≤ packetMaxPlLen)
    (hstream : Stream (payloads.flatMap (packetSendPacket states handlerNum)) events)
    (hstate : h.rxState = 0) (hp : p ∈ payloads) (h256 : p.length = 256) :
    (receiver.run h events).2 ≠ payloads := by
  intro hdelivered
  have hpaid := frameCost_run hstate events
  have hsent := sum_length_add_le hsend hmax
  have hcount : 0 < (payloads.filter fun p => p.length = 256).length :=
    List.length_pos_of_mem (List.mem_filter.2 ⟨hp, by simpa using h256⟩)
  rw [hdelivered, hstream.bytes_sum] at hpaid
  omega

theorem link_run_snd (states : HandlerStates) (handlerNum : Fin packetHandlers)
    (events : List Event) :
    ((link handlerNum).run states events).2 = (receiver.run (states handlerNum) events).2 :=
  congrArg Prod.snd (link_run handlerNum states events)

/-- A stream of frames delivers exactly the payloads sent if and only if none of
them has 256 bytes. -/
theorem delivered_iff_ne_256 (tx rx : HandlerStates) (txNum rxNum : Fin packetHandlers)
    (payloads : List (List Byte)) (events : List Event) (hsend : (tx txNum).sendFunc)
    (hprocess : (rx rxNum).processFunc) (hstate : (rx rxNum).rxState = 0)
    (hlen : ∀ p ∈ payloads, 0 < p.length ∧ p.length ≤ packetMaxPlLen)
    (hstream : Stream (payloads.flatMap (packetSendPacket tx txNum)) events) :
    ((link rxNum).run rx events).2 = payloads ↔ ∀ p ∈ payloads, p.length ≠ 256 := by
  rw [link_run_snd]
  constructor
  · intro hdelivered p hp h256
    exact run_frames_256 hsend (fun q hq => (hlen q hq).2) hstream hstate hp h256 hdelivered
  · intro hne
    exact run_frames (forall₂_frames hsend hlen hne) hstream hstate hprocess

/-- Frames without any ticks. -/
theorem spaced_bytes {bytes : List Byte} (hne : bytes ≠ []) :
    Spaced bytes (bytes.map Event.byte) := by
  induction bytes with
  | nil => exact absurd rfl hne
  | cons byte bytes ih =>
      cases bytes with
      | nil => exact .last byte
      | cons next bytes => exact .cons byte (Nat.zero_le _) (ih (by simp))

/-- Every payload can be sent. -/
theorem exists_stream (states : HandlerStates) (handlerNum : Fin packetHandlers)
    (hsend : (states handlerNum).sendFunc) (hmax : p.length ≤ packetMaxPlLen) :
    ∃ events, Stream ([p].flatMap (packetSendPacket states handlerNum)) events := by
  obtain ⟨frame, hframe, hlength⟩ := length_packetSendPacket (p := p) hsend hmax
  have hne : frame ≠ [] := by
    rintro rfl
    simp at hlength
    split at hlength <;> omega
  rw [List.flatMap_cons, List.flatMap_nil, hframe, List.append_nil]
  exact ⟨_, .cons 0 (spaced_bytes hne) (.nil 0)⟩

/-- Handler 0 is the USB link, handler 1 the UART. -/
def usbHandler : Fin packetHandlers := ⟨0, by decide⟩

def uartHandler : Fin packetHandlers := ⟨1, by decide⟩

/-- Both handlers after start-up. -/
def ready : HandlerStates :=
  packetInit uartHandler (packetInit usbHandler fun _ =>
    ⟨0, 0, false, false, 0, fun _ => 0, 0, 0, 0⟩)

/-- One byte over the UART, with two ticks after the start byte. -/
theorem delivered_iff_ne_256_one :
    ((link uartHandler).run ready (.byte 2 :: .tick :: .tick ::
      [1, 5, 0x50, 0xA5, 3].map Event.byte)).2 = [[5]] := by
  refine (delivered_iff_ne_256 ready ready usbHandler uartHandler [[5]] _ rfl rfl rfl
    (by simp [packetMaxPlLen]) ?_).2 (by simp)
  exact .cons 0 (.cons 2 (Nat.le_refl 2) (spaced_bytes (by simp))) (.nil 0)

/-- The 256 bytes are announced as none. -/
theorem not_delivered_256 :
    ¬∀ events, Stream ([List.replicate 256 0].flatMap (packetSendPacket ready usbHandler)) events →
      ((link uartHandler).run ready events).2 = [List.replicate 256 0] := by
  intro hall
  have hlength : (List.replicate 256 (0 : Byte)).length = 256 := List.length_replicate
  have hmax : (List.replicate 256 (0 : Byte)).length ≤ packetMaxPlLen := by
    rw [hlength]
    decide
  obtain ⟨events, hstream⟩ := exists_stream ready usbHandler rfl hmax
  have hdelivered := hall events hstream
  rw [link_run_snd] at hdelivered
  refine run_frames_256 rfl (fun q hq => ?_) hstream rfl List.mem_cons_self hlength hdelivered
  rw [List.mem_singleton.1 hq]
  exact hmax

end Bldc.Link
