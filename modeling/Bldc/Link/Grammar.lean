import Bldc.Link.Packet

/-!
# What the packet parser accepts

The handlers take bytes and timer ticks in any order. Between two visits to its
idle state a handler has read the front of a frame and nothing else, so what it
delivers are frames, and after a silence it is ready for the next one whatever
came before.
-/

namespace Bldc.Link

open Foundation Flash

/-- What reaches the packet module: a byte for one handler, or the timer. -/
inductive LinkEvent where
  | byte (handlerNum : Fin packetHandlers) (data : Byte)
  | tick
  deriving DecidableEq, Repr

/-- All handlers together. A delivery names its handler. -/
def packets : Machine HandlerStates LinkEvent (Fin packetHandlers × List Byte) where
  step states
    | .byte handlerNum data =>
        let result := packetProcessByte data handlerNum states
        (result.1, result.2.map (Prod.mk handlerNum))
    | .tick => (packetTimerfunc states, [])

/-- The event as one handler sees it. -/
def LinkEvent.at (handlerNum : Fin packetHandlers) : LinkEvent → Option Event
  | byte num data => if num = handlerNum then some (.byte data) else none
  | tick => some .tick

/-- The byte that the handler consumes. -/
def LinkEvent.byteAt (handlerNum : Fin packetHandlers) : LinkEvent → Option Byte
  | byte num data => if num = handlerNum then some data else none
  | tick => none

def deliveredAt (handlerNum : Fin packetHandlers) (delivery : Fin packetHandlers × List Byte) :
    Option (List Byte) :=
  if delivery.1 = handlerNum then some delivery.2 else none

/-- A handler sees its own bytes and the ticks. -/
theorem packets_run (handlerNum : Fin packetHandlers) (states : HandlerStates)
    (events : List LinkEvent) :
    ((packets.run states events).1 handlerNum,
        (packets.run states events).2.filterMap (deliveredAt handlerNum)) =
      receiver.run (states handlerNum) (events.filterMap (LinkEvent.at handlerNum)) := by
  apply Machine.run_project fun states : HandlerStates => states handlerNum
  · intro states event i hevent
    cases event with
    | byte num data =>
        by_cases hnum : num = handlerNum
        · subst hnum
          obtain rfl : Event.byte data = i := by simpa [LinkEvent.at] using hevent
          have hown : (fun payload => deliveredAt num (num, payload)) = some := by
            funext payload
            simp [deliveredAt]
          simp [packets, receiver, packetProcessByte, List.filterMap_map, hown]
        · simp [LinkEvent.at, hnum] at hevent
    | tick =>
        obtain rfl : Event.tick = i := by simpa [LinkEvent.at] using hevent
        rfl
  · intro states event hevent
    cases event with
    | byte num data =>
        have hnum : num ≠ handlerNum := by simpa [LinkEvent.at] using hevent
        simp [packets, packetProcessByte, deliveredAt, hnum, Function.update_of_ne hnum.symm]
    | tick => simp [LinkEvent.at] at hevent

theorem packets_run_state (handlerNum : Fin packetHandlers) (states : HandlerStates)
    (events : List LinkEvent) :
    (packets.run states events).1 handlerNum =
      (receiver.run (states handlerNum) (events.filterMap (LinkEvent.at handlerNum))).1 :=
  congrArg Prod.fst (packets_run handlerNum states events)

theorem packets_run_delivered (handlerNum : Fin packetHandlers) (states : HandlerStates)
    (events : List LinkEvent) :
    (packets.run states events).2.filterMap (deliveredAt handlerNum) =
      (receiver.run (states handlerNum) (events.filterMap (LinkEvent.at handlerNum))).2 :=
  congrArg Prod.snd (packets_run handlerNum states events)

/-! ## The front of a frame -/

/-- The start byte and the length field for a payload of `n` bytes. -/
inductive Header : Nat → List Byte → Prop
  | short (len : Byte) : Header len.toNat [2, len]
  | long (high low : Byte) : Header (high.toNat <<< 8 ||| low.toNat) [3, high, low]

theorem Header.frame {p header : List Byte} (hheader : Header p.length header)
    (hpos : 0 < p.length) (hmax : p.length ≤ packetMaxPlLen) :
    Frame p (header ++ (p ++ trailer p)) := by
  generalize hn : p.length = n at hheader
  cases hheader with
  | short len => exact .short hpos hn.symm
  | long high low => exact .long hpos hmax hn.symm

/-- The header of a frame decides its length. -/
theorem Frame.of_header {p header rest : List Byte} {n : Nat} (hframe : Frame p (header ++ rest))
    (hheader : Header n header) : p.length = n ∧ rest = p ++ trailer p := by
  generalize hbytes : header ++ rest = bytes at hframe
  cases hheader with
  | short len =>
      cases hframe with
      | short hpos hlen =>
          obtain ⟨rfl, rfl⟩ := by simpa using hbytes
          exact ⟨hlen.symm, rfl⟩
      | long => simp at hbytes
  | long high low =>
      cases hframe with
      | short => simp at hbytes
      | long hpos hmax hlen =>
          obtain ⟨rfl, rfl, rfl⟩ := by simpa using hbytes
          exact ⟨hlen.symm, rfl⟩

/-- Two bytes of checksum and the stop byte follow the payload. -/
theorem Frame.length_of_header {p header rest : List Byte} {n : Nat}
    (hframe : Frame p (header ++ rest)) (hheader : Header n header) : rest.length = n + 3 := by
  obtain ⟨rfl, rfl⟩ := hframe.of_header hheader
  simp [trailer, crcBytes]

theorem Frame.length_ge {p bytes : List Byte} (hframe : Frame p bytes) : 6 ≤ bytes.length := by
  cases hframe with
  | short hpos => simp [trailer, crcBytes]; omega
  | long hpos => simp [trailer, crcBytes]

/-- What a handler has consumed since it was idle. -/
inductive Consumed (h : Handler) : List Byte → Prop
  | idle (hstate : h.rxState = 0) : Consumed h []
  | lengthHigh (hstate : h.rxState = 1) (hptr : h.rxDataPtr = 0) : Consumed h [3]
  | shortLength (hstate : h.rxState = 2) (hptr : h.rxDataPtr = 0) (hlen : h.payloadLength = 0) :
      Consumed h [2]
  | lengthLow {high : Byte} (hstate : h.rxState = 2) (hptr : h.rxDataPtr = 0)
      (hlen : h.payloadLength = high.toNat <<< 8) : Consumed h [3, high]
  | payload {header : List Byte} (hstate : h.rxState = 3)
      (hheader : Header h.payloadLength header) (hptr : h.rxDataPtr < h.payloadLength)
      (hmax : h.payloadLength ≤ packetMaxPlLen) :
      Consumed h (header ++ (List.range h.rxDataPtr).map h.rxBuffer)
  | crcHigh {header : List Byte} (hstate : h.rxState = 4)
      (hheader : Header h.payloadLength header) (hpos : 0 < h.payloadLength)
      (hmax : h.payloadLength ≤ packetMaxPlLen) : Consumed h (header ++ h.received)
  | crcLow {header : List Byte} (hstate : h.rxState = 5)
      (hheader : Header h.payloadLength header) (hpos : 0 < h.payloadLength)
      (hmax : h.payloadLength ≤ packetMaxPlLen) : Consumed h (header ++ (h.received ++ [h.crcHigh]))
  | stop {header : List Byte} (hstate : h.rxState = 6)
      (hheader : Header h.payloadLength header) (hpos : 0 < h.payloadLength)
      (hmax : h.payloadLength ≤ packetMaxPlLen) :
      Consumed h (header ++ (h.received ++ [h.crcHigh, h.crcLow]))

section Consumed

variable {h : Handler} {bytes p : List Byte}

/-- A tick that does not reset the handler only counts. -/
theorem Consumed.timerfunc (hc : Consumed h bytes) (hbusy : h.timerfunc.rxState ≠ 0) :
    Consumed h.timerfunc bytes := by
  unfold Handler.timerfunc at hbusy ⊢
  split at hbusy
  next htimeout =>
    rw [if_pos htimeout]
    cases hc with
    | idle hstate => exact .idle hstate
    | lengthHigh hstate hptr => exact .lengthHigh hstate hptr
    | shortLength hstate hptr hlen => exact .shortLength hstate hptr hlen
    | lengthLow hstate hptr hlen => exact .lengthLow hstate hptr hlen
    | payload hstate hheader hptr hmax => exact .payload hstate hheader hptr hmax
    | crcHigh hstate hheader hpos hmax => exact .crcHigh hstate hheader hpos hmax
    | crcLow hstate hheader hpos hmax => exact .crcLow hstate hheader hpos hmax
    | stop hstate hheader hpos hmax => exact .stop hstate hheader hpos hmax
  next => exact absurd rfl hbusy

/-- The length field is complete. -/
theorem Consumed.lengthField {header : List Byte} {n : Nat} (hstate : h.rxState = 2)
    (hptr : h.rxDataPtr = 0) (byte : Byte) (hlen : h.payloadLength ||| byte.toNat = n)
    (hheader : Header n header) (hbusy : (h.processByte byte).1.rxState ≠ 0) :
    Consumed (h.processByte byte).1 header := by
  simp only [Handler.processByte, hstate] at hbusy ⊢
  split at hbusy
  next hrange =>
    rw [if_pos hrange]
    subst hlen
    have hpayload := Consumed.payload (h := { h with
      payloadLength := h.payloadLength ||| byte.toNat
      rxState := 2 + 1
      rxTimeout := packetRxTimeout }) rfl hheader (by simpa [hptr] using hrange.1) hrange.2
    simpa [hptr] using hpayload
  next => exact absurd rfl hbusy

/-- One more payload byte. -/
theorem Consumed.payloadByte {header : List Byte} (hstate : h.rxState = 3)
    (hheader : Header h.payloadLength header) (hptr : h.rxDataPtr < h.payloadLength)
    (hmax : h.payloadLength ≤ packetMaxPlLen) (byte : Byte) :
    Consumed (h.processByte byte).1
      (header ++ ((List.range h.rxDataPtr).map h.rxBuffer ++ [byte])) := by
  rw [← received_update]
  simp only [Handler.processByte, hstate]
  by_cases hlast : h.rxDataPtr + 1 = h.payloadLength
  · rw [if_pos hlast, hlast]
    exact .crcHigh rfl hheader (by simp; omega) hmax
  · rw [if_neg hlast]
    exact .payload rfl hheader (by simp; omega) hmax

/-- A byte that does not end the frame. -/
theorem Consumed.processByte (hc : Consumed h bytes) (byte : Byte)
    (hbusy : (h.processByte byte).1.rxState ≠ 0) :
    Consumed (h.processByte byte).1 (bytes ++ [byte]) := by
  cases hc with
  | idle hstate =>
      simp only [Handler.processByte, hstate] at hbusy ⊢
      by_cases htwo : byte = 2
      · subst htwo
        exact .shortLength rfl rfl rfl
      · by_cases hthree : byte = 3
        · subst hthree
          exact .lengthHigh rfl rfl
        · rw [if_neg htwo, if_neg hthree] at hbusy
          exact absurd rfl hbusy
  | lengthHigh hstate hptr =>
      simp only [Handler.processByte, hstate]
      exact .lengthLow rfl hptr rfl
  | shortLength hstate hptr hlen =>
      exact .lengthField hstate hptr byte (by simp [hlen]) (.short byte) hbusy
  | lengthLow hstate hptr hlen =>
      exact .lengthField hstate hptr byte (by rw [hlen]) (.long _ byte) hbusy
  | payload hstate hheader hptr hmax =>
      rw [List.append_assoc]
      exact .payloadByte hstate hheader hptr hmax byte
  | crcHigh hstate hheader hpos hmax =>
      rw [List.append_assoc]
      simp only [Handler.processByte, hstate]
      exact .crcLow rfl hheader hpos hmax
  | crcLow hstate hheader hpos hmax =>
      rw [List.append_assoc, List.append_assoc]
      simp only [Handler.processByte, hstate]
      exact .stop rfl hheader hpos hmax
  | stop hstate hheader hpos hmax => simp [Handler.processByte, hstate] at hbusy

/-- The checksum bytes are those of the payload. -/
theorem crcBytes_eq_iff (crc : Half) (high low : Byte) :
    crcBytes crc = [high, low] ↔ crc = high ++ low := by
  constructor
  · intro heq
    obtain ⟨rfl, rfl⟩ : crc.extractLsb' 8 8 = high ∧ crc.extractLsb' 0 8 = low := by
      simpa [crcBytes] using heq
    exact (half_split crc).symm
  · rintro rfl
    rw [crcBytes, BitVec.extractLsb'_append_eq_left, BitVec.extractLsb'_append_eq_right]

theorem received_length (h : Handler) : h.received.length = h.payloadLength := by
  simp [Handler.received]

/-- A payload is framed by its checksum and the stop byte. -/
theorem Header.frame_iff {received p header : List Byte} {high low byte : Byte}
    (hheader : Header received.length header) (hpos : 0 < received.length)
    (hmax : received.length ≤ packetMaxPlLen) :
    Frame p (header ++ (received ++ ([high, low] ++ [byte]))) ↔
      received = p ∧ crc16 received = high ++ low ∧ byte = 3 := by
  constructor
  · intro hframe
    obtain ⟨hlen, hrest⟩ := hframe.of_header hheader
    obtain ⟨rfl, htrailer⟩ := List.append_inj hrest hlen.symm
    obtain ⟨hcrc, hbyte⟩ := List.append_inj' htrailer rfl
    exact ⟨rfl, (crcBytes_eq_iff _ _ _).1 hcrc.symm, List.singleton_inj.1 hbyte⟩
  · rintro ⟨rfl, hcrc, rfl⟩
    have hframe := hheader.frame hpos hmax
    rwa [trailer, (crcBytes_eq_iff _ _ _).2 hcrc] at hframe

/-- The byte delivers a payload iff it completes a frame of it. -/
theorem Consumed.delivers_iff (hc : Consumed h bytes) (hprocess : h.processFunc) (byte : Byte)
    (p : List Byte) : (h.processByte byte).2 = [p] ↔ Frame p (bytes ++ [byte]) := by
  have hearly : (h.processByte byte).2 = [] → ¬Frame p (bytes ++ [byte]) →
      ((h.processByte byte).2 = [p] ↔ Frame p (bytes ++ [byte])) := by
    intro hnone hframe
    simp [hnone, hframe]
  cases hc with
  | idle hstate =>
      refine hearly ?_ fun hframe => absurd hframe.length_ge (by simp)
      simp only [Handler.processByte, hstate]
      split
      · rfl
      · split <;> rfl
  | lengthHigh hstate hptr =>
      refine hearly ?_ fun hframe => absurd hframe.length_ge (by simp)
      simp only [Handler.processByte, hstate]
  | shortLength hstate hptr hlen =>
      refine hearly ?_ fun hframe => absurd hframe.length_ge (by simp)
      simp only [Handler.processByte, hstate]
      split <;> rfl
  | lengthLow hstate hptr hlen =>
      refine hearly ?_ fun hframe => absurd hframe.length_ge (by simp)
      simp only [Handler.processByte, hstate]
      split <;> rfl
  | payload hstate hheader hptr hmax =>
      refine hearly (by simp only [Handler.processByte, hstate]) fun hframe => ?_
      rw [List.append_assoc] at hframe
      have hlength := hframe.length_of_header hheader
      simp at hlength
      omega
  | crcHigh hstate hheader hpos hmax =>
      refine hearly (by simp only [Handler.processByte, hstate]) fun hframe => ?_
      rw [List.append_assoc] at hframe
      have hlength := hframe.length_of_header hheader
      simp [received_length] at hlength
  | crcLow hstate hheader hpos hmax =>
      refine hearly (by simp only [Handler.processByte, hstate]) fun hframe => ?_
      rw [List.append_assoc] at hframe
      have hlength := hframe.length_of_header hheader
      simp [received_length] at hlength
  | stop hstate hheader hpos hmax =>
      rw [← received_length] at hheader hpos hmax
      rw [List.append_assoc, List.append_assoc, hheader.frame_iff hpos hmax]
      simp only [Handler.processByte, hstate]
      split
      next hcond =>
        obtain ⟨hbyte, hcrc, -⟩ := hcond
        simp [hbyte, hcrc]
      next hcond =>
        refine iff_of_false (List.cons_ne_nil _ _).symm ?_
        rintro ⟨-, hcrc, hbyte⟩
        exact hcond ⟨hbyte, hcrc, hprocess⟩

theorem Consumed.payload_bounds (hc : Consumed h bytes) (hstate : h.rxState = 3) :
    h.rxDataPtr < h.payloadLength ∧ h.payloadLength ≤ packetMaxPlLen := by
  cases hc with
  | payload _ _ hptr hmax => exact ⟨hptr, hmax⟩
  | _ => simp_all

end Consumed

/-! ## Every run -/

/-- The handler waits for a start byte. -/
def Idle (handlerNum : Fin packetHandlers) (states : HandlerStates) : Prop :=
  (states handlerNum).rxState = 0

/-- The bytes the handler consumed since it last was idle. -/
def SinceIdle (handlerNum : Fin packetHandlers) (states : HandlerStates)
    (events : List LinkEvent) (bytes : List Byte) : Prop :=
  ∃ recent, packets.Since (Idle handlerNum) states events recent ∧
    bytes = recent.filterMap (LinkEvent.byteAt handlerNum)

theorem SinceIdle.unique {handlerNum : Fin packetHandlers} {states : HandlerStates}
    {events : List LinkEvent} {bytes bytes' : List Byte}
    (h : SinceIdle handlerNum states events bytes)
    (h' : SinceIdle handlerNum states events bytes') : bytes = bytes' := by
  obtain ⟨recent, hsince, rfl⟩ := h
  obtain ⟨recent', hsince', rfl⟩ := h'
  rw [hsince.unique hsince']

/-- What a handler has consumed is the front of a frame. -/
theorem exists_consumed {handlerNum : Fin packetHandlers} {states : HandlerStates}
    (hidle : Idle handlerNum states) (events : List LinkEvent) :
    ∃ bytes, SinceIdle handlerNum states events bytes ∧
      Consumed ((packets.run states events).1 handlerNum) bytes := by
  have hsnoc : ∀ (states : HandlerStates) (recent : List LinkEvent) (event : LinkEvent),
      Consumed (states handlerNum) (recent.filterMap (LinkEvent.byteAt handlerNum)) →
      ¬Idle handlerNum (packets.step states event).1 →
      Consumed ((packets.step states event).1 handlerNum)
        ((recent ++ [event]).filterMap (LinkEvent.byteAt handlerNum)) := by
    intro states recent event hc hbusy
    rw [List.filterMap_append]
    cases event with
    | byte num data =>
        by_cases hnum : num = handlerNum
        · subst hnum
          simp only [Idle, packets, packetProcessByte, Function.update_self] at hbusy ⊢
          simpa [LinkEvent.byteAt] using hc.processByte data hbusy
        · have hkeep : (packets.step states (.byte num data)).1 handlerNum = states handlerNum := by
            simp [packets, packetProcessByte, Function.update_of_ne (Ne.symm hnum)]
          simpa [hkeep, LinkEvent.byteAt, hnum] using hc
    | tick =>
        rw [show [LinkEvent.tick].filterMap (LinkEvent.byteAt handlerNum) = [] from rfl,
          List.append_nil]
        exact hc.timerfunc hbusy
  obtain ⟨recent, hsince, hconsumed⟩ :=
    Machine.exists_since (fun states hidle => .idle hidle) hsnoc hidle events
  exact ⟨_, ⟨recent, hsince, rfl⟩, hconsumed⟩

/-- What a byte leaves alone: the functions, the buffer but for one payload byte,
and the timeout unless it starts again. It delivers at most one payload. -/
structure Handler.ByteStep (h : Handler) (byte : Byte) (next : Handler × List (List Byte)) :
    Prop where
  processFunc : next.1.processFunc = h.processFunc
  rxBuffer : next.1.rxBuffer = h.rxBuffer ∨
    h.rxState = 3 ∧ next.1.rxBuffer = Function.update h.rxBuffer h.rxDataPtr byte
  rxTimeout : next.1.rxTimeout = packetRxTimeout ∨ next.1.rxTimeout = h.rxTimeout
  delivers : next.2 = [] ∨ ∃ p, next.2 = [p]

theorem Handler.byteStep (h : Handler) (byte : Byte) : h.ByteStep byte (h.processByte byte) := by
  unfold Handler.processByte
  split
  next =>
    split
    · exact ⟨rfl, .inl rfl, .inl rfl, .inl rfl⟩
    · split
      · exact ⟨rfl, .inl rfl, .inl rfl, .inl rfl⟩
      · exact ⟨rfl, .inl rfl, .inr rfl, .inl rfl⟩
  next => exact ⟨rfl, .inl rfl, .inl rfl, .inl rfl⟩
  next =>
    dsimp only
    split
    · exact ⟨rfl, .inl rfl, .inl rfl, .inl rfl⟩
    · exact ⟨rfl, .inl rfl, .inr rfl, .inl rfl⟩
  next hstate => exact ⟨rfl, .inr ⟨hstate, rfl⟩, .inl rfl, .inl rfl⟩
  next => exact ⟨rfl, .inl rfl, .inl rfl, .inl rfl⟩
  next => exact ⟨rfl, .inl rfl, .inl rfl, .inl rfl⟩
  next =>
    refine ⟨rfl, .inl rfl, .inr rfl, ?_⟩
    dsimp only
    split
    · exact .inr ⟨_, rfl⟩
    · exact .inl rfl
  next => exact ⟨rfl, .inl rfl, .inr rfl, .inl rfl⟩

section Runs

variable {handlerNum : Fin packetHandlers} {states : HandlerStates}

/-- What bytes and ticks keep of one handler, every run of all of them keeps. -/
theorem run_handler {I : Handler → Prop} (hbyte : ∀ h byte, I h → I (h.processByte byte).1)
    (htick : ∀ h, I h → I h.timerfunc) (hstates : I (states handlerNum))
    (events : List LinkEvent) : I ((packets.run states events).1 handlerNum) := by
  refine Machine.run_invariant (M := packets) (I := fun states => I (states handlerNum)) ?_
    hstates events
  intro states event hstates
  cases event with
  | byte num data =>
      by_cases hnum : num = handlerNum
      · subst hnum
        simpa [packets, packetProcessByte] using hbyte _ data hstates
      · simpa [packets, packetProcessByte, Function.update_of_ne (Ne.symm hnum)] using hstates
  | tick => exact htick _ hstates

theorem run_processFunc (hprocess : (states handlerNum).processFunc) (events : List LinkEvent) :
    ((packets.run states events).1 handlerNum).processFunc := by
  refine run_handler (I := fun h => h.processFunc = true) ?_ ?_ hprocess events
  · intro h byte hprocess
    rw [(h.byteStep byte).processFunc, hprocess]
  · intro h hprocess
    unfold Handler.timerfunc
    split <;> exact hprocess

/-- No run stores a byte behind the buffer. -/
theorem run_rxBuffer (hidle : Idle handlerNum states) {x : Nat} (hx : packetMaxPlLen ≤ x)
    (events : List LinkEvent) :
    ((packets.run states events).1 handlerNum).rxBuffer x = (states handlerNum).rxBuffer x := by
  induction events using List.reverseRecOn with
  | nil => rfl
  | append_singleton events event ih =>
      obtain ⟨bytes, -, hconsumed⟩ := exists_consumed hidle events
      rw [Machine.run_append, ← ih]
      cases event with
      | byte num data =>
          by_cases hnum : num = handlerNum
          · subst hnum
            simp only [packets, Machine.run_cons, Machine.run_nil, packetProcessByte,
              Function.update_self]
            obtain hsame | ⟨hstate, hupdate⟩ :=
              (((packets.run states events).1 num).byteStep data).rxBuffer
            · exact congrFun hsame x
            · obtain ⟨hptr, hmax⟩ := hconsumed.payload_bounds hstate
              refine (congrFun hupdate x).trans (Function.update_of_ne ?_ ..)
              omega
          · simp [packets, packetProcessByte, Function.update_of_ne (Ne.symm hnum)]
      | tick =>
          simp only [packets, Machine.run_cons, Machine.run_nil, packetTimerfunc,
            Handler.timerfunc]
          split <;> rfl

/-- From idle handlers, whatever came before: a byte delivers a payload iff it and
the bytes since the handler last was idle are a frame of it, and delivers nothing
else; payload bytes stay inside the buffer; no other handler notices. -/
theorem accepts_iff_frame (states : HandlerStates) (hidle : ∀ i, Idle i states)
    (hprocess : ∀ i, (states i).processFunc) (events : List LinkEvent)
    (handlerNum : Fin packetHandlers) (byte : Byte) :
    let now := (packets.run states events).1
    let next := packets.step now (.byte handlerNum byte)
    (∀ p, next.2 = [(handlerNum, p)] ↔
        ∃ bytes, SinceIdle handlerNum states events bytes ∧ Frame p (bytes ++ [byte])) ∧
      (next.2 = [] ∨ ∃ p, next.2 = [(handlerNum, p)]) ∧
      (∀ i, (now i).rxState = 3 →
        (now i).rxDataPtr < (now i).payloadLength ∧ (now i).payloadLength ≤ packetMaxPlLen) ∧
      (∀ i x, packetMaxPlLen ≤ x → (now i).rxBuffer x = (states i).rxBuffer x) ∧
      ∀ i ≠ handlerNum, next.1 i = now i := by
  intro now next
  have hnext : next.2 = ((now handlerNum).processByte byte).2.map (Prod.mk handlerNum) := rfl
  obtain ⟨bytes, hsince, hconsumed⟩ := exists_consumed (hidle handlerNum) events
  have hdelivers := hconsumed.delivers_iff (run_processFunc (hprocess handlerNum) events) byte
  refine ⟨?_, ?_, ?_, ?_, ?_⟩
  · intro p
    have hsingle : next.2 = [(handlerNum, p)] ↔ ((now handlerNum).processByte byte).2 = [p] := by
      rw [hnext, List.map_eq_singleton_iff]
      constructor
      · rintro ⟨q, hq, heq⟩
        rw [hq, (Prod.mk.inj heq).2]
      · intro hp
        exact ⟨p, hp, rfl⟩
    rw [hsingle, hdelivers]
    constructor
    · intro hframe
      exact ⟨bytes, hsince, hframe⟩
    · rintro ⟨bytes', hsince', hframe⟩
      rwa [hsince.unique hsince']
  · obtain hnone | ⟨p, hp⟩ := ((now handlerNum).byteStep byte).delivers
    · exact .inl (by rw [hnext, hnone, List.map_nil])
    · exact .inr ⟨p, by rw [hnext, hp, List.map_singleton]⟩
  · intro i hstate
    obtain ⟨bytes, -, hconsumed⟩ := exists_consumed (hidle i) events
    exact hconsumed.payload_bounds hstate
  · intro i x hx
    exact run_rxBuffer (hidle i) hx events
  · intro i hi
    exact Function.update_of_ne hi ..

end Runs

theorem ready_idle (i : Fin packetHandlers) : Idle i ready ∧ (ready i).processFunc := by
  revert i
  exact Fin.forall_fin_two.2 ⟨⟨rfl, rfl⟩, ⟨rfl, rfl⟩⟩

/-- One byte over the UART, while the other handler gets a start byte. -/
def oneByteEvents : List LinkEvent :=
  [.byte uartHandler 2, .byte usbHandler 3, .byte uartHandler 1, .tick, .byte uartHandler 5,
    .byte uartHandler 0x50, .byte uartHandler 0xA5]

theorem accepts_iff_frame_one :
    ∃ bytes, SinceIdle uartHandler ready oneByteEvents bytes ∧ Frame [5] (bytes ++ [3]) :=
  ((accepts_iff_frame ready (fun i => (ready_idle i).1) (fun i => (ready_idle i).2)
    oneByteEvents uartHandler 3).1 [5]).1 (by decide)

/-! ## After a silence -/

/-- More ticks than the timeout counts bring the handler back. -/
theorem run_ticks_reset {h : Handler} {ticks : Nat} (hticks : h.rxTimeout < ticks) :
    (receiver.run h (List.replicate ticks .tick)).1.rxState = 0 := by
  induction ticks generalizing h with
  | zero => omega
  | succ ticks ih =>
      rw [List.replicate_succ, Machine.run_cons]
      by_cases htimeout : h.rxTimeout = 0
      · apply (run_ticks_idle _ ticks).2.1
        simp [receiver, Handler.timerfunc, htimeout]
      · apply ih
        simp only [receiver, Handler.timerfunc, htimeout, ne_eq, not_false_eq_true, if_true]
        omega

/-- The timeout never exceeds `PACKET_RX_TIMEOUT`. -/
theorem run_rxTimeout {handlerNum : Fin packetHandlers} {states : HandlerStates}
    (htimeout : (states handlerNum).rxTimeout ≤ packetRxTimeout) (events : List LinkEvent) :
    ((packets.run states events).1 handlerNum).rxTimeout ≤ packetRxTimeout := by
  refine run_handler (I := fun h => h.rxTimeout ≤ packetRxTimeout) ?_ ?_ htimeout events
  · intro h byte hle
    obtain hstart | hkeep := (h.byteStep byte).rxTimeout
    · exact Nat.le_of_eq hstart
    · exact hkeep ▸ hle
  · intro h hle
    unfold Handler.timerfunc
    split
    · exact Nat.le_trans (Nat.sub_le ..) hle
    · exact hle

/-- Whatever a handler has been through, after more than `PACKET_RX_TIMEOUT` ticks
without a byte it is idle, and the next frame that comes in time is delivered,
once and unchanged. -/
theorem resynchronises (states : HandlerStates) (handlerNum : Fin packetHandlers)
    (hprocess : (states handlerNum).processFunc)
    (htimeout : (states handlerNum).rxTimeout ≤ packetRxTimeout)
    (history silence arrivals : List LinkEvent) (ticks : Nat) (hticks : packetRxTimeout < ticks)
    (hsilence : silence.filterMap (LinkEvent.at handlerNum) = List.replicate ticks .tick)
    (p frame : List Byte) (hframe : Frame p frame)
    (hspaced : Spaced frame (arrivals.filterMap (LinkEvent.at handlerNum))) :
    let now := (packets.run states (history ++ silence)).1
    Idle handlerNum now ∧
      (packets.run now arrivals).2.filterMap (deliveredAt handlerNum) = [p] := by
  intro now
  have hidle : Idle handlerNum now := by
    have hnow : now = (packets.run (packets.run states history).1 silence).1 := by
      simp only [now, Machine.run_append]
    rw [Idle, hnow, packets_run_state, hsilence]
    exact run_ticks_reset (Nat.lt_of_le_of_lt (run_rxTimeout htimeout history) hticks)
  refine ⟨hidle, ?_⟩
  rw [packets_run_delivered]
  exact (run_expected hspaced (.start hidle hframe) (run_processFunc hprocess _)).1

/-- A frame that announces 1024 bytes and breaks off, three ticks, and one byte. -/
theorem resynchronises_one :
    (packets.run (packets.run ready ([3, 4, 0, 9].map (LinkEvent.byte uartHandler) ++
        List.replicate 3 .tick)).1
      ([2, 1, 5, 0x50, 0xA5, 3].map (LinkEvent.byte uartHandler))).2.filterMap
        (deliveredAt uartHandler) = [[5]] :=
  (resynchronises ready uartHandler rfl (by decide) ([3, 4, 0, 9].map (LinkEvent.byte uartHandler))
    (List.replicate 3 .tick) ([2, 1, 5, 0x50, 0xA5, 3].map (LinkEvent.byte uartHandler)) 3
    (by decide) (by decide) [5] [2, 1, 5, 0x50, 0xA5, 3] (.short (by decide) (by decide))
    (spaced_bytes (by decide))).2

end Bldc.Link
