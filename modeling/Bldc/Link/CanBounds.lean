import Bldc.Link.Can

/-!
# The memory accesses of the CAN receiver

`cancom_process_thread` takes offsets and lengths from frames of any length. It
compares the offset of a long fragment with the size of the buffer, but neither
the end of the fragment nor the number of bytes the frame has.
-/

namespace Bldc.Link

open Foundation Flash

/-- A read of the frame, a `memcpy` from the frame to `rx_buffer`, the checksum of
the front of `rx_buffer`, a length passed on with a pointer. -/
inductive CanAccess where
  | read (start len : Nat)
  | copy (dst src : Nat) (len : Int)
  | checksum (len : Nat)
  | pass (len : Int)
  deriving DecidableEq, Repr

/-- The access stays inside the `dlc` bytes of the frame and inside `rx_buffer`. -/
def CanAccess.InBounds (dlc : Nat) : CanAccess → Prop
  | read start len => start + len ≤ dlc
  | copy dst src len => 0 ≤ len ∧ src + len ≤ dlc ∧ dst + len ≤ rxBufferSize
  | checksum len => len ≤ rxBufferSize
  | pass len => 0 ≤ len ∧ len ≤ rxBufferSize

/-- `rxbuf_ind`, the offset of a long fragment. -/
def CanRxFrame.rxbufInd (rxmsg : CanRxFrame) : Nat :=
  (rxmsg.data8 0).toNat <<< 8 ||| (rxmsg.data8 1).toNat

/-- `rxbuf_len`, the length a closing frame announces. -/
def CanRxFrame.rxbufLen (rxmsg : CanRxFrame) : Nat :=
  (rxmsg.data8 2).toNat <<< 8 ||| (rxmsg.data8 3).toNat

/-- The frame is for this controller, or for all. -/
def CanState.Addressed (s : CanState) (rxmsg : CanRxFrame) : Prop :=
  rxmsg.id = 255 ∨ rxmsg.id = s.controllerId

instance (s : CanState) (rxmsg : CanRxFrame) : Decidable (s.Addressed rxmsg) :=
  inferInstanceAs (Decidable (_ ∨ _))

/-- There is a slot for the status of the sender. -/
def CanState.HasSlot (s : CanState) (rxmsg : CanRxFrame) : Prop :=
  ∃ slot ∈ s.statMsgs, slot.id = rxmsg.id.toNat ∨ slot.id = -1

instance (s : CanState) (rxmsg : CanRxFrame) : Decidable (s.HasSlot rxmsg) :=
  inferInstanceAs (Decidable (∃ slot ∈ s.statMsgs, _))

/-- The accesses of the first switch of `cancom_process_thread`. -/
def CanState.addressedAccesses (s : CanState) (rxmsg : CanRxFrame) : List CanAccess :=
  match rxmsg.cmd with
  | some .setDuty | some .setCurrent | some .setCurrentBrake | some .setRpm | some .setPos =>
      [.read 0 4]
  | some .fillRxBuffer => [.read 0 1, .copy (rxmsg.data8 0).toNat 1 (rxmsg.dlc.toNat - 1)]
  | some .fillRxBufferLong =>
      .read 0 2 ::
        if rxmsg.rxbufInd < rxBufferSize then [.copy rxmsg.rxbufInd 2 (rxmsg.dlc.toNat - 2)]
        else []
  | some .processRxBuffer =>
      .read 0 4 ::
        if rxmsg.rxbufLen > rxBufferSize then []
        else .read 4 2 :: .checksum rxmsg.rxbufLen ::
          if crc16 (bytesOf s.rxBuffer rxmsg.rxbufLen) = rxmsg.data8 4 ++ rxmsg.data8 5 then
            [.pass rxmsg.rxbufLen]
          else []
  | some .processShortBuffer => [.read 0 2, .pass (rxmsg.dlc.toNat - 2)]
  | _ => []

/-- The accesses of the second switch. -/
def CanState.statusAccesses (s : CanState) (rxmsg : CanRxFrame) : List CanAccess :=
  match rxmsg.cmd with
  | some .status => if s.HasSlot rxmsg then [.read 0 8] else []
  | _ => []

/-- The accesses of `cancom_process_thread` while it processes one frame. -/
def CanState.accesses (s : CanState) (arrival : Arrival) : List CanAccess :=
  if arrival.rxmsg.ide then
    (if s.Addressed arrival.rxmsg then s.addressedAccesses arrival.rxmsg else []) ++
      s.statusAccesses arrival.rxmsg
  else []

/-- The accesses for the frame are all in bounds. -/
def CanState.InBounds (s : CanState) (arrival : Arrival) : Prop :=
  ∀ access ∈ s.accesses arrival, access.InBounds arrival.rxmsg.dlc.toNat

/-! ## Which frames are harmless -/

/-- The frame has the bytes its command reads, and a long fragment that starts
inside the buffer ends there. -/
def CanRxFrame.Complete (rxmsg : CanRxFrame) : Prop :=
  match rxmsg.cmd with
  | some .setDuty | some .setCurrent | some .setCurrentBrake | some .setRpm | some .setPos =>
      4 ≤ rxmsg.dlc.toNat
  | some .fillRxBuffer => 1 ≤ rxmsg.dlc.toNat
  | some .fillRxBufferLong =>
      2 ≤ rxmsg.dlc.toNat ∧
        (rxmsg.rxbufInd < rxBufferSize → rxmsg.rxbufInd + (rxmsg.dlc.toNat - 2) ≤ rxBufferSize)
  | some .processRxBuffer =>
      4 ≤ rxmsg.dlc.toNat ∧ (rxmsg.rxbufLen ≤ rxBufferSize → 6 ≤ rxmsg.dlc.toNat)
  | some .processShortBuffer => 2 ≤ rxmsg.dlc.toNat
  | _ => True

/-- What the receiver relies on: a frame it acts on is complete, and a status
message that is recorded has all its eight bytes. -/
def CanState.FrameFits (s : CanState) (arrival : Arrival) : Prop :=
  arrival.rxmsg.ide →
    (s.Addressed arrival.rxmsg → arrival.rxmsg.Complete) ∧
      (arrival.rxmsg.cmd = some .status → s.HasSlot arrival.rxmsg → 8 ≤ arrival.rxmsg.dlc.toNat)

theorem CanRxFrame.lengthAfter_of_le {rxmsg : CanRxFrame} {k : Nat} (h : k ≤ rxmsg.dlc.toNat) :
    rxmsg.lengthAfter k = rxmsg.dlc.toNat - k :=
  lengthAfter_eq (by omega)

theorem memcpy_outside {dst src : Buffer} {start n x : Nat} (h : start + n ≤ x) :
    memcpy dst start src n x = dst x := by
  rw [memcpy, if_neg (by omega)]

/-- What a call of the command module gets. -/
def Delivery.Fits (delivery : Delivery) : Prop := delivery.len ≤ rxBufferSize

/-- A complete frame changes nothing behind the buffer and passes on no more than
its size. -/
theorem processAddressed_confined {s : CanState} {rxmsg : CanRxFrame} (h : rxmsg.Complete) :
    (∀ x ≥ rxBufferSize, (s.processAddressed rxmsg).1.rxBuffer x = s.rxBuffer x) ∧
      ∀ delivery, .deliver delivery ∈ (s.processAddressed rxmsg).2 → delivery.Fits := by
  have hdlc := rxmsg.dlc.isLt
  have hoffset := (rxmsg.data8 0).isLt
  unfold CanState.processAddressed
  unfold CanRxFrame.Complete at h
  cases hcmd : rxmsg.cmd with
  | none => simp
  | some cmd =>
      rw [hcmd] at h
      cases cmd with
      | setDuty | setCurrent | setCurrentBrake | setRpm | setPos => simp [motorCommand]
      | fillRxBuffer =>
          dsimp only at h ⊢
          refine ⟨fun x hx => memcpy_outside ?_, by simp⟩
          have hle : 1 ≤ rxmsg.dlc.toNat := h
          rw [CanRxFrame.lengthAfter_of_le hle]
          unfold rxBufferSize at hx
          omega
      | fillRxBufferLong =>
          dsimp only at h ⊢
          split
          next hind =>
            dsimp only
            refine ⟨fun x hx => memcpy_outside ?_, by simp⟩
            have hend := h.2 hind
            rw [CanRxFrame.lengthAfter_of_le h.1]
            unfold CanRxFrame.rxbufInd at hend
            omega
          next => simp
      | processRxBuffer =>
          dsimp only [CanState.processRxBuffer, CanState.hand]
          split
          next => simp
          next hlen =>
            split
            next =>
              refine ⟨fun x _ => by split <;> rfl, fun delivery hdelivery => ?_⟩
              obtain rfl : delivery = _ := by simpa using hdelivery
              exact Nat.le_of_not_lt hlen
            next => simp
      | processShortBuffer =>
          dsimp only [CanState.processShortBuffer, CanState.hand]
          refine ⟨fun x _ => by split <;> rfl, fun delivery hdelivery => ?_⟩
          obtain rfl : delivery = _ := by simpa using hdelivery
          show rxmsg.lengthAfter 2 ≤ rxBufferSize
          rw [CanRxFrame.lengthAfter_of_le h]
          unfold rxBufferSize
          omega
      | status => simp

/-- As long as every frame fits, nothing behind `rx_buffer` changes and no length
beyond its size is passed on. -/
theorem run_confined {s : CanState} {arrivals : List Arrival}
    (h : cancomProcess.Always CanState.FrameFits s arrivals) :
    (∀ x ≥ rxBufferSize, (cancomProcess.run s arrivals).1.rxBuffer x = s.rxBuffer x) ∧
      ∀ delivery, .deliver delivery ∈ (cancomProcess.run s arrivals).2 → delivery.Fits := by
  have hstep : ∀ (state : CanState) (arrival : Arrival), state.FrameFits arrival →
      (∀ x ≥ rxBufferSize,
        (cancomProcess.step state arrival).1.rxBuffer x = state.rxBuffer x) ∧
      ∀ delivery, .deliver delivery ∈ (cancomProcess.step state arrival).2 → delivery.Fits := by
    intro state arrival hfits
    simp only [cancomProcess]
    split
    next hide =>
      rw [(processStatus_rxBuffer _ _ _).1]
      split
      next haddressed => exact processAddressed_confined ((hfits hide).1 haddressed)
      next => simp
    next => simp
  constructor
  · refine Machine.run_invariant_of_always
      (I := fun state => ∀ x ≥ rxBufferSize, state.rxBuffer x = s.rxBuffer x) ?_ ?_ h
    · intro state arrival hstate hfits x hx
      rw [(hstep state arrival hfits).1 x hx, hstate x hx]
    · exact fun _ _ => rfl
  · intro delivery hdelivery
    refine Machine.run_outputs_of_always
      (R := fun effect => ∀ delivery, effect = .deliver delivery → delivery.Fits)
      ?_ h _ hdelivery delivery rfl
    intro state arrival hfits effect heffect delivery hdelivery
    exact (hstep state arrival hfits).2 delivery (hdelivery ▸ heffect)

/-- What is copied from a frame are its own bytes. -/
theorem memcpy_lengthAfter {rxmsg : CanRxFrame} {data8 : Buffer}
    (hdata : Agree rxmsg.dlc.toNat rxmsg.data8 data8) (dst : Buffer) (start : Nat) {k : Nat}
    (hk : k ≤ rxmsg.dlc.toNat) :
    memcpy dst start (fun i => data8 (k + i)) (rxmsg.lengthAfter k) =
      memcpy dst start (fun i => rxmsg.data8 (k + i)) (rxmsg.lengthAfter k) := by
  funext x
  rw [memcpy, memcpy, CanRxFrame.lengthAfter_of_le hk]
  split
  next hx => rw [hdata (k + (x - start)) (by omega)]
  next => rfl

/-- A frame that is complete is understood from its own bytes. -/
theorem processAddressed_reads {s : CanState} {rxmsg : CanRxFrame} {data8 : Buffer}
    (hcomplete : rxmsg.Complete) (hdata : Agree rxmsg.dlc.toNat rxmsg.data8 data8) :
    (s.processAddressed { rxmsg with data8 := data8 }).1 = (s.processAddressed rxmsg).1 := by
  have hdlc := rxmsg.dlc.isLt
  unfold CanState.processAddressed
  unfold CanRxFrame.Complete at hcomplete
  rw [show CanRxFrame.cmd { rxmsg with data8 := data8 } = rxmsg.cmd from rfl]
  cases hcmd : rxmsg.cmd with
  | none => rfl
  | some cmd =>
      rw [hcmd] at hcomplete
      cases cmd with
      | setDuty | setCurrent | setCurrentBrake | setRpm | setPos => rfl
      | fillRxBuffer =>
          have hle : 1 ≤ rxmsg.dlc.toNat := hcomplete
          simp only [hdata 0 (by omega)]
          exact congrArg (fun rxBuffer => { s with rxBuffer := rxBuffer })
            (memcpy_lengthAfter hdata _ _ hle)
      | fillRxBufferLong =>
          have hle : 2 ≤ rxmsg.dlc.toNat := hcomplete.1
          simp only [hdata 0 (by omega), hdata 1 (by omega)]
          split
          next =>
            exact congrArg (fun rxBuffer => { s with rxBuffer := rxBuffer })
              (memcpy_lengthAfter hdata _ _ hle)
          next => rfl
      | processRxBuffer =>
          have hle : 4 ≤ rxmsg.dlc.toNat := hcomplete.1
          simp only [CanState.processRxBuffer, CanState.hand, hdata 0 (by omega),
            hdata 1 (by omega), hdata 2 (by omega), hdata 3 (by omega)]
          split
          next => rfl
          next hlen =>
            have hlen' : rxmsg.rxbufLen ≤ rxBufferSize := by
              rw [CanRxFrame.rxbufLen, hdata 2 (by omega), hdata 3 (by omega)]
              exact Nat.le_of_not_lt hlen
            have hsix := hcomplete.2 hlen'
            rw [hdata 4 (by omega), hdata 5 (by omega)]
      | processShortBuffer =>
          have hle : 2 ≤ rxmsg.dlc.toNat := hcomplete
          simp only [CanState.processShortBuffer, CanState.hand, hdata 0 (by omega),
            hdata 1 (by omega)]
      | status => rfl

end Bldc.Link
