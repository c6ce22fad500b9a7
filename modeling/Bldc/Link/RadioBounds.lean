import Bldc.Link.Radio

/-!
# What the radio receiver acts on

`rfhelp_read_rx_data_crc` checks the checksum of frames with more than two bytes
and reports shorter ones as read, so that `rx_thread` acts on whatever its packet
buffer holds; and the lengths it computes from the width of a frame go below zero.
-/

namespace Bldc.Link

open Foundation Flash

/-- A joystick update, a `memcpy` from `buf` to `rx_buffer`, a packet for the
command module. -/
inductive NrfAction where
  | joystick
  | copy (dst src len : Int)
  | process (len : Int)
  deriving DecidableEq, Repr

/-- The action stays inside `buf` and `rx_buffer`. -/
def NrfAction.InBounds : NrfAction → Prop
  | joystick => True
  | copy dst src len =>
      0 ≤ len ∧ 0 ≤ src ∧ src + len ≤ 32 ∧ 0 ≤ dst ∧ dst + len ≤ rxBufferSize
  | process len => 0 ≤ len ∧ len ≤ rxBufferSize

/-- What the switch of `rx_thread` does with the packet in `buf`. -/
def NrfState.packetActions (s : NrfState) (len : Int) : List NrfAction :=
  match MotePacket.ofCode (s.buf 0) with
  | some .buttons => [.joystick]
  | some .fillRxBuffer => [.copy (s.buf 1).toNat 2 (len - 2)]
  | some .fillRxBufferLong =>
      if twoBytes s.buf < rxBufferSize then [.copy (twoBytes s.buf) 3 (len - 3)] else []
  | some .processRxBuffer =>
      let rxbufLen := twoBytes s.buf
      if rxbufLen > rxBufferSize then []
      else
        .copy (rxbufLen - (len - 5)) 5 (len - 5) ::
          let rxBuffer := memcpyAt s.rxBuffer (rxbufLen - (len - 5)) (fun k => s.buf (5 + k))
            (unsigned (len - 5))
          if crc16 (bytesOf rxBuffer rxbufLen) = s.buf 3 ++ s.buf 4 then [.process rxbufLen] else []
  | some .processShortBuffer => [.process (len - 1)]
  | _ => []

/-- What `rx_thread` does when it reads. -/
def NrfState.actions (s : NrfState) (read : RfRead) : List NrfAction :=
  let (res, buf, len) := rfhelpReadRxDataCrc s.buf read
  if res ≥ 0 then { s with buf := buf }.packetActions len else []

/-- What an action leaves in `rx_buffer`. -/
def NrfAction.write (buf rxBuffer : Buffer) : NrfAction → Buffer
  | copy dst src len => memcpyAt rxBuffer dst (fun k => buf (src.toNat + k)) (unsigned len)
  | _ => rxBuffer

/-- What the other modules see of an action: a joystick update, or the length of a
packet. -/
def NrfAction.seen : NrfAction → Option (Option Nat)
  | joystick => some none
  | copy _ _ _ => none
  | process len => some (some (unsigned len))

def NrfEffect.seen : NrfEffect → Option Nat
  | nunchukUpdateOutput _ _ _ _ => none
  | process packet => some packet.len

theorem twoBytes_lt (buf : Buffer) : twoBytes buf < 2 ^ 16 := by
  have hhigh := (buf 1).isLt
  have hlow := (buf 2).isLt
  apply Nat.or_lt_two_pow
  · rw [Nat.shiftLeft_eq]
    omega
  · omega

/-- The actions are all that the switch does. -/
theorem act_eq_packetActions (s : NrfState) (len : Int) :
    (s.act len).1.rxBuffer = (s.packetActions len).foldl (NrfAction.write s.buf) s.rxBuffer ∧
      (s.act len).2.map NrfEffect.seen = (s.packetActions len).filterMap NrfAction.seen := by
  unfold NrfState.act NrfState.packetActions
  cases hpacket : MotePacket.ofCode (s.buf 0) with
  | none => exact ⟨rfl, rfl⟩
  | some packet =>
      cases packet with
      | battLevel | buttons | alive | fillRxBuffer | processShortBuffer => exact ⟨rfl, rfl⟩
      | fillRxBufferLong =>
          dsimp only
          split
          next => exact ⟨rfl, rfl⟩
          next => exact ⟨rfl, rfl⟩
      | processRxBuffer =>
          have hlen : unsigned (twoBytes s.buf) = twoBytes s.buf :=
            unsigned_natCast (by have := twoBytes_lt s.buf; omega)
          dsimp only [NrfState.processRxBuffer]
          split
          next => exact ⟨rfl, rfl⟩
          next =>
            split
            next => exact ⟨rfl, congrArg (fun n => [some n]) hlen.symm⟩
            next => exact ⟨rfl, rfl⟩

theorem step_eq_actions (s : NrfState) (read : RfRead) :
    (nrfRx.step s read).1.rxBuffer =
        (s.actions read).foldl (NrfAction.write (rfhelpReadRxDataCrc s.buf read).2.1) s.rxBuffer ∧
      (nrfRx.step s read).2.map NrfEffect.seen = (s.actions read).filterMap NrfAction.seen := by
  simp only [nrfRx, NrfState.actions]
  split
  next => exact act_eq_packetActions _ _
  next => exact ⟨rfl, rfl⟩

/-- The last two bytes are the checksum of the ones before. -/
def RfRead.Verified : RfRead → Prop
  | noData => False
  | payload width bytes _ =>
      2 ≤ width.toNat ∧ width.toNat ≤ 32 ∧
        crc16 (bytesOf bytes (width.toNat - 2)) = bytes (width.toNat - 2) ++ bytes (width.toNat - 1)

/-- Whatever is done has a verified frame behind it and stays in bounds. -/
def NrfState.Safe (s : NrfState) (read : RfRead) : Prop :=
  ∀ action ∈ s.actions read, read.Verified ∧ action.InBounds

/-! ## Which frames are harmless -/

/-- The packet in `buf` came in a frame that is wide enough for it. -/
def PacketFits (buf : Buffer) (width : Nat) : Prop :=
  match MotePacket.ofCode (buf 0) with
  | some .buttons => 3 ≤ width
  | some .fillRxBuffer => 4 ≤ width
  | some .fillRxBufferLong =>
      twoBytes buf < rxBufferSize → 5 ≤ width ∧ twoBytes buf + (width - 5) ≤ rxBufferSize
  | some .processRxBuffer =>
      twoBytes buf ≤ rxBufferSize → 7 ≤ width ∧ width - 7 ≤ twoBytes buf
  | some .processShortBuffer => 3 ≤ width
  | _ => True

/-- The frame is reported as read. -/
def Reported (width : Byte) (bytes : Buffer) : Prop :=
  width.toNat ≤ 32 ∧ (width.toNat ≤ 2 ∨
    crc16 (bytesOf bytes (width.toNat - 2)) = bytes (width.toNat - 2) ++ bytes (width.toNat - 1))

/-- What `rx_thread` relies on: a frame that is reported as read is wide enough
for the packet that is then in `buf`. -/
def NrfState.FrameFits (s : NrfState) : RfRead → Prop
  | .noData => True
  | .payload width bytes _ =>
      Reported width bytes → PacketFits (memcpy s.buf 0 bytes width.toNat) width.toNat

theorem memcpy_front {dst src : Buffer} {n x : Nat} (hx : x < n) :
    memcpy dst 0 src n x = src x := by
  simp only [memcpy]
  rw [if_pos (by omega), Nat.sub_zero]

theorem rfhelpReadRxDataCrc_payload (data : Buffer) (width : Byte) (bytes : Buffer) (more : Bool)
    (hwidth : width.toNat ≤ 32) :
    (0 ≤ (rfhelpReadRxDataCrc data (.payload width bytes more)).1 ↔ Reported width bytes) ∧
      (rfhelpReadRxDataCrc data (.payload width bytes more)).2 =
        (memcpy data 0 bytes width.toNat, (width.toNat : Int) - 2) := by
  have hres : (0 : Int) ≤ if more then 1 else 0 := by cases more <;> decide
  by_cases hshort : width.toNat ≤ 2
  · have hlen : ¬((width.toNat : Int) > 2) := by omega
    simp [rfhelpReadRxDataCrc, rfhelpReadRxData, hwidth, hlen, Reported, hshort, hres]
  · have hlen : (width.toNat : Int) > 2 := by omega
    have hfront : ((width.toNat : Int) - 2).toNat = width.toNat - 2 := by omega
    have hback : ((width.toNat : Int) - 1).toNat = width.toNat - 1 := by omega
    have hbytes : bytesOf (memcpy data 0 bytes width.toNat) (width.toNat - 2) =
        bytesOf bytes (width.toNat - 2) :=
      bytesOf_congr fun i hi => memcpy_front (by omega)
    simp only [rfhelpReadRxDataCrc, rfhelpReadRxData, hwidth, if_true, ge_iff_le, hres, hlen,
      and_self, hfront, hback, hbytes, memcpy_front (show width.toNat - 2 < width.toNat by omega),
      memcpy_front (show width.toNat - 1 < width.toNat by omega), Reported, hshort, false_or,
      true_and, and_true]
    split
    next hne => exact iff_of_false (by decide) hne
    next heq => exact iff_of_true hres (not_not.1 heq)

/-- A reported frame whose packet is not empty is verified iff it is wide enough
to carry a checksum and something in front. -/
theorem verified_iff {width : Byte} {bytes : Buffer} (more : Bool) (dst : Buffer)
    (hreported : Reported width bytes) (hpacket : memcpy dst 0 bytes width.toNat 0 ≠ 0) :
    (RfRead.payload width bytes more).Verified ↔ 3 ≤ width.toNat := by
  constructor
  · rintro ⟨htwo, -, hcrc⟩
    by_contra hlt
    have hwidth : width.toNat = 2 := by omega
    rw [hwidth] at hcrc hpacket
    rw [memcpy_front (by decide)] at hpacket
    have hzero : bytes 0 ++ bytes 1 = (0 : Half) := hcrc.symm
    apply hpacket
    have hleft := congrArg (BitVec.extractLsb' 8 8) hzero
    rw [BitVec.extractLsb'_append_eq_left] at hleft
    rw [hleft]
    decide
  · intro hthree
    exact ⟨by omega, hreported.1, hreported.2.resolve_left (by omega)⟩

theorem packetActions_safe_iff (s : NrfState) {width : Nat} (hwidth : width ≤ 32) {V : Prop}
    (hV : s.buf 0 ≠ 0 → (V ↔ 3 ≤ width)) :
    (∀ action ∈ s.packetActions ((width : Int) - 2), V ∧ action.InBounds) ↔
      PacketFits s.buf width := by
  have hoffset := (s.buf 1).isLt
  have hne : ∀ packet, MotePacket.ofCode (s.buf 0) = some packet → packet ≠ .battLevel →
      (V ↔ 3 ≤ width) := by
    intro packet hpacket hbatt
    apply hV
    intro hzero
    rw [hzero] at hpacket
    exact hbatt (Option.some.inj hpacket).symm
  unfold NrfState.packetActions PacketFits
  cases hpacket : MotePacket.ofCode (s.buf 0) with
  | none => simp
  | some packet =>
      cases packet with
      | battLevel | alive => simp
      | buttons => simp [hne _ hpacket (by decide), NrfAction.InBounds]
      | fillRxBuffer =>
          simp only [List.forall_mem_cons, List.not_mem_nil, false_implies, implies_true, and_true,
            NrfAction.InBounds, rxBufferSize, hne _ hpacket (by decide)]
          omega
      | fillRxBufferLong =>
          dsimp only
          by_cases hind : twoBytes s.buf < rxBufferSize
          · simp only [hind, if_true, List.forall_mem_cons, List.not_mem_nil, false_implies,
              implies_true, and_true, NrfAction.InBounds, hne _ hpacket (by decide), true_implies]
            omega
          · simp [hind]
      | processRxBuffer =>
          dsimp only
          by_cases hlen : twoBytes s.buf > rxBufferSize
          · simp [hlen]
          · rw [if_neg hlen]
            have hle : twoBytes s.buf ≤ rxBufferSize := Nat.le_of_not_lt hlen
            simp only [List.forall_mem_cons, hne _ hpacket (by decide), NrfAction.InBounds, hle,
              true_implies]
            split
            · simp only [List.forall_mem_cons, List.not_mem_nil, false_implies, implies_true,
                and_true]
              omega
            · simp only [List.not_mem_nil, false_implies, implies_true, and_true]
              omega
      | processShortBuffer =>
          simp only [List.forall_mem_cons, List.not_mem_nil, false_implies, implies_true, and_true,
            NrfAction.InBounds, rxBufferSize, hne _ hpacket (by decide)]
          omega

/-- One read is safe iff the frame fits. -/
theorem safe_iff_frameFits (s : NrfState) (read : RfRead) : s.Safe read ↔ s.FrameFits read := by
  cases read with
  | noData => simp [NrfState.Safe, NrfState.actions, NrfState.FrameFits, rfhelpReadRxDataCrc,
      rfhelpReadRxData]
  | payload width bytes more =>
      by_cases hwidth : width.toNat ≤ 32
      · obtain ⟨hres, hdata⟩ := rfhelpReadRxDataCrc_payload s.buf width bytes more hwidth
        unfold NrfState.Safe NrfState.actions NrfState.FrameFits
        dsimp only
        by_cases hreported : Reported width bytes
        · simp only [ge_iff_le, hres.2 hreported, if_true, hdata, hreported, true_implies]
          exact packetActions_safe_iff
            { s with buf := memcpy s.buf 0 bytes width.toNat } hwidth
            (verified_iff more s.buf hreported)
        · rw [if_neg (mt hres.1 hreported)]
          simp [hreported]
      · simp [NrfState.Safe, NrfState.actions, NrfState.FrameFits, rfhelpReadRxDataCrc,
          rfhelpReadRxData, hwidth, Reported]

/-- A run is safe iff every frame fits when it is read. -/
theorem always_safe_iff (s : NrfState) (reads : List RfRead) :
    nrfRx.Always NrfState.Safe s reads ↔ nrfRx.Always NrfState.FrameFits s reads :=
  Machine.always_congr safe_iff_frameFits s reads

/-- A frame of two bytes: a packet for the command module, and no checksum. -/
theorem not_safe_shortFrame :
    ¬nrfRx.Always NrfState.Safe bootedNrf [onAir [6, 0] false] := by
  intro h
  have hfits := (safe_iff_frameFits _ _).1 h.1 ⟨by decide, .inl (by decide)⟩
  have hpacket : MotePacket.ofCode
      (memcpy bootedNrf.buf 0 (ofBytes [6, 0]) (BitVec.ofNat 8 2).toNat 0) =
      some .processShortBuffer := by decide
  rw [PacketFits] at hfits
  simp only [List.length_cons, List.length_nil, hpacket] at hfits
  exact absurd hfits (by decide)

end Bldc.Link
