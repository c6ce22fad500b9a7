import Bldc.Drive.Measure
import Bldc.Link.Spi

/-!
# The encoder

The edges of an incremental encoder are counted by a timer, which an interrupt sets to zero at
the index. An absolute encoder is read over the lines of an SPI bus. Either of them gives the
angle of the rotor, and with it the electrical angle that the motor is driven with.
-/

namespace Bldc.Foc

open Flash Conf Drive Foundation Link

inductive EncoderMode where
  | none
  | abi
  | as5047pSpi
  deriving DecidableEq, Repr

/-- `CNT` and `ARR` of `HW_ENC_TIM`. -/
structure EncTimer where
  cnt : BitVec 16
  arr : BitVec 16
  deriving DecidableEq

/-- An edge is counted. -/
def EncTimer.count (t : EncTimer) (forward : Bool) : EncTimer :=
  if forward then { t with cnt := if t.cnt = t.arr then 0 else t.cnt + 1 }
  else { t with cnt := if t.cnt = 0 then t.arr else t.cnt - 1 }

/-- The variables of the encoder. -/
structure Encoder where
  mode : EncoderMode
  indexFound : Bool
  encCounts : Word
  lastEncAngle : Rat
  timer : EncTimer
  -- `angle` in `encoder_read_deg`
  angle : Rat

namespace Encoder

variable (s : Encoder)

/-- The encoder after a reset. -/
def reset : Encoder := ⟨.none, false, 10000, 0, ⟨0, 0xFFFF⟩, 0⟩

/-- `encoder_deinit`. -/
def encoderDeinit : Encoder :=
  { s with timer := ⟨0, 0xFFFF⟩, indexFound := false, mode := .none, lastEncAngle := 0 }

/-- `TIM_SetAutoreload(HW_ENC_TIM, enc_counts - 1)`. -/
def setAutoreload (counts : Word) : Encoder :=
  { s with encCounts := counts, timer.arr := (counts - 1).setWidth 16 }

/-- `encoder_init_abi`. -/
def encoderInitAbi (counts : Word) : Encoder :=
  { s.setAutoreload counts with indexFound := false, mode := .abi }

/-- `encoder_init_as5047p_spi`. -/
def encoderInitAs5047pSpi : Encoder :=
  { s with timer := ⟨0, .ofNat 16 (168000000 / 2 / 20000 - 1)⟩, mode := .as5047pSpi, indexFound := true }

/-- `encoder_is_configured`. -/
def encoderIsConfigured : Bool := s.mode ≠ .none

/-- `encoder_read_deg`. -/
def encoderReadDeg : Encoder × Rat :=
  let angle :=
    match s.mode with
    | .abi => (s.timer.cnt.toNat : Rat) * 360 / s.encCounts.toNat
    | .as5047pSpi => s.lastEncAngle
    | .none => s.angle
  ({ s with angle := angle }, angle)

/-- The timer counts an edge. -/
def countEdge (forward : Bool) : Encoder := { s with timer := s.timer.count forward }

/-- `encoder_reset`. -/
def encoderReset : Encoder := { s with timer.cnt := 0, indexFound := true }

/-- `encoder_set_counts`. -/
def encoderSetCounts (counts : Word) : Encoder :=
  if counts ≠ s.encCounts then { s.setAutoreload counts with indexFound := false } else s

/-- The encoder in `mc_interface_init`. -/
def initEncoder (c : McConfiguration) : Encoder :=
  if c.mSensorPortMode = 1 then s.encoderInitAbi c.mEncoderCounts
  else if c.mSensorPortMode = 2 then s.encoderInitAs5047pSpi
  else s

/-- The encoder in `mc_interface_set_configuration`. -/
def setEncoder (old c : McConfiguration) : Encoder :=
  let s := if old.mSensorPortMode ≠ c.mSensorPortMode then s.encoderDeinit.initEncoder c else s
  if c.mSensorPortMode = 1 then s.encoderSetCounts c.mEncoderCounts else s

end Encoder

/-! ## The lines of the absolute encoder -/

section Lines

variable {σ : Type} (D : ShiftDevice σ)

/-- One round of the inner loop in `spi_transfer`. Nothing is sent. -/
def spiBit (s : SpiShift σ 16) : SpiShift σ 16 :=
  let lines := s.lines.setSck D
  let recieve := s.recieve <<< 1
  let recieve := if lines.readMiso D then recieve ||| 1 else recieve
  ⟨lines.clearSck D, s.send <<< 1, recieve⟩

/-- One word in `spi_transfer`. -/
def spiTransferWord (lines : SpiLines σ) (send : BitVec 16) : SpiLines σ × BitVec 16 :=
  let s := (List.range 16).foldl (fun s _ => spiBit D s) ⟨lines, send, 0⟩
  (s.lines, s.recieve)

/-- `encoder_tim_isr`. -/
def encoderTimIsr (s : Encoder) (lines : SpiLines σ) : Encoder × SpiLines σ :=
  let r := spiTransferWord D (spiSwBegin D lines) 0xFFFF
  let pos := r.2 &&& 0x3FFF
  ({ s with lastEncAngle := (pos.toNat : Rat) * 360 / 16384 }, spiSwEnd D r.1)

variable {τ : Type} {d : WordDevice 16 τ}

theorem spiBit_after (state : τ) (mosi : Bool) {count : Nat} (h : count < 16) (send : BitVec 16) :
    spiBit d.trailing
        ⟨⟨.after state (.fill 16 mosi) count, false, mosi⟩, send, d.reply state >>> (16 - count)⟩ =
      ⟨⟨d.turn (.after state (.fill 16 mosi) (count + 1)), false, mosi⟩, send <<< 1,
        d.reply state >>> (16 - (count + 1))⟩ := by
  have hbit : mosi = (BitVec.fill 16 mosi).getLsbD (16 - 1 - count) := by
    rw [BitVec.getLsbD_fill]
    simp [show 16 - 1 - count < 16 by omega]
  have hrecieve := shiftIn_ushiftRight (d.reply state) h
  unfold spiBit
  simp only [SpiLines.setSck, SpiLines.clearSck, SpiLines.readMiso, recieve_eq_shiftIn]
  simp only [Bool.false_eq_true, if_false, if_true, WordDevice.trailing_output,
    WordDevice.trailing_period state _ h hbit, hrecieve]

/-- The rounds of a word. -/
theorem foldl_spiBit (state : τ) (mosi : Bool) (send : BitVec 16) {count : Nat} (h : count ≤ 16) :
    ∃ rest, (List.range count).foldl (fun s _ => spiBit d.trailing s)
        ⟨⟨.between 16 state, false, mosi⟩, send, 0⟩ =
      ⟨⟨d.turn (.after state (.fill 16 mosi) count), false, mosi⟩, rest,
        d.reply state >>> (16 - count)⟩ := by
  induction count with
  | zero => exact ⟨send, by simp [WordDevice.after_zero, WordDevice.turn, InWord.between]⟩
  | succ count ih =>
      rcases ih (Nat.le_of_succ_le h) with ⟨rest, hrounds⟩
      have hwithin : d.turn (.after state (.fill 16 mosi) count) =
          .after state (.fill 16 mosi) count := by
        unfold WordDevice.turn
        exact if_neg (show ¬count = 16 by omega)
      rw [List.range_succ, List.foldl_append, hrounds, hwithin]
      exact ⟨rest <<< 1, spiBit_after state mosi h rest⟩

/-- The word of the encoder is read as it is. -/
theorem spiTransferWord_between (state : τ) (mosi : Bool) (send : BitVec 16) :
    spiTransferWord d.trailing ⟨.between 16 state, false, mosi⟩ send =
      (⟨.between 16 (d.next state (.fill 16 mosi)), false, mosi⟩, d.reply state) := by
  rcases foldl_spiBit (d := d) state mosi send (le_refl 16) with ⟨rest, hrounds⟩
  unfold spiTransferWord
  rw [hrounds, WordDevice.turn_after state _ 15]
  simp

end Lines

/-! ## The encoder on the shaft -/

/-- The driver with both encoders: the edges of the incremental one from its index, and what the
absolute one gave at the last interrupt since the driver uses it. -/
structure EncoderShaft (τ : Type) where
  conf : McConfiguration
  encoder : Encoder
  lines : SpiLines (InWord 16 τ)
  position : Int
  sampled : Option (BitVec 14)

inductive EncoderStep (τ : Type) where
  | edge (forward : Bool)
  -- the absolute encoder turns
  | turn (state : τ)
  | encoderTimIsr
  | encoderReadDeg
  | setConfiguration (c : McConfiguration)

/-- Where an edge leaves the shaft. -/
def moved (position : Int) (forward : Bool) : Int :=
  if forward then position + 1 else position - 1

namespace EncoderShaft

variable {τ : Type} (d : WordDevice 16 τ) (turn : Nat) (s : EncoderShaft τ)

/-- An incremental encoder has its edges counted, and its index interrupts. -/
def edge (forward : Bool) : EncoderShaft τ :=
  { s with
    position := moved s.position forward
    encoder :=
      if s.encoder.mode = .abi then
        if (turn : Int) ∣ moved s.position forward then (s.encoder.countEdge forward).encoderReset
        else s.encoder.countEdge forward
      else s.encoder }

/-- The interrupt of the timer, which is enabled for the absolute encoder. -/
def interrupt : EncoderShaft τ :=
  if s.encoder.mode = .as5047pSpi then
    let r := encoderTimIsr d.trailing s.encoder s.lines
    { s with
      encoder := r.1
      lines := r.2
      sampled := some ((d.reply (d.select s.lines.device.state)).setWidth 14) }
  else s

/-- The part of `mc_interface_set_configuration` that is about the encoder. -/
def setConfiguration (c : McConfiguration) : EncoderShaft τ :=
  { s with
    conf := c
    encoder := s.encoder.setEncoder s.conf c
    sampled := if s.conf.mSensorPortMode ≠ c.mSensorPortMode then none else s.sampled }

def step : EncoderStep τ → EncoderShaft τ × List Rat
  | .edge forward => (s.edge turn forward, [])
  | .turn state => ({ s with lines.device.state := state }, [])
  | .encoderTimIsr => (s.interrupt d, [])
  | .encoderReadDeg => ({ s with encoder := s.encoder.encoderReadDeg.1 },
      [s.encoder.encoderReadDeg.2])
  | .setConfiguration c => (s.setConfiguration c, [])

/-- The start of the firmware. -/
def start (c : McConfiguration) (state : τ) (mosi : Bool) (position : Int) : EncoderShaft τ :=
  ⟨c, Encoder.reset.initEncoder c, ⟨.between 16 state, false, mosi⟩, position, none⟩

end EncoderShaft

/-- The shaft as it turns, with the angles that are read. -/
def encoderShaft {τ : Type} (d : WordDevice 16 τ) (turn : Nat) :
    Machine (EncoderShaft τ) (EncoderStep τ) Rat where
  step := EncoderShaft.step d turn

/-- `m_phase_now_encoder` for the angle of the encoder. -/
def phaseNowEncoder (c : McConfiguration) (encAng : Rat) : Rat :=
  let phaseTmp := if c.focEncoderInverted then 360 - encAng else encAng
  utilsNormAngle (phaseTmp * c.focEncoderRatio - c.focEncoderOffset) * (mPi / 180)

/-! ## What is counted -/

/-- The timer counts the position from the index on. -/
structure Encoder.Tracks (turn : Nat) (position : Int) (s : Encoder) : Prop where
  reload : s.mode = .abi → s.timer.arr = (s.encCounts - 1).setWidth 16
  counted : s.mode = .abi → s.indexFound → s.encCounts.toNat = turn →
    (s.timer.cnt.toNat : Int) = position % turn

/-- What holds between the steps. -/
structure EncoderShaft.Sound {τ : Type} (turn : Nat) (s : EncoderShaft τ) : Prop where
  rest : s.lines.sck = false ∧ s.lines.device = .between 16 s.lines.device.state
  tracks : s.encoder.Tracks turn s.position
  sampled : s.encoder.lastEncAngle = ((s.sampled.getD 0).toNat : Rat) * 360 / 16384

/-- The last count of a turn. -/
theorem toNat_reload {counts : Word} {turn : Nat} (hturn : 0 < turn) (hfits : turn ≤ 2 ^ 16)
    (hcounts : counts.toNat = turn) : ((counts - 1).setWidth 16).toNat + 1 = turn := by
  rw [BitVec.toNat_setWidth, BitVec.toNat_sub]
  simp
  omega

theorem count_forward {t : EncTimer} {turn : Nat} (harr : t.arr.toNat + 1 = turn) {position : Int}
    (h : (t.cnt.toNat : Int) = position % turn) :
    ((t.count true).cnt.toNat : Int) = (position + 1) % turn := by
  have hpos : (0 : Int) < turn := by omega
  have hnext : (position + 1) % turn = (t.cnt.toNat + 1) % turn := by
    rw [h, Int.emod_add_emod]
  unfold EncTimer.count
  rw [hnext, if_pos rfl]
  dsimp only
  by_cases hlast : t.cnt = t.arr
  · have hturn : (t.cnt.toNat : Int) + 1 = turn := by rw [hlast]; omega
    rw [if_pos hlast, hturn]
    simp
  · have hlt := Int.emod_lt_of_pos position hpos
    have hne : t.cnt.toNat ≠ t.arr.toNat := fun heq => hlast (BitVec.eq_of_toNat_eq heq)
    have harr' := t.arr.isLt
    rw [if_neg hlast, Int.emod_eq_of_lt (by omega) (by omega), BitVec.toNat_add_of_lt (by simp; omega)]
    simp

theorem count_backward {t : EncTimer} {turn : Nat} (harr : t.arr.toNat + 1 = turn) {position : Int}
    (h : (t.cnt.toNat : Int) = position % turn) :
    ((t.count false).cnt.toNat : Int) = (position - 1) % turn := by
  have hpos : (0 : Int) < turn := by omega
  have hnext : (position - 1) % turn = (t.cnt.toNat - 1) % turn := by
    rw [h, Int.emod_sub_emod]
  unfold EncTimer.count
  rw [hnext, if_neg Bool.false_ne_true]
  dsimp only
  by_cases hfirst : t.cnt = 0
  · have hback : ((t.cnt.toNat : Int) - 1) % turn = turn - 1 := by
      rw [hfirst, ← Int.add_emod_right, Int.emod_eq_of_lt] <;> simp <;> omega
    rw [if_pos hfirst, hback]
    omega
  · have hlt := Int.emod_lt_of_pos position hpos
    have hne : t.cnt.toNat ≠ 0 := fun heq => hfirst (BitVec.eq_of_toNat_eq heq)
    rw [if_neg hfirst, Int.emod_eq_of_lt (by omega) (by omega), BitVec.toNat_sub_of_le]
    · simp
      omega
    · rw [BitVec.le_def]
      simp
      omega

namespace Encoder

variable {turn : Nat} {position : Int} {s : Encoder}

theorem Tracks.countEdge (h : s.Tracks turn position) (hmode : s.mode = .abi) (hturn : 0 < turn)
    (hfits : turn ≤ 2 ^ 16) (forward : Bool) :
    (s.countEdge forward).Tracks turn (moved position forward) := by
  constructor
  · intro _
    have hkept : (s.timer.count forward).arr = s.timer.arr := by
      unfold EncTimer.count
      split <;> rfl
    exact hkept.trans (h.reload hmode)
  · intro _ hfound hcounts
    have harr : s.timer.arr.toNat + 1 = turn := by
      rw [h.reload hmode]
      exact toNat_reload hturn hfits hcounts
    cases forward with
    | true => exact count_forward harr (h.counted hmode hfound hcounts)
    | false => exact count_backward harr (h.counted hmode hfound hcounts)

theorem Tracks.encoderReset (h : s.Tracks turn position) {position' : Int}
    (hindex : (turn : Int) ∣ position') : s.encoderReset.Tracks turn position' :=
  ⟨h.reload, fun _ _ _ => (Int.emod_eq_zero_of_dvd hindex).symm⟩

theorem tracks_of_mode (hmode : s.mode ≠ .abi) : s.Tracks turn position :=
  ⟨fun habi => absurd habi hmode, fun habi => absurd habi hmode⟩

/-- Without the index there is nothing to track. -/
theorem tracks_of_unfound (hreload : s.timer.arr = (s.encCounts - 1).setWidth 16)
    (hfound : s.indexFound = false) : s.Tracks turn position :=
  ⟨fun _ => hreload, fun _ hindex => absurd hindex (by simp [hfound])⟩

theorem Tracks.encoderSetCounts (h : s.Tracks turn position) (counts : Word) :
    (s.encoderSetCounts counts).Tracks turn position := by
  unfold Encoder.encoderSetCounts
  split
  · exact tracks_of_unfound rfl rfl
  · exact h

theorem Tracks.initEncoder (h : s.Tracks turn position) (c : McConfiguration) :
    (s.initEncoder c).Tracks turn position := by
  unfold Encoder.initEncoder
  split
  · exact tracks_of_unfound rfl rfl
  · split
    · exact tracks_of_mode (by simp [encoderInitAs5047pSpi])
    · exact h

theorem Tracks.setEncoder (h : s.Tracks turn position) (old c : McConfiguration) :
    (s.setEncoder old c).Tracks turn position := by
  have hdeinit : s.encoderDeinit.Tracks turn position :=
    tracks_of_mode (by simp [encoderDeinit])
  unfold Encoder.setEncoder
  split_ifs
  · exact (hdeinit.initEncoder c).encoderSetCounts c.mEncoderCounts
  · exact hdeinit.initEncoder c
  · exact h.encoderSetCounts c.mEncoderCounts
  · exact h

theorem lastEncAngle_initEncoder (s : Encoder) (c : McConfiguration) :
    (s.initEncoder c).lastEncAngle = s.lastEncAngle := by
  unfold Encoder.initEncoder
  split_ifs <;> rfl

theorem lastEncAngle_setEncoder (s : Encoder) (old c : McConfiguration) :
    (s.setEncoder old c).lastEncAngle =
      if old.mSensorPortMode ≠ c.mSensorPortMode then 0 else s.lastEncAngle := by
  have hcounts (s : Encoder) (counts : Word) :
      (s.encoderSetCounts counts).lastEncAngle = s.lastEncAngle := by
    unfold Encoder.encoderSetCounts
    split <;> rfl
  unfold Encoder.setEncoder
  split_ifs <;> simp only [hcounts, lastEncAngle_initEncoder] <;> rfl

end Encoder

namespace EncoderShaft

variable {τ : Type} {d : WordDevice 16 τ} {turn : Nat} {s : EncoderShaft τ}

theorem Sound.edge (h : s.Sound turn) (hturn : 0 < turn) (hfits : turn ≤ 2 ^ 16)
    (forward : Bool) : (s.edge turn forward).Sound turn := by
  refine ⟨h.rest, ?_, ?_⟩
  · unfold EncoderShaft.edge
    dsimp only
    split
    next hmode =>
      have hcount := h.tracks.countEdge hmode hturn hfits forward
      split
      next hindex => exact hcount.encoderReset hindex
      next => exact hcount
    next hmode => exact Encoder.tracks_of_mode hmode
  · refine Eq.trans ?_ h.sampled
    unfold EncoderShaft.edge
    split_ifs <;> rfl

theorem toNat_angle (word : BitVec 16) : (word &&& 0x3FFF).toNat = (word.setWidth 14).toNat := by
  have hmask : (0x3FFF : BitVec 16).toNat = 2 ^ 14 - 1 := by decide
  rw [BitVec.toNat_and, hmask, Nat.and_two_pow_sub_one_eq_mod, BitVec.toNat_setWidth]

/-- The interrupt, with the lines at rest. -/
theorem encoderTimIsr_between (enc : Encoder) (state : τ) (mosi : Bool) :
    encoderTimIsr d.trailing enc ⟨.between 16 state, false, mosi⟩ =
      ({ enc with
          lastEncAngle := (((d.reply (d.select state)).setWidth 14).toNat : Rat) * 360 / 16384 },
        ⟨.between 16 (d.deselect (d.next (d.select state) (.fill 16 mosi))), false, mosi⟩) := by
  have hbegin : spiSwBegin d.trailing ⟨.between 16 state, false, mosi⟩ =
      ⟨.between 16 (d.select state), false, mosi⟩ :=
    rfl
  unfold encoderTimIsr
  rw [hbegin, spiTransferWord_between]
  dsimp only
  rw [toNat_angle]
  rfl

theorem Sound.interrupt (h : s.Sound turn) : (s.interrupt d).Sound turn := by
  unfold EncoderShaft.interrupt
  split
  next hmode =>
    obtain ⟨⟨device, sck, mosi⟩, hlines⟩ : ∃ lines, s.lines = lines := ⟨_, rfl⟩
    have hrest := h.rest
    rw [hlines] at hrest ⊢
    obtain ⟨rfl, hdevice⟩ := hrest
    dsimp only at hdevice
    rw [hdevice, encoderTimIsr_between]
    have hother : s.encoder.mode ≠ .abi := by simp [hmode]
    exact ⟨⟨rfl, rfl⟩, Encoder.tracks_of_mode hother, rfl⟩
  next => exact h

theorem Sound.setConfiguration (h : s.Sound turn) (c : McConfiguration) :
    (s.setConfiguration c).Sound turn := by
  refine ⟨h.rest, h.tracks.setEncoder s.conf c, ?_⟩
  unfold EncoderShaft.setConfiguration
  dsimp only
  rw [Encoder.lastEncAngle_setEncoder]
  split
  · simp
  · exact h.sampled

theorem Sound.step (h : s.Sound turn) (hturn : 0 < turn) (hfits : turn ≤ 2 ^ 16)
    (i : EncoderStep τ) : ((encoderShaft d turn).step s i).1.Sound turn := by
  cases i with
  | edge forward => exact h.edge hturn hfits forward
  | turn state =>
      have hdevice : { s.lines.device with state := state } = InWord.between 16 state := by
        rw [h.rest.2]
        rfl
      exact ⟨⟨h.rest.1, hdevice⟩, h.tracks, h.sampled⟩
  | encoderTimIsr => exact h.interrupt
  | encoderReadDeg => exact ⟨h.rest, ⟨h.tracks.reload, h.tracks.counted⟩, h.sampled⟩
  | setConfiguration c => exact h.setConfiguration c

theorem sound_start (c : McConfiguration) (state : τ) (mosi : Bool) (position : Int) :
    (start c state mosi position).Sound turn := by
  have hreset : Encoder.reset.Tracks turn position := Encoder.tracks_of_mode (by simp [Encoder.reset])
  refine ⟨⟨rfl, rfl⟩, hreset.initEncoder c, ?_⟩
  unfold start
  rw [Encoder.lastEncAngle_initEncoder]
  simp [Encoder.reset]

theorem sound_run {turn : Nat} (hturn : 0 < turn) (hfits : turn ≤ 2 ^ 16) (c : McConfiguration)
    (state : τ) (mosi : Bool) (position : Int) (steps : List (EncoderStep τ)) :
    ((encoderShaft d turn).run (start c state mosi position) steps).1.Sound turn :=
  Machine.run_invariant (fun _ i h => h.step hturn hfits i) (sound_start c state mosi position) steps

end EncoderShaft

/-! ## The angle -/

/-- What `encoder_read_deg` gives is the angle of the shaft: that of its position, once the
index was found with the right number of counts, or what the absolute encoder gave last. -/
structure EncoderShaft.Reads {τ : Type} (turn : Nat) (s : EncoderShaft τ) : Prop where
  abi : s.encoder.mode = .abi → s.encoder.indexFound → s.encoder.encCounts.toNat = turn →
    s.encoder.encoderReadDeg.2 = ((s.position % turn : Int) : Rat) * 360 / turn
  as5047pSpi : s.encoder.mode = .as5047pSpi →
    s.encoder.encoderReadDeg.2 = ((s.sampled.getD 0).toNat : Rat) * 360 / 2 ^ 14

theorem EncoderShaft.Sound.reads {τ : Type} {turn : Nat} {s : EncoderShaft τ} (h : s.Sound turn) :
    s.Reads turn := by
  constructor
  · intro hmode hfound hcounts
    have hcnt := h.tracks.counted hmode hfound hcounts
    rw [← hcnt, ← hcounts]
    simp [Encoder.encoderReadDeg, hmode]
  · intro hmode
    have hangle := h.sampled
    norm_num [Encoder.encoderReadDeg, hmode, hangle]

/-- An absolute encoder that always has its angle ready. -/
def steadySensor : WordDevice 16 (BitVec 16) := ⟨id, id, id, fun state _ => state⟩

/-- A configuration with an incremental encoder of 4000 edges. -/
def withEncoder : McConfiguration :=
  { (default : McConfiguration) with mSensorPortMode := 1, mEncoderCounts := 4000, focEncoderRatio := 7 }

theorem utilsNormAngle_turns (angle : Rat) (turns : Int) :
    utilsNormAngle (angle + 360 * turns) = utilsNormAngle angle := by
  have hturns : (angle + 360 * turns) / 360 = angle / 360 + turns := by ring
  unfold utilsNormAngle
  rw [hturns, Int.floor_add_intCast]
  push_cast
  ring

/-- With whole turns of the field in a turn of the shaft the phase is that of the position,
however often the shaft has turned. -/
theorem phaseNowEncoder_turns {c : McConfiguration} {ratio : Int} (hratio : c.focEncoderRatio = ratio)
    {turn : Nat} (hturn : 0 < turn) (position : Int) :
    phaseNowEncoder c (((position % turn : Int) : Rat) * 360 / turn) =
      utilsNormAngle ((if c.focEncoderInverted then -1 else 1) * ratio * (position * 360 / turn) -
        c.focEncoderOffset) * (mPi / 180) := by
  have hne : (turn : Rat) ≠ 0 := Nat.cast_ne_zero.2 hturn.ne'
  have hmod : (position : Rat) = turn * ((position / turn : Int) : Rat) + ((position % turn : Int) : Rat) := by
    exact_mod_cast (Int.mul_ediv_add_emod position turn).symm
  have hshaft : (position : Rat) * 360 / turn =
      ((position % turn : Int) : Rat) * 360 / turn + 360 * ((position / turn : Int) : Rat) := by
    rw [hmod]
    field_simp
    ring
  unfold phaseNowEncoder
  rw [hratio, hshaft]
  generalize ((position % turn : Int) : Rat) * 360 / turn = part
  generalize position / (turn : Int) = turns
  cases c.focEncoderInverted with
  | true =>
      have hsame := utilsNormAngle_turns ((360 - part) * ratio - c.focEncoderOffset)
        (-(ratio * (1 + turns)))
      rw [if_pos rfl, if_pos rfl]
      dsimp only
      rw [← hsame]
      congr 2
      push_cast
      ring
  | false =>
      have hsame := utilsNormAngle_turns (part * ratio - c.focEncoderOffset) (ratio * turns)
      rw [if_neg Bool.false_ne_true, if_neg Bool.false_ne_true]
      dsimp only
      rw [← hsame]
      congr 2
      push_cast
      ring

/-- In every run the phase that the motor is driven with is that of the shaft. -/
theorem encoder_phase {τ : Type} (d : WordDevice 16 τ) {turn : Nat} (hturn : 0 < turn)
    (hfits : turn ≤ 2 ^ 16) (c : McConfiguration) (state : τ) (mosi : Bool) (position : Int)
    (steps : List (EncoderStep τ)) :
    let s := ((encoderShaft d turn).run (.start c state mosi position) steps).1
    ∀ ratio : Int, s.conf.focEncoderRatio = ratio → s.encoder.mode = .abi →
      s.encoder.indexFound → s.encoder.encCounts.toNat = turn →
        phaseNowEncoder s.conf s.encoder.encoderReadDeg.2 =
          utilsNormAngle ((if s.conf.focEncoderInverted then -1 else 1) * ratio *
            (s.position * 360 / turn) - s.conf.focEncoderOffset) * (mPi / 180) := by
  intro s ratio hratio hmode hfound hcounts
  have hreads := (EncoderShaft.sound_run (d := d) hturn hfits c state mosi position steps).reads
  rw [hreads.abi hmode hfound hcounts]
  exact phaseNowEncoder_turns hratio hturn s.position

theorem encoder_phase_backwards :
    let s := ((encoderShaft steadySensor 4000).run (.start withEncoder 0x2000 true 2)
      [.edge false, .edge false, .edge false]).1
    s.position = -1 ∧ phaseNowEncoder s.conf s.encoder.encoderReadDeg.2 =
      utilsNormAngle ((if s.conf.focEncoderInverted then -1 else 1) * (7 : Int) *
        (s.position * 360 / (4000 : Nat)) - s.conf.focEncoderOffset) * (mPi / 180) :=
  ⟨rfl, encoder_phase steadySensor (by decide) (by decide) withEncoder 0x2000 true 2 _ 7
    (by simp [encoderShaft, EncoderShaft.step, EncoderShaft.edge, EncoderShaft.start, withEncoder])
    rfl rfl rfl⟩

end Bldc.Foc
