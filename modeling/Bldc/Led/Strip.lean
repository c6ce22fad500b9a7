import Bldc.Flash.Memory
import Bldc.Led.Pwm

/-!
# The strip of WS2811 LEDs

`ws2811.c` keeps a buffer of pulse lengths, 24 for each LED, which the DMA sends over and over
again. After any number of changes the strip shows the colours that were set, gamma corrected,
and each round ends with the pause after which the LEDs take over what they have received.
-/

namespace Bldc.Led

open Foundation Flash

/-- `TIM_PERIOD`. -/
def timPeriod : Nat := 104

/-- `WS2811_ZERO` and `WS2811_ONE`, as they are stored. -/
def ws2811Zero : Nat := ⌊(timPeriod : Rat) * 0.2⌋₊

def ws2811One : Nat := ⌊(timPeriod : Rat) * 0.8⌋₊

/-- `BITBUFFER_PAD`. -/
def bitbufferPad : Nat := 50

/-- The variables of `ws2811.c`, for `ledNum` LEDs (`WS2811_LED_NUM`). -/
structure Strip where
  ledNum : Nat
  bitbuffer : Nat → Nat
  rgbData : Nat → Word
  gammaTable : Byte → Byte

/-- `BITBUFFER_LEN`. There is one LED more in the buffers. -/
def Strip.bitbufferLen (s : Strip) : Nat := 24 * (s.ledNum + 1) + bitbufferPad

/-- The length of the pulse for the highest of the 24 bits. -/
def pulseOf (color : Word) : Nat := if color &&& 1 <<< 23 ≠ 0 then ws2811One else ws2811Zero

/-- The loop over `bits` bits, from an index of the buffer on. -/
def fillBits (bitbuffer : Nat → Nat) (index : Nat) (color : Word) : Nat → Nat → Nat
  | 0 => bitbuffer
  | bits + 1 =>
      fillBits (Function.update bitbuffer index (pulseOf color)) (index + 1) (color <<< 1) bits

namespace Strip

variable (s : Strip)

/-- `rgb_to_local`. -/
def rgbToLocal (color : Word) : Word :=
  let r := s.gammaTable ((color >>> 16).setWidth 8)
  let g := s.gammaTable ((color >>> 8).setWidth 8)
  let b := s.gammaTable (color.setWidth 8)
  g.setWidth 32 <<< 16 ||| r.setWidth 32 <<< 8 ||| b.setWidth 32

/-- The 24 pulses of one LED. -/
def encode (led : Nat) (color : Word) : Strip :=
  { s with bitbuffer := fillBits s.bitbuffer (led * 24) color 24 }

/-- The colour of one LED, and its pulses. -/
def paint (led : Nat) (color : Word) : Strip :=
  { s with rgbData := Function.update s.rgbData led color }.encode led (s.rgbToLocal color)

/-- `ws2811_set_led_color`, for an LED from zero on. -/
def ws2811SetLedColor (led : Nat) (color : Word) : Strip :=
  if led < s.ledNum then s.paint led color else s

/-- `ws2811_get_led_color`. -/
def ws2811GetLedColor (led : Nat) : Word := if led < s.ledNum then s.rgbData led else 0

/-- `ws2811_all_off`. -/
def ws2811AllOff : Strip :=
  { s with
    rgbData := fun led => if led < s.ledNum then 0 else s.rgbData led
    bitbuffer := fun i => if i < s.ledNum * 24 then ws2811Zero else s.bitbuffer i }

/-- The loop of `ws2811_set_all`, over the first LEDs. -/
def paintFirst (s : Strip) (color : Word) : Nat → Strip
  | 0 => s
  | leds + 1 => (s.paintFirst color leds).paint leds color

/-- `ws2811_set_all`. -/
def ws2811SetAll (color : Word) : Strip := s.paintFirst color s.ledNum

/-- The second loop of `ws2811_init`, over the first LEDs. -/
def encodeFirst (s : Strip) : Nat → Strip
  | 0 => s
  | leds + 1 =>
      let t := s.encodeFirst leds
      t.encode leds (t.rgbToLocal (t.rgbData leds))

/-- `ws2811_init`. The pause is written one place before its own. -/
noncomputable def ws2811Init : Strip :=
  let t := { s with rgbData := fun led => if led < s.ledNum + 1 then 0 else s.rgbData led }
  let t := t.encodeFirst (s.ledNum + 1)
  { t with
    bitbuffer := fun i =>
      if s.bitbufferLen - bitbufferPad - 1 ≤ i ∧ i < s.bitbufferLen - 1 then 0 else t.bitbuffer i
    gammaTable := fun i => BitVec.ofNat 8 (gammaCorrection 255 i.toNat) }

/-- The static variables before `ws2811_init`. -/
def zeroed (ledNum : Nat) : Strip := ⟨ledNum, fun _ => 0, fun _ => 0, fun _ => 0⟩

end Strip

inductive StripStep where
  | setLedColor (led : Nat) (color : Word)
  | allOff
  | setAll (color : Word)

/-- The strip and what is done to it. -/
def strip : Machine Strip StripStep Empty where
  step s
    | .setLedColor led color => (s.ws2811SetLedColor led color, [])
    | .allOff => (s.ws2811AllOff, [])
    | .setAll color => (s.ws2811SetAll color, [])

/-! ## What the LEDs take -/

/-- The pulses of one round of the DMA. -/
def Strip.sent (s : Strip) : List Nat := (List.range s.bitbufferLen).map s.bitbuffer

/-- An LED reads a pulse of more than half the period as a one, the highest bit first. -/
def readPulses (pulses : List Nat) : Nat :=
  pulses.foldl (fun number pulse => 2 * number + if 2 * pulse > timPeriod then 1 else 0) 0

/-- Each LED takes 24 pulses, and passes on the others. -/
def taken (led : Nat) (pulses : List Nat) : Nat := readPulses ((pulses.drop (24 * led)).take 24)

/-- The colour as an LED shows it: green, red and blue, gamma corrected. -/
noncomputable def corrected (color : Word) : Nat :=
  gammaCorrection 255 (color.toNat / 2 ^ 8 % 2 ^ 8) * 2 ^ 16 +
    gammaCorrection 255 (color.toNat / 2 ^ 16 % 2 ^ 8) * 2 ^ 8 +
    gammaCorrection 255 (color.toNat % 2 ^ 8)

/-- The colour that the step asks of an LED. -/
def StripStep.color? (led : Nat) : StripStep → Option Word
  | setLedColor led' color => if led' = led then some color else none
  | allOff => some 0
  | setAll color => some color

/-! ## Pulses -/

theorem pulseOf_eq (color : Word) :
    pulseOf color = if color.getLsbD 23 then ws2811One else ws2811Zero := by
  have hbit : (1 <<< 23 : Word) = BitVec.twoPow 32 23 := rfl
  have hne : BitVec.twoPow 32 23 ≠ 0 := by decide
  rw [pulseOf, hbit, BitVec.and_twoPow]
  cases color.getLsbD 23 with
  | true => exact if_pos hne
  | false => exact if_neg (not_not_intro rfl)

/-- A pulse is read as the bit that it is for. -/
theorem read_pulseOf (color : Word) {k : Nat} (hk : k ≤ 23) :
    (if 2 * pulseOf (color <<< k) > timPeriod then 1 else 0) =
      color.toNat / 2 ^ (23 - k) % 2 := by
  have hone : 2 * ws2811One > timPeriod := by decide +kernel
  have hzero : ¬2 * ws2811Zero > timPeriod := by decide +kernel
  have hbit : color.toNat / 2 ^ (23 - k) % 2 = (color.getLsbD (23 - k)).toNat := by
    rw [BitVec.getLsbD, Nat.toNat_testBit]
  have hshift : (color <<< k).getLsbD 23 = color.getLsbD (23 - k) := by
    rw [BitVec.getLsbD_shiftLeft]
    simp [hk]
  rw [hbit, pulseOf_eq, hshift]
  cases color.getLsbD (23 - k) with
  | true => exact if_pos hone
  | false => exact if_neg hzero

theorem fillBits_apply (bitbuffer : Nat → Nat) (index : Nat) (color : Word) (bits i : Nat) :
    fillBits bitbuffer index color bits i =
      if index ≤ i ∧ i < index + bits then pulseOf (color <<< (i - index)) else bitbuffer i := by
  induction bits generalizing bitbuffer index color with
  | zero => rw [fillBits, if_neg (by omega)]
  | succ bits ih =>
      rw [fillBits, ih]
      by_cases hfirst : i = index
      · subst hfirst
        rw [if_neg (by omega), if_pos (by omega), Function.update_self, Nat.sub_self,
          BitVec.shiftLeft_zero]
      · rw [Function.update_of_ne hfirst]
        by_cases hin : index ≤ i ∧ i < index + (bits + 1)
        · have hcount : i - index = 1 + (i - (index + 1)) := by omega
          rw [if_pos (by omega), if_pos hin, hcount, BitVec.shiftLeft_add]
        · rw [if_neg (by omega), if_neg hin]

/-- The number that the first pulses of a colour stand for. -/
theorem readPulses_range (color : Word) {bits : Nat} (hbits : bits ≤ 24) :
    readPulses ((List.range bits).map fun k => pulseOf (color <<< k)) =
      color.toNat % 2 ^ 24 / 2 ^ (24 - bits) := by
  induction bits with
  | zero => exact (Nat.div_eq_of_lt (Nat.mod_lt _ (by decide))).symm
  | succ bits ih =>
      have hlast : color.toNat % 2 ^ 24 / 2 ^ (23 - bits) % 2 =
          color.toNat / 2 ^ (23 - bits) % 2 := by
        have hpow : (2 : Nat) ^ 24 = 2 ^ (23 - bits) * 2 ^ (bits + 1) := by
          rw [← Nat.pow_add]
          congr 1
          omega
        rw [hpow, Nat.mod_mul_right_div_self]
        exact Nat.mod_mod_of_dvd _ (Dvd.intro_left (2 ^ bits) rfl)
      have hhalf : color.toNat % 2 ^ 24 / 2 ^ (24 - bits) =
          color.toNat % 2 ^ 24 / 2 ^ (23 - bits) / 2 := by
        rw [Nat.div_div_eq_div_mul, ← Nat.pow_succ]
        congr 2
        omega
      have hsub : 24 - (bits + 1) = 23 - bits := by omega
      rw [readPulses, List.range_succ, List.map_append, List.foldl_append, ← readPulses,
        ih (by omega), List.map_singleton, List.foldl_cons, List.foldl_nil,
        read_pulseOf color (by omega), hhalf, hsub, ← hlast]
      exact Nat.div_add_mod _ 2

/-! ## Colours -/

theorem gammaCorrection_lt (i : Nat) (hi : i < 2 ^ 8) : gammaCorrection 255 i < 2 ^ 8 := by
  have htop : gammaCorrection 255 255 = 255 := gammaCorrection_top (by decide)
  have hle : gammaCorrection 255 i ≤ gammaCorrection 255 255 := gammaCorrection_mono (by omega)
  omega

/-- Three bytes in one number. -/
theorem toNat_bytes (g r b : Byte) :
    (g.setWidth 32 <<< 16 ||| r.setWidth 32 <<< 8 ||| b.setWidth 32 : Word).toNat =
      g.toNat * 2 ^ 16 + r.toNat * 2 ^ 8 + b.toNat := by
  have hg := g.isLt
  have hr := r.isLt
  have hb := b.isLt
  have hlow : r.toNat <<< 8 ||| b.toNat = r.toNat * 2 ^ 8 + b.toNat := by
    rw [← Nat.shiftLeft_add_eq_or_of_lt hb, Nat.shiftLeft_eq]
  have hall : g.toNat <<< 16 ||| (r.toNat * 2 ^ 8 + b.toNat) =
      g.toNat * 2 ^ 16 + (r.toNat * 2 ^ 8 + b.toNat) := by
    rw [← Nat.shiftLeft_add_eq_or_of_lt (show r.toNat * 2 ^ 8 + b.toNat < 2 ^ 16 by omega),
      Nat.shiftLeft_eq]
  simp only [BitVec.toNat_or, BitVec.toNat_shiftLeft, BitVec.toNat_setWidth]
  rw [Nat.mod_eq_of_lt (show g.toNat < 2 ^ 32 by omega),
    Nat.mod_eq_of_lt (show r.toNat < 2 ^ 32 by omega),
    Nat.mod_eq_of_lt (show b.toNat < 2 ^ 32 by omega),
    Nat.mod_eq_of_lt (show g.toNat <<< 16 < 2 ^ 32 by rw [Nat.shiftLeft_eq]; omega),
    Nat.mod_eq_of_lt (show r.toNat <<< 8 < 2 ^ 32 by rw [Nat.shiftLeft_eq]; omega),
    Nat.or_assoc, hlow, hall, Nat.add_assoc]

namespace Strip

variable {s : Strip}

/-- The table is the one of `ws2811_init`. -/
def Corrects (s : Strip) : Prop :=
  s.gammaTable = fun i => BitVec.ofNat 8 (gammaCorrection 255 i.toNat)

theorem rgbToLocal_toNat (h : s.Corrects) (color : Word) :
    (s.rgbToLocal color).toNat = corrected color := by
  have hentry : ∀ i : Byte, (s.gammaTable i).toNat = gammaCorrection 255 i.toNat := by
    intro i
    rw [h, BitVec.toNat_ofNat, Nat.mod_eq_of_lt (gammaCorrection_lt _ i.isLt)]
  rw [rgbToLocal, toNat_bytes, hentry, hentry, hentry, BitVec.toNat_setWidth,
    BitVec.toNat_setWidth, BitVec.toNat_setWidth, BitVec.toNat_ushiftRight,
    BitVec.toNat_ushiftRight, Nat.shiftRight_eq_div_pow, Nat.shiftRight_eq_div_pow, corrected]

theorem rgbToLocal_zero (h : s.gammaTable 0 = 0) : s.rgbToLocal 0 = 0 := by
  have hentry : ∀ i : Byte, i = 0 → s.gammaTable i = 0 := by
    rintro i rfl
    exact h
  unfold rgbToLocal
  dsimp only
  rw [hentry _ (by decide), hentry _ (by decide), hentry (BitVec.setWidth 8 0) (by decide)]
  rfl

theorem corrected_lt (color : Word) : corrected color < 2 ^ 24 := by
  have hg := gammaCorrection_lt (color.toNat / 2 ^ 8 % 2 ^ 8) (Nat.mod_lt _ (by decide))
  have hr := gammaCorrection_lt (color.toNat / 2 ^ 16 % 2 ^ 8) (Nat.mod_lt _ (by decide))
  have hb := gammaCorrection_lt (color.toNat % 2 ^ 8) (Nat.mod_lt _ (by decide))
  unfold corrected
  omega

/-! ## The buffer -/

/-- The pulses of one LED are those of a colour. -/
def Pulses (s : Strip) (led : Nat) (color : Word) : Prop :=
  ∀ k < 24, s.bitbuffer (led * 24 + k) = pulseOf (color <<< k)

theorem pulses_encode (led : Nat) (color : Word) : (s.encode led color).Pulses led color := by
  intro k hk
  have hoffset : led * 24 + k - led * 24 = k := by omega
  have hfill := fillBits_apply s.bitbuffer (led * 24) color 24 (led * 24 + k)
  rw [if_pos (by omega), hoffset] at hfill
  exact hfill

/-- The other LEDs and the pause are not touched. -/
theorem bitbuffer_encode (led : Nat) (color : Word) {i : Nat}
    (h : i < led * 24 ∨ led * 24 + 24 ≤ i) : (s.encode led color).bitbuffer i = s.bitbuffer i := by
  have hfill := fillBits_apply s.bitbuffer (led * 24) color 24 i
  rw [if_neg (by omega)] at hfill
  exact hfill

theorem Pulses.encode {led led' : Nat} {color : Word} (h : s.Pulses led color) (hne : led' ≠ led)
    (color' : Word) : (s.encode led' color').Pulses led color := by
  intro k hk
  rw [bitbuffer_encode led' color' (by omega)]
  exact h k hk

/-- The LEDs show their colours, and the pause is one. -/
structure Shows (s : Strip) : Prop where
  corrects : s.Corrects
  pulses : ∀ led < s.ledNum, s.Pulses led (s.rgbToLocal (s.rgbData led))
  pause : ∀ i, s.ledNum * 24 + 23 ≤ i → i < s.bitbufferLen → s.bitbuffer i = 0

theorem Shows.gamma_zero (h : s.Shows) : s.gammaTable 0 = 0 := by
  rw [h.corrects]
  simp [gammaCorrection_zero]

theorem Shows.paint (h : s.Shows) {led : Nat} (hled : led < s.ledNum) (color : Word) :
    (s.paint led color).Shows := by
  refine ⟨h.corrects, fun led' hled' => ?_, fun i hlow hhigh => ?_⟩
  · by_cases hsame : led' = led
    · subst hsame
      have hdata : (s.paint led' color).rgbData led' = color := Function.update_self _ _ _
      rw [hdata]
      exact pulses_encode led' _
    · have hdata : (s.paint led color).rgbData led' = s.rgbData led' :=
        Function.update_of_ne hsame _ _
      rw [hdata]
      have hother : (Strip.Pulses { s with rgbData := Function.update s.rgbData led color } led'
          (s.rgbToLocal (s.rgbData led'))) := h.pulses led' hled'
      exact hother.encode (Ne.symm hsame) _
  · have hlow' : s.ledNum * 24 + 23 ≤ i := hlow
    rw [Strip.paint, bitbuffer_encode led _ (by omega)]
    exact h.pause i hlow' hhigh

theorem paintFirst_ledNum (color : Word) (leds : Nat) :
    (s.paintFirst color leds).ledNum = s.ledNum := by
  induction leds with
  | zero => rfl
  | succ leds ih => exact ih

theorem Shows.paintFirst (h : s.Shows) (color : Word) {leds : Nat} (hleds : leds ≤ s.ledNum) :
    (s.paintFirst color leds).Shows := by
  induction leds with
  | zero => exact h
  | succ leds ih =>
      refine (ih (by omega)).paint ?_ color
      rw [paintFirst_ledNum]
      omega

theorem rgbData_paintFirst (color : Word) (leds led : Nat) :
    (s.paintFirst color leds).rgbData led = if led < leds then color else s.rgbData led := by
  induction leds with
  | zero => rfl
  | succ leds ih =>
      have hdata : (s.paintFirst color (leds + 1)).rgbData =
          Function.update (s.paintFirst color leds).rgbData leds color := rfl
      rw [hdata]
      by_cases hsame : led = leds
      · rw [hsame, Function.update_self, if_pos (by omega)]
      · rw [Function.update_of_ne hsame, ih]
        by_cases hlt : led < leds
        · rw [if_pos hlt, if_pos (by omega)]
        · rw [if_neg hlt, if_neg (by omega)]

theorem Shows.allOff (h : s.Shows) : s.ws2811AllOff.Shows := by
  refine ⟨h.corrects, fun led hled k hk => ?_, fun i hlow hhigh => ?_⟩
  · have hled' : led < s.ledNum := hled
    have hzero : s.ws2811AllOff.rgbToLocal 0 = 0 := rgbToLocal_zero (s := s.ws2811AllOff) h.gamma_zero
    have hpulse : pulseOf 0 = ws2811Zero := rfl
    simp only [ws2811AllOff] at hzero ⊢
    have hshift : (0 : Word) <<< k = 0 := BitVec.zero_shiftLeft k
    rw [if_pos hled', if_pos (by omega), hzero, hshift, hpulse]
  · have hlow' : s.ledNum * 24 + 23 ≤ i := hlow
    simp only [ws2811AllOff]
    rw [if_neg (by omega)]
    exact h.pause i hlow hhigh

theorem Shows.step (h : s.Shows) (step : StripStep) : (strip.step s step).1.Shows := by
  cases step with
  | setLedColor led color =>
      simp only [strip, ws2811SetLedColor]
      split
      next hled => exact h.paint hled color
      next => exact h
  | allOff => exact h.allOff
  | setAll color => exact h.paintFirst color (le_refl _)

/-! ## The start -/

theorem encodeFirst_data (leds : Nat) : (s.encodeFirst leds).ledNum = s.ledNum ∧
    (s.encodeFirst leds).rgbData = s.rgbData ∧ (s.encodeFirst leds).gammaTable = s.gammaTable := by
  induction leds with
  | zero => exact ⟨rfl, rfl, rfl⟩
  | succ leds ih => exact ih

theorem pulses_encodeFirst {leds led : Nat} (hled : led < leds) :
    (s.encodeFirst leds).Pulses led (s.rgbToLocal (s.rgbData led)) := by
  induction leds with
  | zero => omega
  | succ leds ih =>
      obtain ⟨-, hdata, hgamma⟩ := encodeFirst_data (s := s) leds
      have hlocal : (s.encodeFirst leds).rgbToLocal ((s.encodeFirst leds).rgbData leds) =
          s.rgbToLocal (s.rgbData leds) := by
        rw [rgbToLocal, rgbToLocal, hgamma, hdata]
      by_cases hsame : led = leds
      · subst hsame
        rw [← hlocal]
        exact pulses_encode led _
      · exact (ih (by omega)).encode (Ne.symm hsame) _

theorem bitbuffer_encodeFirst {leds i : Nat} (hi : leds * 24 ≤ i) :
    (s.encodeFirst leds).bitbuffer i = s.bitbuffer i := by
  induction leds with
  | zero => rfl
  | succ leds ih =>
      rw [encodeFirst, bitbuffer_encode leds _ (by omega), ih (by omega)]

/-- The variables in the second loop of `ws2811_init`. -/
def cleared (ledNum : Nat) : Strip :=
  { zeroed ledNum with rgbData := fun led => if led < ledNum + 1 then 0 else 0 }

theorem bitbuffer_init (ledNum i : Nat) :
    (zeroed ledNum).ws2811Init.bitbuffer i =
      if ledNum * 24 + 23 ≤ i ∧ i < ledNum * 24 + 73 then 0
      else ((cleared ledNum).encodeFirst (ledNum + 1)).bitbuffer i := by
  have hwindow : (zeroed ledNum).bitbufferLen - bitbufferPad - 1 ≤ i ∧
      i < (zeroed ledNum).bitbufferLen - 1 ↔ ledNum * 24 + 23 ≤ i ∧ i < ledNum * 24 + 73 := by
    simp only [bitbufferLen, zeroed, bitbufferPad]
    omega
  rw [← if_congr hwindow rfl rfl]
  rfl

theorem rgbData_init (ledNum led : Nat) : (zeroed ledNum).ws2811Init.rgbData led = 0 := by
  have hdata : (cleared ledNum).rgbData led = 0 := ite_self 0
  rw [← hdata]
  exact congrFun (encodeFirst_data _).2.1 led

theorem shows_init (ledNum : Nat) : (zeroed ledNum).ws2811Init.Shows := by
  have hdata : ∀ led, (cleared ledNum).rgbData led = 0 := fun led => ite_self 0
  have hnum : (zeroed ledNum).ws2811Init.ledNum = ledNum := (encodeFirst_data _).1
  have hcorrects : (zeroed ledNum).ws2811Init.Corrects := rfl
  have hgamma : (zeroed ledNum).ws2811Init.gammaTable 0 = 0 := by
    rw [hcorrects]
    simp [gammaCorrection_zero]
  refine ⟨hcorrects, fun led hled k hk => ?_, fun i hlow hhigh => ?_⟩
  · rw [hnum] at hled
    have hpulses := pulses_encodeFirst (s := cleared ledNum) (show led < ledNum + 1 by omega) k hk
    rw [bitbuffer_init, if_neg (by omega), hpulses, rgbData_init, hdata, rgbToLocal_zero hgamma,
      rgbToLocal_zero (s := cleared ledNum) rfl]
  · rw [bitbufferLen, hnum, bitbufferPad] at hhigh
    rw [hnum] at hlow
    rw [bitbuffer_init]
    split
    next => rfl
    next => rw [bitbuffer_encodeFirst (by omega)]; rfl

/-! ## What is sent -/

/-- An LED takes its own pulses from a round. -/
theorem taken_sent {led : Nat} {color : Word} (hled : led < s.ledNum) (h : s.Pulses led color)
    (hcolor : color.toNat < 2 ^ 24) : taken led s.sent = color.toNat := by
  have hown : (s.sent.drop (24 * led)).take 24 =
      (List.range 24).map fun k => pulseOf (color <<< k) := by
    have hlen : s.sent.length = 24 * (s.ledNum + 1) + bitbufferPad := by
      rw [sent, List.length_map, List.length_range, bitbufferLen]
    apply List.ext_getElem
    · rw [List.length_take, List.length_drop, List.length_map, List.length_range, hlen]
      omega
    · intro k _ hk
      rw [List.length_map, List.length_range] at hk
      rw [List.getElem_take, List.getElem_drop, List.getElem_map, List.getElem_range,
        ← h k hk]
      simp only [sent, List.getElem_map, List.getElem_range]
      rw [Nat.mul_comm]
  rw [taken, hown, readPulses_range color (le_refl 24), Nat.sub_self, Nat.pow_zero, Nat.div_one,
    Nat.mod_eq_of_lt hcolor]

/-- A round ends with a pause of the length of 51 pulses. -/
theorem Shows.sent_pause (h : s.Shows) :
    s.sent.drop (24 * s.ledNum + 23) = List.replicate 51 0 := by
  have hlen : s.sent.length = 24 * (s.ledNum + 1) + bitbufferPad := by
    rw [sent, List.length_map, List.length_range, bitbufferLen]
  unfold bitbufferPad at hlen
  refine List.eq_replicate_iff.2 ⟨?_, fun pulse hpulse => ?_⟩
  · rw [List.length_drop, hlen]
    omega
  · obtain ⟨k, hk, rfl⟩ := List.mem_iff_getElem.1 hpulse
    rw [List.length_drop, hlen] at hk
    rw [List.getElem_drop]
    simp only [sent, List.getElem_map, List.getElem_range]
    exact h.pause _ (by omega) (by rw [bitbufferLen, bitbufferPad]; omega)

/-! ## Runs -/

theorem ledNum_step (step : StripStep) : (strip.step s step).1.ledNum = s.ledNum := by
  cases step with
  | setLedColor led color =>
      simp only [strip, ws2811SetLedColor]
      split <;> rfl
  | allOff => rfl
  | setAll color => exact paintFirst_ledNum color s.ledNum

theorem rgbData_step (step : StripStep) {led : Nat} (hled : led < s.ledNum) :
    (strip.step s step).1.rgbData led = (step.color? led).getD (s.rgbData led) := by
  cases step with
  | setLedColor led' color =>
      simp only [strip, ws2811SetLedColor, StripStep.color?]
      by_cases hsame : led' = led
      · subst hsame
        rw [if_pos hled, if_pos rfl]
        exact Function.update_self _ _ _
      · rw [if_neg hsame]
        split
        next => exact Function.update_of_ne (Ne.symm hsame) _ _
        next => rfl
  | allOff => exact if_pos hled
  | setAll color =>
      have hdata := rgbData_paintFirst (s := s) color s.ledNum led
      rw [if_pos hled] at hdata
      exact hdata

theorem ledNum_run (steps : List StripStep) : (strip.run s steps).1.ledNum = s.ledNum :=
  Machine.run_invariant (I := fun t : Strip => t.ledNum = s.ledNum)
    (fun _ step h => (ledNum_step step).trans h) rfl steps

/-- The colours after a run are those that were asked for last. -/
theorem rgbData_run (steps : List StripStep) {led : Nat} (hled : led < s.ledNum) :
    (strip.run s steps).1.rgbData led =
      ((steps.filterMap (StripStep.color? led)).getLast?).getD (s.rgbData led) := by
  induction steps generalizing s with
  | nil => rfl
  | cons step steps ih =>
      have hnum := ledNum_step (s := s) step
      have hrun := ih (s := (strip.step s step).1) (by omega)
      rw [Machine.run_cons]
      refine hrun.trans ?_
      rw [rgbData_step step hled, List.filterMap_cons]
      cases step.color? led with
      | none => rfl
      | some color => rw [List.getLast?_cons]; rfl

end Strip

/-- After any calls, each LED takes from a round of the DMA the colour that was asked for last
and that `ws2811_get_led_color` returns, gamma corrected, and the round ends with a pause. -/
theorem strip_shows (ledNum : Nat) (steps : List StripStep) :
    let s := (strip.run (Strip.zeroed ledNum).ws2811Init steps).1
    (∀ led < ledNum, taken led s.sent = corrected (s.ws2811GetLedColor led) ∧
      s.ws2811GetLedColor led = ((steps.filterMap (StripStep.color? led)).getLast?).getD 0) ∧
      s.sent.drop (24 * ledNum + 23) = List.replicate 51 0 := by
  intro s
  have hshows : s.Shows :=
    Machine.run_invariant (fun _ step h => h.step step) (Strip.shows_init ledNum) steps
  have hinit : (Strip.zeroed ledNum).ws2811Init.ledNum = ledNum := (Strip.encodeFirst_data _).1
  have hnum : s.ledNum = ledNum := (Strip.ledNum_run steps).trans hinit
  refine ⟨fun led hled => ?_, hnum ▸ hshows.sent_pause⟩
  have hget : s.ws2811GetLedColor led = s.rgbData led := if_pos (hnum ▸ hled)
  have htaken := Strip.taken_sent (hnum ▸ hled) (hshows.pulses led (hnum ▸ hled))
    (by rw [Strip.rgbToLocal_toNat hshows.corrects]; exact Strip.corrected_lt _)
  rw [Strip.rgbToLocal_toNat hshows.corrects] at htaken
  rw [hget]
  refine ⟨htaken, (Strip.rgbData_run steps (hinit.symm ▸ hled)).trans ?_⟩
  rw [Strip.rgbData_init]

end Bldc.Led
