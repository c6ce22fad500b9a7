import Mathlib.Tactic.Common

/-!
# Words over serial lines

A master and a device shift their words against each other, one bit in each period of the
clock, the highest one first. A device takes its bits in at one edge of the clock and puts them
out at the other. After as many periods as a word has bits the two have exchanged their words.
-/

namespace Bldc.Foundation

variable {w : Nat} {τ : Type}

/-- A register takes in a bit at its low end. -/
def shiftIn (x : BitVec w) (bit : Bool) : BitVec w := x <<< 1 ||| (BitVec.ofBool bit).setWidth w

/-- What a device does at its select line and at the edges of the clock, with the level of its
input, and the level of its output. -/
structure ShiftDevice (σ : Type) where
  select : σ → σ
  deselect : σ → σ
  raise : σ → Bool → σ
  lower : σ → Bool → σ
  output : σ → Bool

/-- A device that exchanges words: the one that it has to send, and what becomes of it with the
one that it has got. -/
structure WordDevice (w : Nat) (τ : Type) where
  select : τ → τ
  deselect : τ → τ
  reply : τ → BitVec w
  next : τ → BitVec w → τ

/-- A device within a word, with the bits that it has taken in. -/
structure InWord (w : Nat) (τ : Type) where
  state : τ
  count : Nat
  taken : BitVec w

/-- The device after this many bits of a word. -/
def InWord.after (state : τ) (word : BitVec w) (count : Nat) : InWord w τ :=
  ⟨state, count, word >>> (w - count)⟩

/-- The device between two words. -/
def InWord.between (w : Nat) (state : τ) : InWord w τ := ⟨state, 0, 0⟩

namespace WordDevice

variable (d : WordDevice w τ)

/-- The next word, if this one is complete. -/
def turn (s : InWord w τ) : InWord w τ :=
  if s.count = w then .between w (d.next s.state s.taken) else s

/-- Bits are taken in at the rising edge and put out at the falling one. -/
def leading : ShiftDevice (InWord w τ) where
  select s := .between w (d.select s.state)
  deselect s := .between w (d.deselect s.state)
  raise s bit := { s with taken := shiftIn s.taken bit }
  lower s _ := d.turn { s with count := s.count + 1 }
  output s := (d.reply s.state).getLsbD (w - 1 - s.count)

/-- Bits are put out at the rising edge and taken in at the falling one. -/
def trailing : ShiftDevice (InWord w τ) where
  select s := .between w (d.select s.state)
  deselect s := .between w (d.deselect s.state)
  raise s _ := { s with count := s.count + 1 }
  lower s bit := d.turn { s with taken := shiftIn s.taken bit }
  output s := (d.reply s.state).getLsbD (w - s.count)

/-- The words that the device answers these words with. -/
def exchange (state : τ) : List (BitVec w) → τ × List (BitVec w)
  | [] => (state, [])
  | word :: words =>
      let rest := exchange (d.next state word) words
      (rest.1, d.reply state :: rest.2)

variable {d}

@[simp] theorem exchange_nil (state : τ) : d.exchange state [] = (state, []) := rfl

@[simp] theorem exchange_cons (state : τ) (word : BitVec w) (words : List (BitVec w)) :
    d.exchange state (word :: words) =
      ((d.exchange (d.next state word) words).1,
        d.reply state :: (d.exchange (d.next state word) words).2) := rfl

theorem exchange_append (state : τ) (words more : List (BitVec w)) :
    d.exchange state (words ++ more) =
      ((d.exchange (d.exchange state words).1 more).1,
        (d.exchange state words).2 ++ (d.exchange (d.exchange state words).1 more).2) := by
  induction words generalizing state with
  | nil => simp
  | cons word words ih => simp [ih]

theorem exchange_length (state : τ) (words : List (BitVec w)) :
    (d.exchange state words).2.length = words.length := by
  induction words generalizing state with
  | nil => simp
  | cons word words ih => simp [ih]

end WordDevice

/-! ## Registers -/

theorem getLsbD_shiftIn (x : BitVec w) (bit : Bool) {i : Nat} (hi : i < w) :
    (shiftIn x bit).getLsbD i = if i = 0 then bit else x.getLsbD (i - 1) := by
  unfold shiftIn
  rcases i with _ | i
  · simp [hi]
  · simp [hi, BitVec.getLsbD_eq_getElem (show i < w by omega)]

/-- The next bit of a word that is shifted in. -/
theorem shiftIn_ushiftRight (x : BitVec w) {count : Nat} (h : count < w) :
    shiftIn (x >>> (w - count)) (x.getLsbD (w - 1 - count)) = x >>> (w - (count + 1)) := by
  apply BitVec.eq_of_getLsbD_eq
  intro i hi
  rw [getLsbD_shiftIn _ _ hi, BitVec.getLsbD_ushiftRight, BitVec.getLsbD_ushiftRight]
  rcases i with _ | i
  · rw [if_pos rfl]
    congr 1
    omega
  · rw [if_neg (Nat.succ_ne_zero i)]
    congr 1
    omega

/-- The next bit of a word that is shifted out. -/
theorem msb_shiftLeft (x : BitVec w) {count : Nat} (h : count < w) :
    (x <<< count).getLsbD (w - 1) = x.getLsbD (w - 1 - count) := by
  rw [BitVec.getLsbD_shiftLeft]
  simp [show w - 1 < w by omega, show ¬w - 1 < count by omega]

@[simp] theorem ushiftRight_width (x : BitVec w) : x >>> w = 0 := by
  apply BitVec.eq_of_getLsbD_eq
  intro i hi
  simp

/-! ## The periods of the clock -/

namespace WordDevice

variable {d : WordDevice w τ}

theorem after_zero (state : τ) (word : BitVec w) : .after state word 0 = InWord.between w state := by
  simp [InWord.after, InWord.between]

theorem turn_after (state : τ) (word : BitVec w) (count : Nat) :
    d.turn (.after state word (count + 1)) =
      if count + 1 = w then .between w (d.next state word) else .after state word (count + 1) := by
  unfold turn InWord.after
  by_cases hlast : count + 1 = w <;> simp [hlast]

/-- One period of the clock, at a device that takes in at the rising edge. -/
theorem leading_period (state : τ) (word : BitVec w) {count : Nat} (h : count < w) {bit : Bool}
    (hbit : bit = word.getLsbD (w - 1 - count)) :
    d.leading.lower (d.leading.raise (.after state word count) bit) bit =
      d.turn (.after state word (count + 1)) := by
  rw [hbit]
  simp [leading, InWord.after, shiftIn_ushiftRight word h]

theorem leading_output (state : τ) (word : BitVec w) (count : Nat) :
    d.leading.output (.after state word count) = (d.reply state).getLsbD (w - 1 - count) := rfl

/-- The same at a device that takes in at the falling edge. -/
theorem trailing_period (state : τ) (word : BitVec w) {count : Nat} (h : count < w) {bit : Bool}
    (hbit : bit = word.getLsbD (w - 1 - count)) :
    d.trailing.lower (d.trailing.raise (.after state word count) bit) bit =
      d.turn (.after state word (count + 1)) := by
  rw [hbit]
  simp [trailing, InWord.after, shiftIn_ushiftRight word h]

theorem trailing_output (state : τ) (word : BitVec w) (count : Nat) (bit : Bool) :
    d.trailing.output (d.trailing.raise (.after state word count) bit) =
      (d.reply state).getLsbD (w - 1 - count) := by
  simp only [trailing, InWord.after]
  congr 1
  omega

end WordDevice

end Bldc.Foundation
