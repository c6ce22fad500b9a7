import Bldc.Flash.Memory
import Bldc.Foundation.Loop
import Bldc.Foundation.Table

/-!
# The servo outputs

`servo_thread` sorts the servos by their positions and writes down, for groups of one position,
which pins of which ports are to be cleared and how long to wait before. `servo_irq` runs over
these tables with indices of its own, one group for every interrupt of the timer.
-/

namespace Bldc.App

open Flash Foundation

variable {π : Type}

/-- `SERVO`, with a port of any type. -/
structure Servo (π : Type) where
  pos : Half
  offset : Byte
  gpio : π
  pin : Fin 16
  deriving DecidableEq

/-- The pin that a servo is on. -/
def Servo.pad (servo : Servo π) : π × Fin 16 := (servo.gpio, servo.pin)

/-- `ACTUAL_POS`. -/
def Servo.actualPos (servo : Servo π) : Int :=
  max (min (servo.pos.toInt + servo.offset.toNat) 255) 0

/-- `SERVO_CNT_SPEED`. -/
def servoCntSpeed : Int := 1000000

/-- `S_STARTPULSE`. -/
def sStartpulse : Int := 1000

/-- `S_PULSELEN`. -/
def sPulselen : Int := 2000 - 1000

/-- `S_COOLDOWN`. -/
def sCooldown : Int := 1000000 / 50

/-- `SERVO_START_OFFSET`. -/
def servoStartOffset : Int := servoCntSpeed / (1000000 / sStartpulse)

/-- `SERVO_CPU_FACTOR`. -/
def servoCpuFactor : Int :=
  (servoCntSpeed + 1000000 / sPulselen * 256 - 1) / (1000000 / sPulselen * 256)

/-- `SERVO_COOLDOWN_FACTOR`. -/
def servoCooldownFactor : Int := servoCntSpeed / (1000000 / sCooldown)

/-- `_BV`. -/
def bv (bit : Fin 16) : Word := 1 <<< bit.val

/-- What is written to the pins of a port. -/
inductive PadWrite (π : Type) where
  | setPad (port : π) (pin : Fin 16)
  | clearPort (port : π) (bits : Half)
  deriving DecidableEq

/-- Whether a write ends the pulse on a pin. -/
def PadWrite.Clears (write : PadWrite π) (pad : π × Fin 16) : Prop :=
  match write with
  | .setPad _ _ => False
  | .clearPort port bits => port = pad.1 ∧ bits.getLsbD pad.2 = true

instance [DecidableEq π] (pad : π × Fin 16) (write : PadWrite π) :
    Decidable (write.Clears pad) :=
  match write with
  | .setPad _ _ => inferInstanceAs (Decidable False)
  | .clearPort port bits => inferInstanceAs (Decidable (port = pad.1 ∧ bits.getLsbD pad.2 = true))

/-- The timer values at which a pin is cleared. -/
def clearsOf [DecidableEq π] (log : List (Int × PadWrite π)) (pad : π × Fin 16) : List Int :=
  (log.filter fun entry => entry.2.Clears pad).map Prod.fst

/-- The static variables of `servo.c`, the reload value of the timer, the timer value that has
accumulated since the start of a pulse, and what has been written to the ports since then. -/
structure ServoDriver (π : Type) where
  servos : List (Servo π)
  intIndex : Byte
  servoIntIndex : Byte
  masksPortsIndex : Byte
  delays : List Word
  samePos : List Byte
  sameBits : List Byte
  masks : List Word
  ports : List π
  length : Byte
  cntTop : Word
  elapsed : Int
  log : List (Int × PadWrite π)
  signalled : Bool

/-- The lengths of the tables. -/
structure ServoDriver.Sized (count : Nat) (s : ServoDriver π) : Prop where
  delays : s.delays.length = count + 1
  samePos : s.samePos.length = count + 1
  sameBits : s.sameBits.length = count + 1
  masks : s.masks.length = count
  ports : s.ports.length = count

/-- The driver when the firmware starts, with tables of zeros and null pointers. -/
def ServoDriver.boot (servos : List (Servo π)) (null : π) : ServoDriver π where
  servos := servos
  intIndex := 0
  servoIntIndex := 0
  masksPortsIndex := 0
  delays := List.replicate (servos.length + 1) 0
  samePos := List.replicate (servos.length + 1) 0
  sameBits := List.replicate (servos.length + 1) 0
  masks := List.replicate servos.length 0
  ports := List.replicate servos.length null
  length := 0
  cntTop := 0xFFFF
  elapsed := 0
  log := []
  signalled := false

theorem ServoDriver.boot_sized (servos : List (Servo π)) (null : π) :
    (boot servos null).Sized servos.length where
  delays := List.length_replicate
  samePos := List.length_replicate
  sameBits := List.length_replicate
  masks := List.length_replicate
  ports := List.length_replicate

/-! ## The thread -/

/-- `servo_cmp_by_pos`. -/
def servoCmpByPos (a b : Servo π) : Int :=
  if a.actualPos = b.actualPos then 0 else if a.actualPos < b.actualPos then -1 else 1

/-- What `qsort` does with a comparison. -/
structure Sorts {α : Type} (cmp : α → α → Int) (sort : List α → List α) : Prop where
  perm : ∀ items, (sort items).Perm items
  sorted : ∀ items, (sort items).Pairwise fun a b => cmp a b ≤ 0

/-- The driver and the local variables of `servo_thread`, with a flag for `break`. -/
structure ServoScan (π : Type) extends ServoDriver π where
  i : Nat
  j : Nat
  k : Nat
  running : Bool

/-- `ACTUAL_POS` of a sorted servo. Behind the last of them any value may be read. -/
def actualPosAt (sorted : List (Servo π)) (lookAhead : Int) (j : Nat) : Int :=
  (sorted[j]?.map Servo.actualPos).getD lookAhead

/-- A position as an entry of `delays`. -/
def delayOf (pos : Int) : Word := BitVec.ofInt 32 (pos * servoCpuFactor)

/-- The condition of the inner loop. -/
def SamePos (sorted : List (Servo π)) (lookAhead : Int) (s : ServoScan π) : Prop :=
  actualPosAt sorted lookAhead s.j = actualPosAt sorted lookAhead (s.j - 1) ∧
    s.j < sorted.length

instance (sorted : List (Servo π)) (lookAhead : Int) :
    DecidablePred (SamePos sorted lookAhead) := fun s =>
  inferInstanceAs (Decidable (actualPosAt sorted lookAhead s.j =
    actualPosAt sorted lookAhead (s.j - 1) ∧ s.j < sorted.length))

variable [DecidableEq π]

/-- The body of the inner loop: a servo at the position of the one before. -/
def samePosRound (sorted : List (Servo π)) (s : ServoScan π) : Option (ServoScan π) := do
  let servo ← sorted[s.j]?
  let before ← sorted[s.j - 1]?
  if servo.gpio = before.gpio then do
    let masks ← modifyAt s.masks s.k (· ||| bv servo.pin)
    let sameBits ← modifyAt s.sameBits s.k (· + 1)
    some { s with masks := masks, sameBits := sameBits, j := s.j + 1 }
  else do
    let samePos ← modifyAt s.samePos s.i (· + 1)
    let ports ← writeAt s.ports (s.k + 1) servo.gpio
    let masks ← writeAt s.masks (s.k + 1) (bv servo.pin)
    some { s with samePos := samePos, ports := ports, masks := masks, j := s.j + 1, k := s.k + 1 }

omit [DecidableEq π] in
/-- What follows the inner loop: a servo at another position, or the end. -/
def nextPos (sorted : List (Servo π)) (lookAhead : Int) (s : ServoScan π) :
    Option (ServoScan π) :=
  if s.j < sorted.length then do
    let servo ← sorted[s.j]?
    let delays ← writeAt s.delays (s.i + 1)
      (delayOf (actualPosAt sorted lookAhead s.j - actualPosAt sorted lookAhead (s.j - 1)))
    let ports ← writeAt s.ports (s.k + 1) servo.gpio
    let masks ← writeAt s.masks (s.k + 1) (bv servo.pin)
    some { s with
      delays := delays, ports := ports, masks := masks, i := s.i + 1, j := s.j + 1, k := s.k + 1 }
  else some { s with i := s.i + 1, running := false }

/-- The body of the outer loop. -/
def outerRound (sorted : List (Servo π)) (lookAhead : Int) (fuel : Nat) (s : ServoScan π) :
    Option (ServoScan π) :=
  (whileLoop (SamePos sorted lookAhead) (samePosRound sorted) fuel s).bind
    (nextPos sorted lookAhead)

/-- What `servo_thread` does before its loops. -/
def startScan (sorted : List (Servo π)) (s : ServoDriver π) : Option (ServoScan π) := do
  let first ← sorted[0]?
  let delays ← writeAt s.delays 0 (delayOf first.actualPos)
  let masks ← writeAt s.masks 0 (bv first.pin)
  let ports ← writeAt s.ports 0 first.gpio
  let samePos ← fillTo (sorted.length + 1) 1 s.samePos
  let sameBits ← fillTo (sorted.length + 1) 1 s.sameBits
  some { s with
    servoIntIndex := 0, masksPortsIndex := 0, delays := delays, masks := masks, ports := ports,
    samePos := samePos, sameBits := sameBits, i := 0, j := 1, k := 0, running := true }

/-- What it does behind them: some cycles more for the last interrupt. -/
def finishScan (sorted : List (Servo π)) (s : ServoScan π) : Option (ServoDriver π) := do
  let last ← sorted[sorted.length - 1]?
  let delays ← writeAt s.delays s.i (BitVec.ofInt 32 (last.actualPos * servoCpuFactor + 120))
  some { s.toServoDriver with
    delays := delays, length := BitVec.ofNat 8 s.i, intIndex := -1 }

/-- A round of `servo_thread`, with `qsort`. -/
def servoThread (qsort : List (Servo π) → List (Servo π)) (lookAhead : Int) (fuel : Nat)
    (s : ServoDriver π) : Option (ServoDriver π) :=
  let sorted := qsort s.servos
  (startScan sorted s).bind fun s =>
    (whileLoop (fun s => s.running) (outerRound sorted lookAhead fuel) fuel s).bind
      (finishScan sorted)

/-! ## The interrupt -/

omit [DecidableEq π]

/-- A `signed char` as an index of a table. -/
def tableIndex (index : Byte) : Option Nat :=
  if 0 ≤ index.toInt then some index.toInt.toNat else none

/-- A read at a `signed char`. -/
def readAt {α : Type} (table : List α) (index : Byte) : Option α :=
  (tableIndex index).bind fun i => table[i]?

/-- The condition of the loop that ends pulses, without its decrement. -/
def PulsesLeft (s : ServoDriver π) : Prop := readAt s.samePos s.intIndex ≠ some 0

instance : DecidablePred (PulsesLeft (π := π)) := fun s =>
  inferInstanceAs (Decidable (readAt s.samePos s.intIndex ≠ some 0))

/-- The decrement in the condition. -/
def countDown (s : ServoDriver π) : Option (ServoDriver π) := do
  let i ← tableIndex s.intIndex
  let samePos ← modifyAt s.samePos i (· - 1)
  some { s with samePos := samePos }

/-- The body of the loop, behind the decrement. -/
def clearRound (s : ServoDriver π) : Option (ServoDriver π) := do
  let s ← countDown s
  let port ← readAt s.ports s.masksPortsIndex
  let mask ← readAt s.masks s.masksPortsIndex
  let bits ← readAt s.sameBits s.masksPortsIndex
  some { s with
    log := s.log ++ [(s.elapsed, .clearPort port (mask.setWidth 16))]
    servoIntIndex := s.servoIntIndex + bits
    masksPortsIndex := s.masksPortsIndex + 1 }

/-- What follows the loop: the index and the time of the next group. -/
def nextGroup (s : ServoDriver π) : Option (ServoDriver π) := do
  let s ← countDown s
  let delay ← readAt s.delays (s.intIndex + 1)
  some { s with intIndex := s.intIndex + 1, cntTop := delay }

/-- `servo_start_pulse`. -/
def servoStartPulse (s : ServoDriver π) : ServoDriver π :=
  { s with log := s.log ++ s.servos.map fun servo => (s.elapsed, .setPad servo.gpio servo.pin) }

/-- `servo_irq`. -/
def servoIrq (fuel : Nat) (s : ServoDriver π) : Option (ServoDriver π) :=
  if s.intIndex.toInt < 0 then do
    let s := servoStartPulse s
    let delay ← s.delays[0]?
    some { s with cntTop := BitVec.ofInt 32 servoStartOffset + delay, intIndex := 0 }
  else if s.intIndex.toInt = s.length.toNat then
    some { s with cntTop := BitVec.ofInt 32 servoCooldownFactor, signalled := true }
  else (whileLoop PulsesLeft clearRound fuel s).bind nextGroup

/-- The timer runs to its reload value, and the interrupt follows. -/
def timerIrq (fuel : Nat) (s : ServoDriver π) : Option (ServoDriver π) :=
  servoIrq fuel { s with elapsed := s.elapsed + s.cntTop.toNat }

/-- The interrupts of one pulse, until the index has reached the length of the tables. -/
def servoPulse (fuel : Nat) (s : ServoDriver π) : Option (ServoDriver π) :=
  (servoIrq fuel { s with elapsed := 0, log := [] }).bind
    (whileLoop (fun s => s.intIndex.toInt ≠ s.length.toNat) (timerIrq fuel) fuel)

end Bldc.App
