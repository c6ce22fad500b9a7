import Bldc.App.Ppm
import Bldc.App.ServoDec
import Mathlib.Algebra.Group.Nat.Defs

/-!
# The PPM app and its timeout

An iteration of `ppm_thread` is discarded when the last accepted pulse is longer ago than the
timeout. The decoder keeps the time of that pulse in ticks of 32 bits and gives its age in
whole milliseconds; that a timeout of zero stands for none, as it does in `timeout_thread`,
is not looked at.
-/

namespace Bldc.App

open Flash Conf Drive Foundation

/-- What an iteration reads beside the servo and the timeouts. -/
structure PpmSurrounding where
  mcconf : McConfiguration
  brakeCurrent : Rat
  bus : Bus

/-- The app and its decoder, at a time that is counted without end. `updated` is the time of
the last accepted pulse, of which the code keeps 32 bits. -/
structure PpmClock where
  servo : ServoDec
  ppm : Ppm
  now : Nat
  updated : Nat

inductive PpmEvent where
  | wait (ticks : Nat)
  | pulse (width : Nat)
  | iterate (around : PpmSurrounding)
  | configure (conf : PpmConfig)

def PpmEvent.isIteration : PpmEvent → Bool
  | iterate _ => true
  | _ => false

namespace PpmClock

variable (s : PpmClock)

/-- `chVTGetSystemTime`. -/
def chVTGetSystemTime : Word := BitVec.ofNat 32 s.now

/-- What an iteration reads with no fault, and with no timeout seen by `timeout_thread`. -/
def reading (timeoutMsec : Word) (around : PpmSurrounding) : PpmReading where
  hasTimeout := false
  timeSinceUpdate := s.servo.servodecGetTimeSinceUpdate s.chVTGetSystemTime
  timeoutMsec := timeoutMsec
  fault := .none
  servo := s.servo.servoPos
  mcconf := around.mcconf
  brakeCurrent := around.brakeCurrent
  bus := around.bus

/-- A captured pulse. -/
def pulse (width : Nat) : PpmClock :=
  { s with
    servo := (s.servo.icuwidthcb width s.chVTGetSystemTime).1
    updated := if s.servo.len width ≥ 0 then s.now else s.updated }

/-- `app_ppm_configure` of a running thread. -/
def configure (conf : PpmConfig) : PpmClock :=
  { s with
    servo := s.servo.servodecSetPulseOptions conf.pulseStart conf.pulseEnd conf.medianFilter
    ppm := s.ppm.appPpmConfigure conf }

/-- The thread starts, some time after the last accepted pulse or the start of the clock. -/
def start (conf : PpmConfig) (servo : ServoDec) (updated elapsed : Nat) : PpmClock where
  servo := { servo with lastUpdateTime := BitVec.ofNat 32 updated }
  ppm := .start conf
  now := updated + elapsed
  updated := updated

end PpmClock

/-- The app with its pulses, under one timeout and without faults. -/
def ppmClock (timeoutMsec : Word) : Machine PpmClock PpmEvent Happening where
  step s
    | .wait ticks => ({ s with now := s.now + ticks }, [])
    | .pulse width => (s.pulse width, [])
    | .iterate around =>
        ({ s with ppm := (s.ppm.next (s.reading timeoutMsec around)).1 },
          [s.ppm.record (s.reading timeoutMsec around)])
    | .configure conf => (s.configure conf, [.configured])

namespace PpmClock

variable (timeoutMsec : Word)

/-- Accepted pulses arrive with gaps of at most the timeout, if there is one: so long ago is
the last one when an iteration runs. -/
def Steady (s : PpmClock) : PpmEvent → Prop
  | .iterate _ => timeoutMsec ≠ 0 → s.now - s.updated ≤ 10 * timeoutMsec.toNat
  | _ => True

/-- The iteration is discarded as timed out, and the count cleared. -/
def Discards (s : PpmClock) : PpmEvent → Prop
  | .iterate around => Ppm.stops (s.reading timeoutMsec around) = true
  | _ => False

/-- There is a timeout, or the iteration comes less than a millisecond after the pulse. -/
def Prompt (s : PpmClock) : PpmEvent → Prop
  | .iterate _ => timeoutMsec ≠ 0 ∨ (s.now - s.updated) % 2 ^ 32 < 10
  | _ => True

/-- The test before `pulses_without_power++`. -/
def Idles (s : PpmClock) (around : PpmSurrounding) : Prop :=
  s.ppm.ctrlType.idle (s.ppm.servoVal (s.reading timeoutMsec around)) = true

/-- The count does not overflow. -/
def Counts (s : PpmClock) : PpmEvent → Prop
  | .iterate around => s.Idles timeoutMsec around → s.ppm.pulsesWithoutPower ≠ 2147483647
  | _ => True

/-- Nothing happens but pulses and idle iterations. -/
def StaysIdle (s : PpmClock) : PpmEvent → Prop
  | .iterate around => s.Idles timeoutMsec around
  | .configure _ => False
  | _ => True

/-- The demand of the iteration is passed on. -/
def PassesOn (s : PpmClock) (around : PpmSurrounding) : Prop :=
  let r := s.reading timeoutMsec around
  ∃ demand, s.ppm.ctrlType.demand s.ppm.config r.mcconf (s.ppm.servoVal r) = some demand ∧
    (s.ppm.next r).2 = demand.commands (s.ppm.limits r) r.bus

/-- After enough idle iterations in a row the next one is passed on. -/
def PassesOnAfterRow (s : PpmClock) (events : List PpmEvent) : Prop :=
  ∀ before row around after, events = before ++ row ++ .iterate around :: after →
    (ppmClock timeoutMsec).Always (StaysIdle timeoutMsec)
        ((ppmClock timeoutMsec).run s before).1 row →
      minPulsesWithoutPower + 1 ≤ row.countP PpmEvent.isIteration →
        PassesOn timeoutMsec ((ppmClock timeoutMsec).run s (before ++ row)).1 around

/-- The decoder has the low bits of the time of the last accepted pulse. -/
structure Dated (s : PpmClock) : Prop where
  time : s.servo.lastUpdateTime = BitVec.ofNat 32 s.updated
  le_now : s.updated ≤ s.now

variable {timeoutMsec} {s : PpmClock}

theorem dated_start (conf : PpmConfig) (servo : ServoDec) (updated elapsed : Nat) :
    (start conf servo updated elapsed).Dated := ⟨rfl, Nat.le_add_right _ _⟩

theorem Dated.pulse (h : s.Dated) (width : Nat) : (s.pulse width).Dated := by
  by_cases haccepts : s.servo.len width ≥ 0
  · refine ⟨?_, ?_⟩
    · rw [PpmClock.pulse, if_pos haccepts, ServoDec.icuwidthcb]
      dsimp only
      rw [if_pos haccepts]
      rfl
    · rw [PpmClock.pulse, if_pos haccepts]
  · rw [PpmClock.pulse, if_neg haccepts, ServoDec.icuwidthcb_rejected haccepts]
    exact ⟨h.time, h.le_now⟩

theorem Dated.step (h : s.Dated) (event : PpmEvent) :
    ((ppmClock timeoutMsec).step s event).1.Dated := by
  cases event with
  | wait ticks => exact ⟨h.time, h.le_now.trans (Nat.le_add_right _ _)⟩
  | pulse width => exact h.pulse width
  | iterate around => exact ⟨h.time, h.le_now⟩
  | configure conf => exact ⟨h.time, h.le_now⟩

/-- Of the age of the last accepted pulse the thread sees the milliseconds modulo the clock. -/
theorem Dated.timeSinceUpdate (h : s.Dated) :
    (s.servo.servodecGetTimeSinceUpdate s.chVTGetSystemTime).toNat =
      (s.now - s.updated) % 2 ^ 32 / 10 := by
  have hle := h.le_now
  rw [ServoDec.servodecGetTimeSinceUpdate, chVTGetSystemTime, h.time, BitVec.toNat_udiv,
    BitVec.toNat_sub, BitVec.toNat_ofNat, BitVec.toNat_ofNat]
  change _ / 10 = _
  omega

theorem Dated.stops_iff (h : s.Dated) (around : PpmSurrounding) :
    Ppm.stops (s.reading timeoutMsec around) = true ↔
      timeoutMsec.toNat < (s.now - s.updated) % 2 ^ 32 / 10 := by
  rw [← h.timeSinceUpdate]
  simp [Ppm.stops, reading, BitVec.lt_def]

/-- Under steady pulses only a timeout of zero discards. -/
theorem Dated.not_discards_iff (h : s.Dated) {event : PpmEvent}
    (hsteady : s.Steady timeoutMsec event) :
    ¬s.Discards timeoutMsec event ↔ s.Prompt timeoutMsec event := by
  cases event with
  | iterate around =>
      unfold Discards Prompt
      dsimp only
      rw [h.stops_iff]
      by_cases hzero : timeoutMsec = 0
      · subst hzero
        simp only [ne_eq, not_true_eq_false, false_or]
        change ¬0 < _ ↔ _
        omega
      · have hgap := hsteady hzero
        simp only [ne_eq, hzero, not_false_eq_true, true_or, iff_true]
        omega
  | _ => exact iff_of_true not_false trivial

/-! ## The row of idle iterations -/

/-- The count does not overflow and is not negative, and what the switch makes of the servo
value is known, after a row of so many idle iterations. -/
structure Progress (ppm : Ppm) (row : Nat) : Prop where
  nonneg : 0 ≤ ppm.pulsesWithoutPower
  isUsed : 0 < row → ppm.ctrlType.IsUsed
  /-- The first iteration of a row may begin the count anew. -/
  count : ppm.config.safeStart → minPulsesWithoutPower ≤ ppm.pulsesWithoutPower ∨
    row ≤ ppm.pulsesWithoutPower + 1 ∧
      (0 < row → ppm.pulsesWithoutPowerBefore = ppm.pulsesWithoutPower)

theorem progress_zero {ppm : Ppm} (hnonneg : 0 ≤ ppm.pulsesWithoutPower) : Progress ppm 0 where
  nonneg := hnonneg
  isUsed hpos := absurd hpos (Nat.lt_irrefl 0)
  count _ := .inr ⟨by omega, fun hpos => absurd hpos (Nat.lt_irrefl 0)⟩

theorem isUsed_of_idle {type : PpmCtrlType} {servoVal : Rat} (h : type.idle servoVal = true) :
    type.IsUsed := by
  cases type <;> simp_all [PpmCtrlType.idle, PpmCtrlType.IsUsed]

theorem increment_of_ne {n : Int} (h : n ≠ 2147483647) : increment n = n + 1 := if_neg h

variable {ppm : Ppm} {r : PpmReading} {row : Nat}

/-- An idle iteration that the safe start holds back. -/
theorem Progress.wait (h : Progress ppm row) (hused : ppm.ctrlType.IsUsed)
    (hholds : Ppm.holds { ppm with pulsesWithoutPower := ppm.pulsesWithoutPower + 1 }) :
    Progress (Ppm.wait { ppm with pulsesWithoutPower := ppm.pulsesWithoutPower + 1 })
      (row + 1) := by
  have hlow : ppm.pulsesWithoutPower + 1 < minPulsesWithoutPower := hholds.1
  have hrow := (h.count hholds.2).resolve_left (by omega)
  unfold Ppm.wait
  dsimp only
  split
  next heq =>
    have hzero : row = 0 := by
      by_contra hne
      have hbefore := hrow.2 (Nat.pos_of_ne_zero hne)
      omega
    refine ⟨le_rfl, fun _ => hused, fun _ => .inr ⟨?_, fun _ => rfl⟩⟩
    rw [hzero]
    exact le_rfl
  next =>
    refine ⟨Int.add_nonneg h.nonneg Int.one_nonneg, fun _ => hused,
      fun _ => .inr ⟨?_, fun _ => rfl⟩⟩
    rw [Nat.cast_succ]
    exact Int.add_le_add_right hrow.1 1

theorem Progress.next (h : Progress ppm row) (hstops : ¬Ppm.stops r = true)
    (hidle : ppm.ctrlType.idle (ppm.servoVal r) = true)
    (hcounts : ppm.pulsesWithoutPower ≠ 2147483647) : Progress (ppm.next r).1 (row + 1) := by
  have hused := isUsed_of_idle hidle
  obtain ⟨demand, hdemand⟩ :=
    PpmCtrlType.demand_isSome hused ppm.config r.mcconf (ppm.servoVal r)
  unfold Ppm.next
  rw [if_neg hstops, hdemand, Ppm.countPulse, if_pos hidle, increment_of_ne hcounts]
  dsimp only
  split
  next hholds => exact h.wait hused hholds
  next hholds =>
    refine ⟨Int.add_nonneg h.nonneg Int.one_nonneg, fun _ => hused, fun hsafe => .inl ?_⟩
    rw [Ppm.holds, not_and_or, not_lt] at hholds
    exact hholds.resolve_right (not_not.2 hsafe)

/-- Counting does not go down, as long as it does not overflow. -/
theorem le_countPulse (hcounts : ppm.ctrlType.idle (ppm.servoVal r) = true →
    ppm.pulsesWithoutPower ≠ 2147483647) :
    ppm.pulsesWithoutPower ≤ (ppm.countPulse r).pulsesWithoutPower := by
  unfold Ppm.countPulse
  split
  next hidle =>
    change _ ≤ increment _
    rw [increment_of_ne (hcounts hidle)]
    omega
  next => exact le_rfl

theorem nonneg_wait (hnonneg : 0 ≤ ppm.pulsesWithoutPower) : 0 ≤ ppm.wait.pulsesWithoutPower := by
  unfold Ppm.wait
  dsimp only
  split
  next => exact le_rfl
  next => exact hnonneg

/-- The count does not become negative. -/
theorem nonneg_next (hnonneg : 0 ≤ ppm.pulsesWithoutPower)
    (hcounts : ppm.ctrlType.idle (ppm.servoVal r) = true → ppm.pulsesWithoutPower ≠ 2147483647) :
    0 ≤ (ppm.next r).1.pulsesWithoutPower := by
  have hcount := hnonneg.trans (le_countPulse hcounts)
  unfold Ppm.next
  dsimp only
  split
  next => exact le_rfl
  next =>
    split
    next => exact hcount
    next =>
      split
      next => exact nonneg_wait hcount
      next => exact hcount

/-- After the row the safe start no longer holds back. -/
theorem Progress.passesOn {around : PpmSurrounding} (h : Progress s.ppm row)
    (hrow : minPulsesWithoutPower + 1 ≤ row)
    (hdiscards : ¬s.Discards timeoutMsec (.iterate around))
    (hcounts : s.Counts timeoutMsec (.iterate around)) : s.PassesOn timeoutMsec around := by
  obtain ⟨demand, hdemand⟩ := PpmCtrlType.demand_isSome
    (h.isUsed (by rw [minPulsesWithoutPower] at hrow; omega)) s.ppm.config
    (s.reading timeoutMsec around).mcconf (s.ppm.servoVal (s.reading timeoutMsec around))
  refine ⟨demand, hdemand, ?_⟩
  have hcount : s.ppm.config.safeStart → minPulsesWithoutPower ≤
      (s.ppm.countPulse (s.reading timeoutMsec around)).pulsesWithoutPower := by
    intro hsafe
    have hlong : minPulsesWithoutPower ≤ s.ppm.pulsesWithoutPower :=
      (h.count hsafe).elim id fun hcount => by omega
    exact hlong.trans (le_countPulse hcounts)
  have hholds : ¬(s.ppm.countPulse (s.reading timeoutMsec around)).holds := by
    rw [Ppm.holds, (s.ppm.countPulse_settings _).1]
    exact fun hholds => absurd hholds.1 (not_lt.2 (hcount hholds.2))
  have hstops : ¬Ppm.stops (s.reading timeoutMsec around) = true := hdiscards
  unfold Ppm.next
  rw [if_neg hstops, hdemand]
  dsimp only
  rw [if_neg hholds]

/-- The iteration is not discarded, and the count does not overflow. -/
def Goes (timeoutMsec : Word) (s : PpmClock) (event : PpmEvent) : Prop :=
  ¬s.Discards timeoutMsec event ∧ s.Counts timeoutMsec event

theorem nonneg_run {events : List PpmEvent} (hnonneg : 0 ≤ s.ppm.pulsesWithoutPower)
    (hgoes : (ppmClock timeoutMsec).Always (Goes timeoutMsec) s events) :
    0 ≤ ((ppmClock timeoutMsec).run s events).1.ppm.pulsesWithoutPower := by
  refine Machine.run_invariant_of_always (I := fun s => 0 ≤ s.ppm.pulsesWithoutPower)
    (fun s event hs hgo => ?_) hnonneg hgoes
  cases event with
  | iterate around => exact nonneg_next hs hgo.2
  | configure conf => exact le_rfl
  | _ => exact hs

theorem Progress.run {events : List PpmEvent} (h : Progress s.ppm row)
    (hidle : (ppmClock timeoutMsec).Always (StaysIdle timeoutMsec) s events)
    (hgoes : (ppmClock timeoutMsec).Always (Goes timeoutMsec) s events) :
    Progress ((ppmClock timeoutMsec).run s events).1.ppm
      (row + events.countP PpmEvent.isIteration) := by
  induction events generalizing s row with
  | nil => exact h
  | cons event events ih =>
      cases event with
      | iterate around =>
          have hstep := h.next hgoes.1.1 hidle.1 (hgoes.1.2 hidle.1)
          have hrest := ih (s := ((ppmClock timeoutMsec).step s (.iterate around)).1) hstep
            hidle.2 hgoes.2
          rw [List.countP_cons_of_pos rfl, Nat.add_comm _ 1, ← Nat.add_assoc]
          exact hrest
      | configure conf => exact hidle.1.elim
      | wait ticks =>
          rw [List.countP_cons_of_neg Bool.false_ne_true]
          exact ih (s := ((ppmClock timeoutMsec).step s (.wait ticks)).1) h hidle.2 hgoes.2
      | pulse width =>
          rw [List.countP_cons_of_neg Bool.false_ne_true]
          exact ih (s := ((ppmClock timeoutMsec).step s (.pulse width)).1) h hidle.2 hgoes.2

theorem passesOnAfterRow_of_goes {events : List PpmEvent} (hnonneg : 0 ≤ s.ppm.pulsesWithoutPower)
    (hgoes : (ppmClock timeoutMsec).Always (Goes timeoutMsec) s events) :
    s.PassesOnAfterRow timeoutMsec events := by
  rintro before row around after rfl hidle hrow
  rw [Machine.always_append] at hgoes
  obtain ⟨hgoes, hnext, -⟩ := hgoes
  have hbefore := (Machine.always_append _ _ _ _ _).1 hgoes
  have hprogress := (progress_zero (nonneg_run hnonneg hbefore.1)).run hidle hbefore.2
  rw [Machine.run_append] at hnext ⊢
  rw [Nat.zero_add] at hprogress
  exact hprogress.passesOn (by exact_mod_cast hrow) hnext.1 hnext.2

end PpmClock

open PpmClock

/-- Under steady pulses no iteration is discarded exactly if there is a timeout or the
iterations come within a millisecond of a pulse. Then a row of idle iterations starts the
motor. -/
theorem ppm_undiscarded_iff (timeoutMsec : Word) (conf : PpmConfig) (servo : ServoDec)
    (updated elapsed : Nat) (events : List PpmEvent)
    (hsteady : (ppmClock timeoutMsec).Always (Steady timeoutMsec)
      (start conf servo updated elapsed) events) :
    ((ppmClock timeoutMsec).Always (fun s event => ¬s.Discards timeoutMsec event)
          (start conf servo updated elapsed) events ↔
        (ppmClock timeoutMsec).Always (Prompt timeoutMsec)
          (start conf servo updated elapsed) events) ∧
      ((ppmClock timeoutMsec).Always
          (fun s event => s.Prompt timeoutMsec event ∧ s.Counts timeoutMsec event)
          (start conf servo updated elapsed) events →
        (start conf servo updated elapsed).PassesOnAfterRow timeoutMsec events) := by
  have hundiscarded := Machine.Always.imp_of_invariant (I := Dated)
    (Q := fun s event => ¬s.Discards timeoutMsec event ↔ s.Prompt timeoutMsec event)
    (fun s event h _ => h.step event) (fun s event h hsteady => h.not_discards_iff hsteady)
    (dated_start conf servo updated elapsed) hsteady
  constructor
  · constructor
    · intro hall
      exact (hundiscarded.and hall).imp fun _ _ hevent => hevent.1.1 hevent.2
    · intro hall
      exact (hundiscarded.and hall).imp fun _ _ hevent => hevent.1.2 hevent.2
  · intro hall
    refine passesOnAfterRow_of_goes le_rfl ?_
    exact (hundiscarded.and hall).imp fun _ _ hevent => ⟨hevent.1.2 hevent.2.1, hevent.2.2⟩

/-- The current control, with a safe start. -/
def safePpmConf : PpmConfig :=
  { (default : PpmConfig) with ctrlType := 1, safeStart := true }

/-- A motor at rest, alone on the bus. -/
def restSurrounding : PpmSurrounding := ⟨default, 0, ⟨0, 0, 0, []⟩⟩

/-- A pulse in the middle, and two milliseconds later the timer of the thread. -/
def pulseAndTimer : List PpmEvent := [.pulse 1500, .wait 20, .iterate restSurrounding]

theorem ppm_undiscarded_iff_pulseAndTimer :
    (ppmClock 1000).Always (fun s event => ¬s.Discards 1000 event)
      (start safePpmConf .boot 0 0) pulseAndTimer := by
  have hsteady : (ppmClock 1000).Always (Steady 1000) (start safePpmConf .boot 0 0)
      pulseAndTimer := ⟨trivial, trivial, fun _ => by decide +kernel, trivial⟩
  exact (ppm_undiscarded_iff 1000 safePpmConf .boot 0 0 pulseAndTimer hsteady).1.2
    ⟨trivial, trivial, .inl (by decide), trivial⟩

/-- Without a timeout the iteration that the timer starts is discarded. -/
theorem not_undiscarded_noTimeout :
    (ppmClock 0).Always (Steady 0) (start safePpmConf .boot 0 0) pulseAndTimer ∧
      ¬(ppmClock 0).Always (fun s event => ¬s.Discards 0 event)
        (start safePpmConf .boot 0 0) pulseAndTimer := by
  refine ⟨⟨trivial, trivial, fun hne => absurd rfl hne, trivial⟩, ?_⟩
  rintro ⟨-, -, hundiscarded, -⟩
  refine hundiscarded ?_
  change Ppm.stops _ = true
  decide +kernel

end Bldc.App
