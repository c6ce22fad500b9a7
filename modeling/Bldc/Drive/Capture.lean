import Bldc.Foundation.Machine
import Mathlib.Tactic.Linarith

/-!
# The capture of samples

A request sets the length and the decimation of a capture, and starts it or has it started
with the motor. The timer interrupt stores the samples and stops when the position equals
the length. It can come between any two assignments of a request.
-/

namespace Bldc.Drive

open Foundation

/-- `ADC_SAMPLE_MAX_LEN`. -/
def adcSampleMaxLen : Nat := 2000

/-- `m_sample_len` and the variables next to it, with the static `a` of the interrupt. -/
structure Capture where
  sampleLen : Nat
  sampleInt : Nat
  sampleReady : Bool
  sampleNow : Nat
  sampleAtStart : Bool
  startComm : Int
  a : Nat
  deriving DecidableEq

/-- The assignments of `mc_interface_sample_print_data`. -/
inductive Assignment where
  | sampleLen (len : Nat)
  | sampleInt (decimation : Nat)
  | sampleAtStart
  | startComm
  | sampleNow
  | sampleReady
  deriving DecidableEq

/-- `mc_interface_sample_print_data`. -/
def mcInterfaceSamplePrintData (atStart : Bool) (len : BitVec 16) (decimation : BitVec 8) :
    List Assignment :=
  [.sampleLen (if len.toNat > adcSampleMaxLen then adcSampleMaxLen else len.toNat),
    .sampleInt decimation.toNat] ++
  if atStart then [.sampleAtStart, .startComm] else [.sampleNow, .sampleReady]

namespace Capture

/-- After `mc_interface_init`. -/
def init : Capture := ⟨1000, 1, true, 0, false, 0, 0⟩

/-- One assignment, with `mcpwm_get_comm_step`. -/
def assign (s : Capture) (commStep : Int) : Assignment → Capture
  | .sampleLen len => { s with sampleLen := len }
  | .sampleInt decimation => { s with sampleInt := decimation }
  | .sampleAtStart => { s with sampleAtStart := true }
  | .startComm => { s with startComm := commStep }
  | .sampleNow => { s with sampleNow := 0 }
  | .sampleReady => { s with sampleReady := false }

/-- A pass starts the capture with the motor. -/
def Triggers (s : Capture) (running : Bool) (commStep : Int) : Prop :=
  s.sampleAtStart = true ∧ (running = true ∨ s.startComm ≠ commStep)

instance (s : Capture) (running : Bool) (commStep : Int) :
    Decidable (s.Triggers running commStep) :=
  inferInstanceAs (Decidable (_ ∧ _))

def trigger (s : Capture) (running : Bool) (commStep : Int) : Capture :=
  if s.Triggers running commStep then
    { s with sampleNow := 0, sampleReady := false, sampleAtStart := false }
  else s

/-- A sample is due. -/
def Stores (s : Capture) : Prop := s.sampleReady = false ∧ s.a + 1 ≥ s.sampleInt

instance (s : Capture) : Decidable s.Stores := inferInstanceAs (Decidable (_ ∧ _))

/-- The sample collection without the trigger, with the index that is written to. -/
def collect (s : Capture) : Capture × List Nat :=
  if s.sampleReady then (s, [])
  else if s.a + 1 ≥ s.sampleInt then
    (if s.sampleNow + 1 = s.sampleLen then { s with a := 0, sampleReady := true, sampleNow := 0 }
      else { s with a := 0, sampleNow := s.sampleNow + 1 },
      [s.sampleNow])
  else ({ s with a := s.a + 1 }, [])

/-- The sample collection of `mc_interface_mc_timer_isr`. -/
def mcTimerIsr (s : Capture) (running : Bool) (commStep : Int) : Capture × List Nat :=
  (s.trigger running commStep).collect

end Capture

/-- The requests come from one thread, one after the other. -/
inductive CaptureEvent where
  | samplePrintData (atStart : Bool) (len : BitVec 16) (decimation : BitVec 8)
  | assign (commStep : Int)
  | mcTimerIsr (running : Bool) (commStep : Int)

/-- The capture, the assignments that a request still has to make, and the samples that were
stored since the capture was last started. -/
structure Capturing where
  capture : Capture
  pending : List Assignment
  stored : Nat

namespace Capturing

def init : Capturing := ⟨.init, [], 0⟩

def step (s : Capturing) : CaptureEvent → Capturing × List Nat
  | .samplePrintData atStart len decimation =>
      match s.pending with
      | [] => ({ s with pending := mcInterfaceSamplePrintData atStart len decimation }, [])
      | _ :: _ => (s, [])
  | .assign commStep =>
      match s.pending with
      | [] => (s, [])
      | assignment :: rest =>
          (⟨s.capture.assign commStep assignment, rest,
            if assignment = .sampleNow then 0 else s.stored⟩, [])
  | .mcTimerIsr running commStep =>
      let stored := if s.capture.Triggers running commStep then 0 else s.stored
      let (capture, indices) := s.capture.mcTimerIsr running commStep
      (⟨capture, s.pending, if capture.sampleReady then 0 else stored + indices.length⟩, indices)

end Capturing

/-- The capture under requests and the interrupt, with the indices that are written to. -/
def capturing : Machine Capturing CaptureEvent Nat where
  step := Capturing.step

namespace Capturing

/-- The state in which a pass collects. -/
def triggered (s : Capturing) (running : Bool) (commStep : Int) : Capture :=
  s.capture.trigger running commStep

/-- A sample goes into the buffer and is one of those that were asked for. The last of them
ends the capture. -/
def Within (s : Capturing) : CaptureEvent → Prop
  | .mcTimerIsr running commStep =>
      let stored := if s.capture.Triggers running commStep then 0 else s.stored
      (∀ index ∈ (s.capture.mcTimerIsr running commStep).2, index < adcSampleMaxLen ∧
        stored + 1 ≤ s.capture.sampleLen) ∧
      ((s.capture.mcTimerIsr running commStep).2 ≠ [] → stored + 1 = s.capture.sampleLen →
        (s.capture.mcTimerIsr running commStep).1.sampleReady = true)
  | _ => True

/-- Passes alone end the capture, and store what is left of it. -/
def Ends (s : Capturing) : Prop :=
  s.capture.sampleReady = false → s.capture.sampleAtStart = false →
  s.stored < s.capture.sampleLen → ∀ passes : List (Bool × Int),
    (s.capture.sampleLen - s.stored) * max 1 s.capture.sampleInt ≤ passes.length →
    (capturing.run s (passes.map fun pass => .mcTimerIsr pass.1 pass.2)).1.capture.sampleReady =
        true ∧
      (capturing.run s (passes.map fun pass => .mcTimerIsr pass.1 pass.2)).2.length =
        s.capture.sampleLen - s.stored

/-- No sample is stored while a request has left the position where the length is, or beyond. -/
def Admits (s : Capturing) : CaptureEvent → Prop
  | .mcTimerIsr running commStep =>
      (s.triggered running commStep).Stores →
        (s.triggered running commStep).sampleNow < s.capture.sampleLen
  | _ => True

end Capturing

/-! ## One pass -/

namespace Capture

variable {s : Capture}

theorem collect_of_stores (h : s.Stores) :
    s.collect = (if s.sampleNow + 1 = s.sampleLen then
      { s with a := 0, sampleReady := true, sampleNow := 0 }
      else { s with a := 0, sampleNow := s.sampleNow + 1 }, [s.sampleNow]) := by
  unfold collect
  rw [if_neg (by simp [h.1]), if_pos h.2]

/-- A pass that stores nothing at most counts on. -/
theorem collect_of_not_stores (h : ¬ s.Stores) :
    s.collect.2 = [] ∧ ∃ a, s.collect.1 = { s with a := a } := by
  unfold collect
  split
  next => exact ⟨rfl, s.a, rfl⟩
  next hready =>
    rw [if_neg fun hdue => h ⟨by simpa using hready, hdue⟩]
    exact ⟨rfl, s.a + 1, rfl⟩

/-- A capture that stores samples and that nothing starts again. -/
structure Unfinished (s : Capture) : Prop where
  sampleReady : s.sampleReady = false
  sampleAtStart : s.sampleAtStart = false
  sampleNow : s.sampleNow < s.sampleLen

/-- The passes until the capture ends. -/
def passesLeft (s : Capture) : Nat :=
  (s.sampleLen - s.sampleNow) * max 1 s.sampleInt - min s.a (max 1 s.sampleInt - 1)

/-- Another sample takes at least one round of the decimation. -/
theorem Unfinished.sampleInt_le (h : s.Unfinished) :
    max 1 s.sampleInt ≤ (s.sampleLen - s.sampleNow) * max 1 s.sampleInt :=
  Nat.le_mul_of_pos_left _ (Nat.sub_pos_of_lt h.sampleNow)

theorem Unfinished.passesLeft_pos (h : s.Unfinished) : 0 < s.passesLeft := by
  have hround := h.sampleInt_le
  unfold passesLeft
  omega

/-- A pass ends the capture with its last sample, or brings the end closer. -/
theorem Unfinished.collect (h : s.Unfinished) :
    s.collect.1.sampleReady = true ∧ s.collect.1.sampleAtStart = false ∧
        s.collect.2.length = s.sampleLen - s.sampleNow ∨
      s.collect.1.Unfinished ∧ s.collect.1.passesLeft < s.passesLeft ∧
        s.collect.2.length + (s.collect.1.sampleLen - s.collect.1.sampleNow) =
          s.sampleLen - s.sampleNow := by
  have hround := h.sampleInt_le
  obtain ⟨hready, hstart, hnow⟩ := h
  by_cases hstores : s.Stores
  · rw [collect_of_stores hstores]
    by_cases hlast : s.sampleNow + 1 = s.sampleLen
    · rw [if_pos hlast]
      refine .inl ⟨rfl, hstart, ?_⟩
      rw [List.length_singleton]
      omega
    · rw [if_neg hlast]
      have hrest : (s.sampleLen - s.sampleNow) * max 1 s.sampleInt =
          (s.sampleLen - (s.sampleNow + 1)) * max 1 s.sampleInt + max 1 s.sampleInt := by
        rw [← Nat.succ_mul]
        congr 1
        omega
      refine .inr ⟨⟨hready, hstart, ?_⟩, ?_, ?_⟩
      · dsimp only
        omega
      · unfold passesLeft
        dsimp only
        omega
      · rw [List.length_singleton]
        dsimp only
        omega
  · have hwait : s.a + 1 < s.sampleInt := Nat.lt_of_not_le fun hdue => hstores ⟨hready, hdue⟩
    have hcollect : s.collect = ({ s with a := s.a + 1 }, []) := by
      unfold Capture.collect
      rw [if_neg (by simp [hready]), if_neg (Nat.not_le.2 hwait)]
    rw [hcollect]
    refine .inr ⟨⟨hready, hstart, hnow⟩, ?_, Nat.zero_add _⟩
    unfold passesLeft
    dsimp only
    omega

theorem sampleLen_trigger (s : Capture) (running : Bool) (commStep : Int) :
    (s.trigger running commStep).sampleLen = s.sampleLen := by
  unfold trigger
  split <;> rfl

theorem sampleNow_trigger (s : Capture) (running : Bool) (commStep : Int) :
    (s.trigger running commStep).sampleNow =
      if s.Triggers running commStep then 0 else s.sampleNow := by
  unfold trigger
  split <;> rfl

theorem sampleLen_collect (s : Capture) : s.collect.1.sampleLen = s.sampleLen := by
  by_cases h : s.Stores
  · rw [collect_of_stores h]
    dsimp only
    split <;> rfl
  · obtain ⟨-, a, heq⟩ := collect_of_not_stores h
    rw [heq]

end Capture

namespace Capturing

variable {s : Capturing}

/-- The position counts the samples, it is zero between captures, and no length is beyond
the buffers. -/
structure Counted (s : Capturing) : Prop where
  stored : s.stored = s.capture.sampleNow
  idle : s.capture.sampleReady = true → s.capture.sampleNow = 0
  sampleLen : s.capture.sampleLen ≤ adcSampleMaxLen
  pending : ∀ len, .sampleLen len ∈ s.pending → len ≤ adcSampleMaxLen

theorem pending_samplePrintData (atStart : Bool) (len : BitVec 16) (decimation : BitVec 8)
    (n : Nat) (h : .sampleLen n ∈ mcInterfaceSamplePrintData atStart len decimation) :
    n ≤ adcSampleMaxLen := by
  have hn : n = if len.toNat > adcSampleMaxLen then adcSampleMaxLen else len.toNat := by
    cases atStart <;> simpa [mcInterfaceSamplePrintData] using h
  rw [hn]
  split
  next => exact Nat.le_refl _
  next hle => exact Nat.le_of_not_lt hle

theorem counted_assign (h : s.Counted) (commStep : Int) :
    (s.step (.assign commStep)).1.Counted := by
  obtain ⟨capture, pending, stored⟩ := s
  obtain ⟨hstored, hidle, hlen, hpending⟩ := h
  cases pending with
  | nil => exact ⟨hstored, hidle, hlen, hpending⟩
  | cons assignment rest =>
      have hrest : ∀ len, .sampleLen len ∈ rest → len ≤ adcSampleMaxLen :=
        fun len hmem => hpending len (List.mem_cons_of_mem _ hmem)
      cases assignment with
      | sampleLen len => exact ⟨hstored, hidle, hpending len List.mem_cons_self, hrest⟩
      | sampleNow => exact ⟨rfl, fun _ => rfl, hlen, hrest⟩
      | sampleReady =>
          exact ⟨hstored, fun hready => absurd hready Bool.false_ne_true, hlen, hrest⟩
      | sampleInt | sampleAtStart | startComm => exact ⟨hstored, hidle, hlen, hrest⟩

/-- The samples that are stored when a pass collects. -/
theorem Counted.triggered (h : s.Counted) (running : Bool) (commStep : Int) :
    (if s.capture.Triggers running commStep then 0 else s.stored) =
        (s.triggered running commStep).sampleNow ∧
      ((s.triggered running commStep).sampleReady = true →
        (s.triggered running commStep).sampleNow = 0) := by
  unfold Capturing.triggered Capture.trigger
  split
  next => exact ⟨rfl, fun _ => rfl⟩
  next => exact ⟨h.stored, h.idle⟩

theorem counted_mcTimerIsr (h : s.Counted) (running : Bool) (commStep : Int) :
    (s.step (.mcTimerIsr running commStep)).1.Counted := by
  obtain ⟨hstored, hidle⟩ := h.triggered running commStep
  have hlen := Capture.sampleLen_trigger s.capture running commStep
  change (Capturing.mk (s.triggered running commStep).collect.1 s.pending
    (if (s.triggered running commStep).collect.1.sampleReady then 0 else
      (if s.capture.Triggers running commStep then 0 else s.stored) +
        (s.triggered running commStep).collect.2.length)).Counted
  rw [hstored]
  change (s.triggered running commStep).sampleLen = _ at hlen
  generalize s.triggered running commStep = t at hidle hlen
  have hpending := h.pending
  have hmax := hlen.trans_le h.sampleLen
  by_cases hstores : t.Stores
  · rw [Capture.collect_of_stores hstores]
    dsimp only
    split
    next => exact ⟨rfl, fun _ => rfl, hmax, hpending⟩
    next =>
      refine ⟨?_, fun hready => ?_, hmax, hpending⟩
      · simp [hstores.1]
      · exact absurd hready (by simp [hstores.1])
  · obtain ⟨hnone, a, heq⟩ := Capture.collect_of_not_stores hstores
    rw [hnone, heq]
    refine ⟨?_, hidle, hmax, hpending⟩
    dsimp only
    split
    next hready => exact (hidle hready).symm
    next => rfl

theorem counted_step (h : s.Counted) (event : CaptureEvent) : (s.step event).1.Counted := by
  cases event with
  | samplePrintData atStart len decimation =>
      obtain ⟨capture, pending, stored⟩ := s
      cases pending with
      | nil => exact ⟨h.stored, h.idle, h.sampleLen, pending_samplePrintData atStart len decimation⟩
      | cons assignment rest => exact h
  | assign commStep => exact counted_assign h commStep
  | mcTimerIsr running commStep => exact counted_mcTimerIsr h running commStep

theorem within_iff (h : s.Counted) (event : CaptureEvent) : s.Within event ↔ s.Admits event := by
  cases event with
  | samplePrintData atStart len decimation => exact Iff.rfl
  | assign commStep => exact Iff.rfl
  | mcTimerIsr running commStep =>
      have hstored := (h.triggered running commStep).1
      have hlen := Capture.sampleLen_trigger s.capture running commStep
      simp only [Within, Admits, hstored]
      change (s.triggered running commStep).sampleLen = _ at hlen
      change ((∀ index ∈ (s.triggered running commStep).collect.2, _) ∧
        ((s.triggered running commStep).collect.2 ≠ [] → _ →
          (s.triggered running commStep).collect.1.sampleReady = true)) ↔ _
      have hmax := h.sampleLen
      rw [← hlen] at hmax ⊢
      generalize s.triggered running commStep = t at hmax
      by_cases hstores : t.Stores
      · rw [Capture.collect_of_stores hstores]
        constructor
        · exact fun hwithin _ => (hwithin.1 _ List.mem_cons_self).2
        · intro hadmits
          have hlt := hadmits hstores
          refine ⟨fun index hindex => ?_, fun _ heq => ?_⟩
          · rw [List.mem_singleton.1 hindex]
            exact ⟨hlt.trans_le hmax, hlt⟩
          · rw [if_pos heq]
      · obtain ⟨hnone, -⟩ := Capture.collect_of_not_stores hstores
        rw [hnone]
        exact iff_of_true ⟨fun index hindex => absurd hindex List.not_mem_nil,
          fun hne => absurd rfl hne⟩ fun h => absurd h hstores

/-! ## The end of a capture -/

/-- A pass of a capture that nothing starts again. -/
theorem step_mcTimerIsr (hstart : s.capture.sampleAtStart = false) (running : Bool)
    (commStep : Int) :
    (s.step (.mcTimerIsr running commStep)).1.capture = s.capture.collect.1 ∧
      (s.step (.mcTimerIsr running commStep)).2 = s.capture.collect.2 := by
  have htrigger : s.capture.trigger running commStep = s.capture :=
    if_neg fun h => absurd h.1 (by simp [hstart])
  have hisr : s.capture.mcTimerIsr running commStep = s.capture.collect := by
    rw [Capture.mcTimerIsr, htrigger]
  exact ⟨congrArg Prod.fst hisr, congrArg Prod.snd hisr⟩

theorem run_idle (hready : s.capture.sampleReady = true)
    (hstart : s.capture.sampleAtStart = false) (passes : List (Bool × Int)) :
    (capturing.run s (passes.map fun pass => .mcTimerIsr pass.1 pass.2)).1.capture.sampleReady =
        true ∧
      (capturing.run s (passes.map fun pass => .mcTimerIsr pass.1 pass.2)).2 = [] := by
  induction passes generalizing s with
  | nil => exact ⟨hready, rfl⟩
  | cons pass passes ih =>
      obtain ⟨hcapture, hindices⟩ := step_mcTimerIsr hstart pass.1 pass.2
      have hcollect : s.capture.collect = (s.capture, []) := if_pos hready
      rw [hcollect] at hcapture hindices
      rw [List.map_cons, Machine.run_cons]
      obtain ⟨hend, hnone⟩ := ih (s := (capturing.step s (.mcTimerIsr pass.1 pass.2)).1)
        (hcapture ▸ hready) (hcapture ▸ hstart)
      exact ⟨hend, List.append_eq_nil_iff.2 ⟨hindices, hnone⟩⟩

/-- A capture that nothing starts again ends with as many samples as it has left. -/
theorem run_ends (h : s.capture.Unfinished) (passes : List (Bool × Int))
    (hpasses : s.capture.passesLeft ≤ passes.length) :
    (capturing.run s (passes.map fun pass => .mcTimerIsr pass.1 pass.2)).1.capture.sampleReady =
        true ∧
      (capturing.run s (passes.map fun pass => .mcTimerIsr pass.1 pass.2)).2.length =
        s.capture.sampleLen - s.capture.sampleNow := by
  induction passes generalizing s with
  | nil => exact absurd hpasses (Nat.not_le.2 h.passesLeft_pos)
  | cons pass passes ih =>
      obtain ⟨hcapture, hindices⟩ := step_mcTimerIsr h.sampleAtStart pass.1 pass.2
      change (capturing.step s (.mcTimerIsr pass.1 pass.2)).1.capture = _ at hcapture
      change (capturing.step s (.mcTimerIsr pass.1 pass.2)).2 = _ at hindices
      rw [List.map_cons, Machine.run_cons, List.length_append, hindices]
      obtain ⟨hready, hstart, hlength⟩ | ⟨hnext, hcloser, hlength⟩ := h.collect
      · obtain ⟨hend, hnone⟩ := run_idle (s := (capturing.step s (.mcTimerIsr pass.1 pass.2)).1)
          (hcapture ▸ hready) (hcapture ▸ hstart) passes
        refine ⟨hend, ?_⟩
        rw [hnone, hlength]
        exact Nat.add_zero _
      · rw [← hcapture] at hnext hcloser hlength
        rw [List.length_cons] at hpasses
        obtain ⟨hend, hrest⟩ := ih hnext (Nat.le_of_lt_succ (hcloser.trans_le hpasses))
        exact ⟨hend, by rw [hrest, hlength]⟩

theorem ends (h : s.Counted) : s.Ends := by
  intro hready hstart hstored passes hpasses
  rw [h.stored] at hstored hpasses ⊢
  exact run_ends ⟨hready, hstart, hstored⟩ passes ((Nat.sub_le _ _).trans hpasses)

theorem counted_init : init.Counted :=
  ⟨rfl, fun _ => rfl, by decide, fun _ hmem => absurd hmem List.not_mem_nil⟩

/-! ## Requests that come at the right time -/

/-- A new length is not zero, and beyond the position of a capture that is going on. -/
def Fresh (s : Capturing) : CaptureEvent → Prop
  | .assign _ => ∀ len rest, s.pending = .sampleLen len :: rest →
      0 < len ∧ (s.capture.sampleReady = false → s.capture.sampleNow < len)
  | _ => True

theorem sampleNow_triggered_lt (hnow : s.capture.sampleNow < s.capture.sampleLen)
    (running : Bool) (commStep : Int) :
    (s.triggered running commStep).sampleNow < s.capture.sampleLen := by
  unfold triggered
  rw [Capture.sampleNow_trigger]
  split
  next => exact Nat.zero_lt_of_lt hnow
  next => exact hnow

theorem admits_of_lt (hnow : s.capture.sampleNow < s.capture.sampleLen) (event : CaptureEvent) :
    s.Admits event := by
  cases event with
  | mcTimerIsr running commStep => exact fun _ => sampleNow_triggered_lt hnow running commStep
  | samplePrintData | assign => trivial

theorem sampleNow_collect_lt {t : Capture} (hnow : t.sampleNow < t.sampleLen) :
    t.collect.1.sampleNow < t.collect.1.sampleLen := by
  by_cases hstores : t.Stores
  · rw [Capture.collect_of_stores hstores]
    dsimp only
    split
    next => exact Nat.zero_lt_of_lt hnow
    next hlast => exact Nat.lt_of_le_of_ne hnow hlast
  · obtain ⟨-, a, heq⟩ := Capture.collect_of_not_stores hstores
    rw [heq]
    exact hnow

theorem lt_step_of_fresh (h : s.Counted) (hnow : s.capture.sampleNow < s.capture.sampleLen)
    (event : CaptureEvent) (hfresh : s.Fresh event) :
    (s.step event).1.capture.sampleNow < (s.step event).1.capture.sampleLen := by
  cases event with
  | samplePrintData atStart len decimation =>
      obtain ⟨capture, pending, stored⟩ := s
      cases pending <;> exact hnow
  | assign commStep =>
      obtain ⟨capture, pending, stored⟩ := s
      cases pending with
      | nil => exact hnow
      | cons assignment rest =>
          cases assignment with
          | sampleLen len =>
              obtain ⟨hpos, hbusy⟩ := hfresh len rest rfl
              cases hready : capture.sampleReady with
              | false => exact hbusy hready
              | true => exact (h.idle hready).trans_lt hpos
          | sampleNow => exact Nat.zero_lt_of_lt hnow
          | sampleInt | sampleAtStart | startComm | sampleReady => exact hnow
  | mcTimerIsr running commStep =>
      refine sampleNow_collect_lt (t := s.triggered running commStep) ?_
      exact (sampleNow_triggered_lt hnow running commStep).trans_eq
        (Capture.sampleLen_trigger s.capture running commStep).symm

/-! ## A position beyond the length -/

/-- A position beyond the length is never equal to it, and the samples go on. -/
theorem run_beyond {running : Bool} {commStep : Int} (hready : s.capture.sampleReady = false)
    (htrigger : ¬ s.capture.Triggers running commStep)
    (hnow : s.capture.sampleLen ≤ s.capture.sampleNow) (hint : s.capture.sampleInt ≤ 1)
    (n : Nat) :
    (capturing.run s (List.replicate n (.mcTimerIsr running commStep))).2 =
      List.range' s.capture.sampleNow n := by
  induction n generalizing s with
  | zero => rfl
  | succ n ih =>
      have hstores : s.capture.Stores := ⟨hready, hint.trans (Nat.le_add_left 1 _)⟩
      have hisr : s.capture.mcTimerIsr running commStep =
          ({ s.capture with a := 0, sampleNow := s.capture.sampleNow + 1 },
            [s.capture.sampleNow]) := by
        rw [Capture.mcTimerIsr, Capture.trigger, if_neg htrigger,
          Capture.collect_of_stores hstores, if_neg (by omega)]
      have hstate : (capturing.step s (.mcTimerIsr running commStep)).1.capture =
          { s.capture with a := 0, sampleNow := s.capture.sampleNow + 1 } :=
        congrArg Prod.fst hisr
      have hindices : (capturing.step s (.mcTimerIsr running commStep)).2 =
          [s.capture.sampleNow] := congrArg Prod.snd hisr
      have hrest := ih (s := (capturing.step s (.mcTimerIsr running commStep)).1)
      rw [hstate] at hrest
      rw [List.replicate_succ, Machine.run_cons, List.range'_succ, hindices,
        hrest hready htrigger (Nat.le_succ_of_le hnow) hint]
      rfl

end Capturing

/-- A capture stays inside its buffers and within its length in a run, and ends when it is
left alone, exactly if no sample is stored while a request has left the position beyond. -/
theorem capturing_within_iff (events : List CaptureEvent) :
    capturing.Always Capturing.Within Capturing.init events ∧
      (∀ before after, events = before ++ after →
        (capturing.run Capturing.init before).1.Ends) ↔
    capturing.Always Capturing.Admits Capturing.init events := by
  have hiff := Machine.always_congr_of_invariant (M := capturing) (I := Capturing.Counted)
    (fun s event h => Capturing.counted_step h event)
    (fun s event h => Capturing.within_iff h event) Capturing.counted_init events
  rw [hiff]
  refine and_iff_left fun before after _ => Capturing.ends ?_
  exact Machine.run_invariant (I := Capturing.Counted)
    (fun s event h => Capturing.counted_step h event) Capturing.counted_init before

/-- Requests that give no length of zero, and to a running capture only lengths beyond its
position, leave it within its buffers. -/
theorem capturing_admits_of_fresh {events : List CaptureEvent}
    (h : capturing.Always Capturing.Fresh Capturing.init events) :
    capturing.Always Capturing.Admits Capturing.init events := by
  refine h.imp_of_invariant
    (I := fun s => s.Counted ∧ s.capture.sampleNow < s.capture.sampleLen)
    (fun s event hs hfresh => ?_) (fun s event hs _ => Capturing.admits_of_lt hs.2 event)
    ⟨Capturing.counted_init, by decide⟩
  exact ⟨Capturing.counted_step hs.1 event, Capturing.lt_step_of_fresh hs.1 hs.2 event hfresh⟩

/-- Five of ten samples are stored when three are asked for at the start of the motor. -/
def shortened : List CaptureEvent :=
  .samplePrintData false 10 1 :: List.replicate 4 (.assign 1) ++
    List.replicate 5 (.mcTimerIsr false 1) ++
    .samplePrintData true 3 1 :: List.replicate 4 (.assign 1)

/-- The capture runs out of its buffers while the motor stands still. -/
theorem shortened_overruns :
    adcSampleMaxLen ∈ (capturing.run Capturing.init
      (shortened ++ List.replicate 1996 (.mcTimerIsr false 1))).2 := by
  have hstate : (capturing.run Capturing.init shortened).1 =
      ⟨⟨3, 1, false, 5, true, 1, 0⟩, [], 5⟩ := rfl
  rw [Machine.run_append, hstate]
  refine List.mem_append_right _ ?_
  rw [Capturing.run_beyond rfl (by decide) (by decide) (by decide)]
  exact List.mem_range'_1.2 (by decide)

end Bldc.Drive
