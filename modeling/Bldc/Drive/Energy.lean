import Bldc.Foundation.Machine
import Mathlib.Algebra.Order.Field.Basic
import Mathlib.Algebra.Order.Ring.Rat
import Mathlib.Tactic.Linarith
import Mathlib.Tactic.NormNum
import Mathlib.Tactic.Ring

/-!
# The charge and energy counters

The timer interrupt of the motor interface sums up the input current and adds the sum, now
and then, to the charge and the energy that were drawn or fed back. Four functions read
these counters and reset them. The interrupt can come between the two.
-/

namespace Bldc.Drive

open Foundation

/-- What the interrupt finds: the filtered currents of the motor and of the input, the
sampling frequency and the input voltage. -/
structure EnergySample (K : Type) where
  current : K
  currentIn : K
  fSamp : K
  inputVoltage : K

/-- `m_amp_seconds` and the other counters, with the statics of the interrupt. -/
structure Energy (K : Type) where
  ampSeconds : K
  ampSecondsCharged : K
  wattSeconds : K
  wattSecondsCharged : K
  currDiffSum : K
  currDiffSamples : K

/-- The four counters. -/
inductive EnergyCounter where
  | ampHours
  | ampHoursCharged
  | wattHours
  | wattHoursCharged
  deriving DecidableEq, Repr

namespace Energy

variable {K : Type} [Field K] [LinearOrder K]

/-- The watt and ah counters of `mc_interface_mc_timer_isr`. -/
def mcTimerIsr (e : Energy K) (sample : EnergySample K) : Energy K :=
  if |sample.current| > 1 then
    let currDiffSum := e.currDiffSum + sample.currentIn / sample.fSamp
    let currDiffSamples := e.currDiffSamples + 1 / sample.fSamp
    if currDiffSamples ≥ 1 / 100 then
      if currDiffSum > 0 then
        { e with
          ampSeconds := e.ampSeconds + currDiffSum
          wattSeconds := e.wattSeconds + currDiffSum * sample.inputVoltage
          currDiffSum := 0
          currDiffSamples := 0 }
      else
        { e with
          ampSecondsCharged := e.ampSecondsCharged - currDiffSum
          wattSecondsCharged := e.wattSecondsCharged - currDiffSum * sample.inputVoltage
          currDiffSum := 0
          currDiffSamples := 0 }
    else { e with currDiffSum := currDiffSum, currDiffSamples := currDiffSamples }
  else e

/-- Passes of the interrupt. -/
def passes (e : Energy K) (samples : List (EnergySample K)) : Energy K :=
  samples.foldl mcTimerIsr e

/-- A read of a counter in hours, then passes of the interrupt, then the reset. -/
def getHours (read : Energy K → K) (clear : Energy K → Energy K) (e : Energy K) (reset : Bool)
    (during : List (EnergySample K)) : Energy K × K :=
  (if reset then clear (e.passes during) else e.passes during, read e / 3600)

/-- `mc_interface_get_amp_hours`. -/
def mcInterfaceGetAmpHours : Energy K → Bool → List (EnergySample K) → Energy K × K :=
  getHours (·.ampSeconds) ({ · with ampSeconds := 0 })

/-- `mc_interface_get_amp_hours_charged`. -/
def mcInterfaceGetAmpHoursCharged : Energy K → Bool → List (EnergySample K) → Energy K × K :=
  getHours (·.ampSecondsCharged) ({ · with ampSecondsCharged := 0 })

/-- `mc_interface_get_watt_hours`. It resets `m_amp_seconds`. -/
def mcInterfaceGetWattHours : Energy K → Bool → List (EnergySample K) → Energy K × K :=
  getHours (·.wattSeconds) ({ · with ampSeconds := 0 })

/-- `mc_interface_get_watt_hours_charged`. -/
def mcInterfaceGetWattHoursCharged : Energy K → Bool → List (EnergySample K) → Energy K × K :=
  getHours (·.wattSecondsCharged) ({ · with wattSecondsCharged := 0 })

def get (e : Energy K) : EnergyCounter → Bool → List (EnergySample K) → Energy K × K
  | .ampHours => e.mcInterfaceGetAmpHours
  | .ampHoursCharged => e.mcInterfaceGetAmpHoursCharged
  | .wattHours => e.mcInterfaceGetWattHours
  | .wattHoursCharged => e.mcInterfaceGetWattHoursCharged

/-- The value that a counter stands for. -/
def seconds (e : Energy K) : EnergyCounter → K
  | .ampHours => e.ampSeconds
  | .ampHoursCharged => e.ampSecondsCharged
  | .wattHours => e.wattSeconds
  | .wattHoursCharged => e.wattSecondsCharged

end Energy

inductive EnergyEvent (K : Type) where
  | isr (sample : EnergySample K)
  | get (counter : EnergyCounter) (reset : Bool) (during : List (EnergySample K))

/-- The counters, with all that the interrupt has put into each of them, and the hours that
resetting reads have returned. -/
structure Metered (K : Type) where
  energy : Energy K
  accumulated : EnergyCounter → K
  returned : EnergyCounter → K

variable {K : Type} [Field K] [LinearOrder K]

namespace Metered

/-- After `mc_interface_init`. -/
def init : Metered K := ⟨⟨0, 0, 0, 0, 0, 0⟩, fun _ => 0, fun _ => 0⟩

/-- What passes of the interrupt put into the counters. -/
def passes (m : Metered K) (samples : List (EnergySample K)) : Metered K :=
  { m with
    energy := m.energy.passes samples
    accumulated := fun counter =>
      m.accumulated counter +
        ((m.energy.passes samples).seconds counter - m.energy.seconds counter) }

def step (m : Metered K) : EnergyEvent K → Metered K × List K
  | .isr sample => (m.passes [sample], [])
  | .get counter reset during =>
      ({ m.passes during with
          energy := (m.energy.get counter reset during).1
          returned := fun c => if reset ∧ c = counter then
            m.returned c + (m.energy.get counter reset during).2 else m.returned c },
        [(m.energy.get counter reset during).2])

end Metered

/-- The counters under the interrupt and the reads. -/
def metered : Machine (Metered K) (EnergyEvent K) K where
  step := Metered.step

namespace Metered

/-- What was returned and what is left is all that was accumulated. -/
def Balanced (m : Metered K) : Prop :=
  ∀ counter, m.returned counter + m.energy.seconds counter / 3600 = m.accumulated counter / 3600

def Nonneg (m : Metered K) : Prop := ∀ counter, 0 ≤ m.energy.seconds counter

/-- A read leaves the other counters as the interrupt has left them. -/
def Isolated (m : Metered K) : EnergyEvent K → Prop
  | .isr _ => True
  | .get counter reset during => ∀ c, c ≠ counter →
      (m.step (.get counter reset during)).1.energy.seconds c =
        (m.energy.passes during).seconds c

/-- No counter goes back but by its own reset. -/
def Grows (m : Metered K) (event : EnergyEvent K) : Prop :=
  ∀ c, (∀ during, event ≠ .get c true during) →
    m.energy.seconds c ≤ (m.step event).1.energy.seconds c

/-- A voltage that is not negative, at every pass of the event. -/
def VoltageNonneg : EnergyEvent K → Prop
  | .isr sample => 0 ≤ sample.inputVoltage
  | .get _ _ during => ∀ sample ∈ during, 0 ≤ sample.inputVoltage

/-- A reset that finds the counter as it was read; and a reset by
`mc_interface_get_watt_hours` only while nothing has been drawn. -/
def Clean (m : Metered K) : EnergyEvent K → Prop
  | .isr _ => True
  | .get counter reset during => reset →
      if counter = .wattHours then
        m.energy.wattSeconds = 0 ∧ (m.energy.passes during).ampSeconds = 0
      else (m.energy.passes during).seconds counter = m.energy.seconds counter

end Metered

/-- The counter that the reset of another one clears. -/
def EnergyCounter.clears : EnergyCounter → EnergyCounter
  | .wattHours => .ampHours
  | counter => counter

theorem EnergyCounter.clears_of_ne {counter : EnergyCounter} (h : counter ≠ .wattHours) :
    counter.clears = counter := by
  cases counter with
  | wattHours => exact absurd rfl h
  | ampHours | ampHoursCharged | wattHoursCharged => rfl

namespace Energy

variable (e : Energy K)

theorem get_value (counter : EnergyCounter) (reset : Bool) (during : List (EnergySample K)) :
    (e.get counter reset during).2 = e.seconds counter / 3600 := by
  cases counter <;> rfl

theorem seconds_get (counter : EnergyCounter) (reset : Bool) (during : List (EnergySample K))
    (c : EnergyCounter) : (e.get counter reset during).1.seconds c =
      if reset ∧ c = counter.clears then 0 else (e.passes during).seconds c := by
  cases reset <;> cases counter <;> cases c <;> rfl

end Energy

namespace Metered

variable {m : Metered K}

theorem balanced_passes [IsStrictOrderedRing K] (h : m.Balanced)
    (samples : List (EnergySample K)) : (m.passes samples).Balanced := by
  intro c
  change m.returned c + (m.energy.passes samples).seconds c / 3600 =
    (m.accumulated c + ((m.energy.passes samples).seconds c - m.energy.seconds c)) / 3600
  rw [add_div, ← h c]
  ring

/-- A reset keeps the balance where it clears what was returned. -/
theorem balanced_reset_iff [IsStrictOrderedRing K] (h : m.Balanced) (counter : EnergyCounter)
    (during : List (EnergySample K)) :
    (m.step (.get counter true during)).1.Balanced ↔ ∀ c : EnergyCounter,
      (if c = counter then m.energy.seconds c else 0) =
        if c = counter.clears then (m.energy.passes during).seconds c else 0 := by
  refine forall_congr' fun c => ?_
  have hbalance := h c
  simp only [step, passes, Energy.get_value, Energy.seconds_get, true_and]
  by_cases hcounter : c = counter
  · subst hcounter
    rw [if_pos rfl, if_pos rfl]
    split <;> constructor <;> intro heq <;> linarith
  · rw [if_neg hcounter, if_neg hcounter]
    split <;> constructor <;> intro heq <;> linarith

theorem balanced_step_iff [IsStrictOrderedRing K] (h : m.Balanced) (event : EnergyEvent K) :
    (m.step event).1.Balanced ↔ m.Clean event := by
  cases event with
  | isr sample => exact iff_of_true (balanced_passes h [sample]) trivial
  | get counter reset during =>
      cases reset with
      | false =>
          refine iff_of_true (fun c => ?_) fun hreset => absurd hreset (by decide)
          have hpasses := balanced_passes h during c
          simpa [step, passes, Energy.seconds_get] using hpasses
      | true =>
          rw [balanced_reset_iff h, Clean]
          by_cases hwatt : counter = .wattHours
          · subst hwatt
            rw [if_pos rfl]
            constructor
            · exact fun heq _ => ⟨heq .wattHours, (heq .ampHours).symm⟩
            · intro hclean c
              obtain ⟨hread, hcleared⟩ := hclean rfl
              cases c
              · exact hcleared.symm
              · rfl
              · exact hread
              · rfl
          · rw [EnergyCounter.clears_of_ne hwatt, if_neg hwatt]
            constructor
            · intro heq _
              have hcounter := heq counter
              rw [if_pos rfl, if_pos rfl] at hcounter
              exact hcounter.symm
            · intro hclean c
              split
              next hc => rw [hc, hclean rfl]
              next => rfl

/-- The other counters are left alone where `mc_interface_get_watt_hours` does no harm. -/
theorem isolated_of_clean (event : EnergyEvent K) (hclean : m.Clean event) :
    m.Isolated event := by
  cases event with
  | isr sample => trivial
  | get counter reset during =>
      intro c hne
      change (m.energy.get counter reset during).1.seconds c = _
      rw [Energy.seconds_get]
      split
      next h =>
        obtain ⟨hreset, rfl⟩ := h
        obtain rfl : counter = .wattHours :=
          not_imp_comm.1 EnergyCounter.clears_of_ne hne
        exact ((if_pos rfl).mp (hclean hreset)).2.symm
      next => rfl

/-! ## Without negative voltages -/

section Voltage

variable [IsStrictOrderedRing K]

theorem seconds_mcTimerIsr (e : Energy K) {sample : EnergySample K}
    (hvoltage : 0 ≤ sample.inputVoltage) (c : EnergyCounter) :
    e.seconds c ≤ (e.mcTimerIsr sample).seconds c := by
  unfold Energy.mcTimerIsr
  dsimp only
  split
  next =>
    split
    next =>
      split
      next hdrawn =>
        have henergy := mul_nonneg hdrawn.le hvoltage
        cases c <;> simp only [Energy.seconds] <;> linarith
      next hcharged =>
        have henergy := mul_nonpos_of_nonpos_of_nonneg (not_lt.1 hcharged) hvoltage
        cases c <;> simp only [Energy.seconds] <;> linarith
    next => cases c <;> exact le_rfl
  next => exact le_rfl

theorem seconds_passes (e : Energy K) {samples : List (EnergySample K)}
    (hvoltage : ∀ sample ∈ samples, 0 ≤ sample.inputVoltage) (c : EnergyCounter) :
    e.seconds c ≤ (e.passes samples).seconds c := by
  induction samples generalizing e with
  | nil => exact le_rfl
  | cons sample samples ih =>
      have hfirst := seconds_mcTimerIsr e (hvoltage sample List.mem_cons_self) c
      exact hfirst.trans (ih _ fun s hs => hvoltage s (List.mem_cons_of_mem sample hs))

theorem nonneg_step (h : m.Nonneg) {event : EnergyEvent K} (hvoltage : VoltageNonneg event) :
    (m.step event).1.Nonneg := by
  intro c
  cases event with
  | isr sample => exact (h c).trans (seconds_mcTimerIsr m.energy hvoltage c)
  | get counter reset during =>
      change 0 ≤ (m.energy.get counter reset during).1.seconds c
      rw [Energy.seconds_get]
      split
      next => exact le_rfl
      next => exact (h c).trans (seconds_passes m.energy hvoltage c)

theorem grows_of_clean {event : EnergyEvent K} (hvoltage : VoltageNonneg event)
    (hclean : m.Clean event) : m.Grows event := by
  intro c hown
  cases event with
  | isr sample => exact seconds_mcTimerIsr m.energy hvoltage c
  | get counter reset during =>
      have hne : reset → c ≠ counter := by
        rintro hreset rfl
        exact hown during (by rw [hreset])
      have hpasses := seconds_passes m.energy hvoltage c
      cases reset with
      | false =>
          refine hpasses.trans_eq ?_
          change _ = (m.energy.get counter false during).1.seconds c
          rw [Energy.seconds_get, if_neg (by simp)]
      | true => exact hpasses.trans_eq (isolated_of_clean _ hclean c (hne rfl)).symm

end Voltage

omit [LinearOrder K] in
theorem balanced_init : (init : Metered K).Balanced := by
  intro c
  cases c <;> exact zero_add _

theorem nonneg_init : (init : Metered K).Nonneg := by
  intro c
  cases c <;> exact le_rfl

end Metered

/-- The counters conserve charge and energy in a run exactly if all its resets are clean. -/
theorem metered_conserves_iff [IsStrictOrderedRing K] (events : List (EnergyEvent K)) :
    (∀ before after, events = before ++ after → (metered.run Metered.init before).1.Balanced) ∧
      metered.Always Metered.Isolated Metered.init events ∧
      ((∀ event ∈ events, Metered.VoltageNonneg event) →
        (∀ before after, events = before ++ after →
          (metered.run Metered.init before).1.Nonneg) ∧
        metered.Always Metered.Grows Metered.init events) ↔
    metered.Always Metered.Clean Metered.init events := by
  have hbalanced := Machine.always_iff_forall_prefix (M := metered (K := K))
    (P := Metered.Clean) (I := Metered.Balanced)
    (fun m event h => (Metered.balanced_step_iff h event).symm) Metered.balanced_init events
  constructor
  · exact fun h => hbalanced.2 h.1
  · intro hclean
    refine ⟨hbalanced.1 hclean, ?_, fun hvoltage => ?_⟩
    · exact hclean.imp fun _ event hevent => Metered.isolated_of_clean event hevent
    · have hall := Machine.always_of_forall (M := metered (K := K))
        (P := fun _ event => Metered.VoltageNonneg event)
        (fun _ event hevent => hvoltage event hevent) Metered.init
      constructor
      · rintro before after rfl
        exact Machine.run_invariant_of_always (M := metered) (I := Metered.Nonneg)
          (P := fun _ event => Metered.VoltageNonneg event)
          (fun m event h hevent => Metered.nonneg_step h hevent) Metered.nonneg_init
          ((Machine.always_append _ _ _ before after).1 hall).1
      · exact (hall.and hclean).imp fun _ _ hevent => Metered.grows_of_clean hevent.1 hevent.2

/-- A tenth of an ampere-second, read as a charge and reset. -/
def chargeRead : List (EnergyEvent ℚ) := [.isr ⟨10, 10, 100, 40⟩, .get .ampHours true []]

theorem chargeRead_conserved :
    (∀ before after, chargeRead = before ++ after →
        (metered.run Metered.init before).1.Balanced) ∧
      metered.Always Metered.Isolated Metered.init chargeRead := by
  have hconserved := (metered_conserves_iff chargeRead).2 ⟨trivial, fun _ => rfl, trivial⟩
  exact ⟨hconserved.1, hconserved.2.1⟩

/-- Read as an energy, it stays in its counter, and the charge is lost. -/
theorem not_balanced_wattHours :
    ¬ (metered.run (Metered.init : Metered ℚ)
      [.isr ⟨10, 10, 100, 40⟩, .get .wattHours true []]).1.Balanced := by
  intro h
  have hwatt := h .wattHours
  norm_num [metered, Metered.step, Metered.passes, Metered.init, Energy.get,
    Energy.mcInterfaceGetWattHours, Energy.getHours, Energy.passes, Energy.mcTimerIsr,
    Energy.seconds] at hwatt

end Bldc.Drive
