import Bldc.Foc.Control

/-!
# Braking with a positive and with a negative current

`mcpwm_foc_set_brake_current` is meant to do the same for a current and for its negative.
It cuts the signed current at two limits that need not be of one size, and the interrupt
takes the absolute value only afterwards.
-/

namespace Bldc.Foc

open Drive (McState ControlMode)
open Foundation Utils

section Command

variable {K : Type} [Field K] [LinearOrder K]

/-- `mcpwm_foc_set_brake_current`. -/
def FocState.mcpwmFocSetBrakeCurrent (conf : Configuration K) (ccMinCurrent : K) (s : FocState K)
    (current : K) : FocState K :=
  if |current| < ccMinCurrent then { s with controlMode := .none, state := .off }
  else
    { s with
      controlMode := .currentBrake
      iqSet := truncateNumber current conf.loCurrentMin conf.loCurrentMax
      state := .running }

/-- What the observer, the sensors and the timer thread see of the driver: all that a pass
leaves but the set-points. -/
structure Seen (K : Type) where
  state : McState
  controlMode : ControlMode
  phaseOverride : Bool
  phaseNowObserver : K
  motorState : MotorState K

def FocState.seen (s : FocState K) : Seen K :=
  ⟨s.state, s.controlMode, s.phaseOverride, s.phaseNowObserver, s.motorState⟩

/-- What they arrive at before a pass. -/
structure Sensed (K : Type) where
  reading : Reading K
  phaseObserverOverride : Bool
  phaseNowObserverOverride : K
  phaseNowEncoderNoIndex : K

/-- The overrides that the timer thread has written. -/
def FocState.overridden (s : FocState K) (sensed : Sensed K) : FocState K :=
  { s with
    phaseObserverOverride := sensed.phaseObserverOverride
    phaseNowObserverOverride := sensed.phaseNowObserverOverride
    phaseNowEncoderNoIndex := sensed.phaseNowEncoderNoIndex }

/-- The current along the d axis that is asked for before the limits. -/
def FocState.idRequest (s : FocState K) (conf : Configuration K) : K :=
  if s.phaseOverride then s.idSet
  else match conf.focSensorMode with
    | .sensorless =>
        if |s.motorState.dutyNow| < conf.focSlDCurrentDuty then
          map |s.motorState.dutyNow| 0 conf.focSlDCurrentDuty
            (|s.motorState.iqTarget| * conf.focSlDCurrentFactor) 0
        else 0
    | _ => 0

/-- The next pass brakes with the current that is set, and not with a duty cycle of zero. -/
def FocState.BrakesByCurrent (s : FocState K) : Prop :=
  s.measureInductanceNow = false ∧ s.state = .running ∧ s.controlMode = .currentBrake ∧
    ¬|truncateNumber (lpFast s.dutyFiltered s.motorState.dutyNow 0.1) (-1) 1| < 0.03

/-- The battery allows less than the negative motor limit. -/
def Configuration.BatteryBelow (conf : Configuration K) (modQ : K) : Prop :=
  modQ > 0.001 ∧ conf.loInCurrentMax < modQ * -conf.loCurrentMin ∨
    modQ < -0.001 ∧ modQ * -conf.loCurrentMin < conf.loInCurrentMin

variable [FloorRing K]

/-- What the phase has moved since the last pass. -/
def FocState.phaseDiff (s : FocState K) : K :=
  angleDifferenceRad s.motorState.phase s.phaseBefore

/-- Passes, with an observer, sensors and a timer thread that have a state of their own. -/
def passes {σ ι : Type} (estimate : σ → Seen K → ι → σ × Sensed K) (sqrtf : K → K)
    (conf : Configuration K) : Machine (σ × FocState K) ι (MotorState K × Output K) where
  step s input :=
    let sensed := (estimate s.1 s.2.seen input).2
    let pass := (s.2.overridden sensed).mcpwmFocAdcInjIntHandler sqrtf conf sensed.reading
    (((estimate s.1 s.2.seen input).1, pass.1), pass.2)

/-- The limit on the other side cuts the current of this pass to the same size, or later
limits do. -/
def FocState.CutsEvenly (conf : Configuration K) (current : K) (s : FocState K) : Prop :=
  s.BrakesByCurrent →
    (s.phaseDiff < 0 → min |current| conf.loCurrentMax ≤ -conf.loCurrentMin ∨
      1e-10 ≤ conf.loCurrentMax ∧
        s.idRequest conf ^ 2 + min |current| conf.loCurrentMax ^ 2 ≤ conf.loCurrentMax ^ 2 ∧
        conf.BatteryBelow s.motorState.modQ) ∧
    (0 < s.phaseDiff → min |current| (-conf.loCurrentMin) ≤ conf.loCurrentMax ∨
      1e-10 ≤ conf.loCurrentMax ∧ s.idRequest conf = 0)

end Command

/-- Braking with the current and with its negative gives the same motor state, and the same
calls of the current controller, in every pass. -/
def BrakesAlike {σ ι : Type} (estimate : σ → Seen ℝ → ι → σ × Sensed ℝ) (conf : Configuration ℝ)
    (ccMinCurrent current : ℝ) (estimator : σ) (s : FocState ℝ) (inputs : List ι) : Prop :=
  ∀ before after, inputs = before ++ after →
    let run (current : ℝ) := (passes estimate Real.sqrt conf).run
      (estimator, s.mcpwmFocSetBrakeCurrent conf ccMinCurrent current) before
    (run current).1.2.motorState = (run (-current)).1.2.motorState ∧
      (run current).1.2.state = (run (-current)).1.2.state ∧
      (run current).2 = (run (-current)).2

/-- The sign that the direction of the rotation gives the brake current. -/
def brakeCurrent {K : Type} [Field K] [LinearOrder K] (phaseDiff magnitude : K) : K :=
  if phaseDiff > 0 then -magnitude else if phaseDiff = 0 then 0 else magnitude

namespace FocState

section Same

variable {K : Type} [Field K] [LinearOrder K] {sqrtf : K → K} {conf : Configuration K}
  {s : FocState K}

/-- The state with another set-point. -/
def withIqSet (s : FocState K) (iqSet : K) : FocState K := { s with iqSet := iqSet }

/-- The running branch before the set-point. -/
def sampled (s : FocState K) (conf : Configuration K) (r : Reading K) : FocState K :=
  { s with
    motorState := { s.motorState with
      iAlpha := r.ia
      iBeta := oneBySqrt3 * r.ia + twoBySqrt3 * r.ib
      maxDuty := conf.lMaxDuty }
    dutyFiltered := truncateNumber (lpFast s.dutyFiltered s.motorState.dutyNow 0.1) (-1) 1 }

theorem sense_snd (s : FocState K) (conf : Configuration K) (r : Reading K) :
    (s.sense conf r).2 = s.idRequest conf := by
  cases hphase : s.phaseOverride <;> cases hsensor : conf.focSensorMode <;>
    simp [sense, idRequest, hphase, hsensor]

theorem sense_modQ (s : FocState K) (conf : Configuration K) (r : Reading K) :
    (s.sense conf r).1.motorState.modQ = s.motorState.modQ := by
  cases hphase : s.phaseOverride <;> cases hsensor : conf.focSensorMode <;>
    simp [sense, hphase, hsensor]

theorem sense_withIqSet (s : FocState K) (conf : Configuration K) (r : Reading K) (iqSet : K) :
    (s.withIqSet iqSet).sense conf r =
      ((s.sense conf r).1.withIqSet iqSet, (s.sense conf r).2) := by
  cases hphase : s.phaseOverride <;> cases hsensor : conf.focSensorMode <;>
    simp [sense, withIqSet, hphase, hsensor]

theorem controlDuty_withIqSet (s : FocState K) (conf : Configuration K)
    (dt inputVoltage dutySet iqSet : K) :
    (s.withIqSet iqSet).controlDuty conf dt inputVoltage dutySet =
      ((s.controlDuty conf dt inputVoltage dutySet).1.withIqSet iqSet,
        (s.controlDuty conf dt inputVoltage dutySet).2) := by
  unfold controlDuty withIqSet
  split <;> rfl

theorem setPoint_slow (hmode : s.controlMode = .currentBrake) (hslow : |s.dutyFiltered| < 0.03)
    (dt inputVoltage phaseDiff : K) :
    s.setPoint conf dt inputVoltage phaseDiff = s.controlDuty conf dt inputVoltage 0 := by
  unfold setPoint controlledDuty
  rw [if_pos ⟨hmode, hslow⟩]

theorem setPoint_fast (hmode : s.controlMode = .currentBrake) (hfast : ¬|s.dutyFiltered| < 0.03)
    (dt inputVoltage phaseDiff : K) :
    s.setPoint conf dt inputVoltage phaseDiff = (s, brakeCurrent phaseDiff |s.iqSet|) := by
  unfold setPoint controlledDuty
  rw [if_neg fun h => hfast h.2, if_neg (by simp [hmode]), if_neg (by simp [hmode])]
  exact if_pos hmode

/-- What a pass leaves of the command. -/
def command (s : FocState K) : ControlMode × K := (s.controlMode, s.iqSet)

theorem controlDuty_command (s : FocState K) (conf : Configuration K)
    (dt inputVoltage dutySet : K) :
    (s.controlDuty conf dt inputVoltage dutySet).1.command = s.command := by
  unfold controlDuty command
  split <;> rfl

theorem setPoint_command (s : FocState K) (conf : Configuration K)
    (dt inputVoltage phaseDiff : K) :
    (s.setPoint conf dt inputVoltage phaseDiff).1.command = s.command := by
  unfold setPoint
  split
  next => exact controlDuty_command s conf dt inputVoltage _
  next => split <;> rfl

theorem sense_command (s : FocState K) (conf : Configuration K) (r : Reading K) :
    (s.sense conf r).1.command = s.command := by
  cases hphase : s.phaseOverride <;> cases hsensor : conf.focSensorMode <;>
    simp [sense, command, hphase, hsensor]

theorem target_eq (sqrtf : K → K) (s : FocState K) (conf : Configuration K) (r : Reading K)
    (dt phaseDiff : K) :
    s.target sqrtf conf r dt phaseDiff =
      let set := (s.sampled conf r).setPoint conf dt r.inputVoltage phaseDiff
      let sensed := set.1.sense conf r
      let limited := limitCurrents sqrtf conf sensed.1.motorState.modQ sensed.2 set.2
      { sensed.1 with motorState := { sensed.1.motorState with
          idTarget := limited.1
          iqTarget := limited.2 } } := rfl

theorem target_command (s : FocState K) (r : Reading K) (dt phaseDiff : K) :
    (s.target sqrtf conf r dt phaseDiff).command = s.command :=
  (sense_command _ conf r).trans (setPoint_command _ conf dt r.inputVoltage phaseDiff)

/-- Another set-point stays one, when the limits make the same of both. -/
theorem target_withIqSet {iqSet phaseDiff : K} (hmode : s.controlMode = .currentBrake)
    (r : Reading K) (dt : K)
    (hsame : ¬|(s.sampled conf r).dutyFiltered| < 0.03 →
      limitCurrents sqrtf conf s.motorState.modQ (s.idRequest conf)
          (brakeCurrent phaseDiff |s.iqSet|) =
        limitCurrents sqrtf conf s.motorState.modQ (s.idRequest conf)
          (brakeCurrent phaseDiff |iqSet|)) :
    (s.withIqSet iqSet).target sqrtf conf r dt phaseDiff =
      (s.target sqrtf conf r dt phaseDiff).withIqSet iqSet := by
  have hsampled : (s.withIqSet iqSet).sampled conf r = (s.sampled conf r).withIqSet iqSet := rfl
  have hmode' : (s.sampled conf r).controlMode = .currentBrake := hmode
  rw [target_eq, target_eq, hsampled]
  by_cases hslow : |(s.sampled conf r).dutyFiltered| < 0.03
  · rw [setPoint_slow (s := s.sampled conf r) hmode' hslow,
      setPoint_slow (s := (s.sampled conf r).withIqSet iqSet) hmode' hslow, controlDuty_withIqSet]
    dsimp only
    rw [sense_withIqSet]
    rfl
  · rw [setPoint_fast (s := s.sampled conf r) hmode' hslow,
      setPoint_fast (s := (s.sampled conf r).withIqSet iqSet) hmode' hslow]
    dsimp only
    rw [sense_withIqSet]
    have hid : (s.sampled conf r).idRequest conf = s.idRequest conf := rfl
    have hlimits := hsame hslow
    have hmodQ : ((s.sampled conf r).sense conf r).1.motorState.modQ = s.motorState.modQ :=
      sense_modQ _ conf r
    dsimp only [withIqSet]
    rw [sense_snd, hid, hmodQ]
    change limitCurrents sqrtf conf s.motorState.modQ (s.idRequest conf)
      (brakeCurrent phaseDiff |(s.sampled conf r).iqSet|) = _ at hlimits
    rw [hlimits]

variable [FloorRing K]

/-- The beginning of a pass. -/
def entered (s : FocState K) (r : Reading K) : FocState K :=
  { s with
    motorState := { s.motorState with vBus := r.inputVoltage }
    phaseBefore := s.motorState.phase }

/-- The running branch from the call of the current controller. -/
def drive (sqrtf : K → K) (conf : Configuration K) (r : Reading K) (s : FocState K) :
    FocState K × List (MotorState K × Output K) :=
  let called := controlCurrent sqrtf conf s.motorState (1.0 / (conf.focFSw / 2.0)) r.arr
  (finish sqrtf { s with motorState := called.1 }, [(s.motorState, called.2)])

theorem handler_measuring (hmeasures : s.measureInductanceNow = true) (r : Reading K) :
    s.mcpwmFocAdcInjIntHandler sqrtf conf r = (s, []) := if_pos hmeasures

theorem handler_off (hmeasures : s.measureInductanceNow = false) (hoff : s.state ≠ .running)
    (r : Reading K) :
    s.mcpwmFocAdcInjIntHandler sqrtf conf r = (finish sqrtf ((s.entered r).track conf r), []) := by
  unfold mcpwmFocAdcInjIntHandler
  dsimp only
  rw [if_neg (by simp [hmeasures]), if_neg hoff]
  rfl

theorem handler_running (hmeasures : s.measureInductanceNow = false) (hrunning : s.state = .running)
    (r : Reading K) :
    s.mcpwmFocAdcInjIntHandler sqrtf conf r =
      drive sqrtf conf r
        ((s.entered r).target sqrtf conf r (1.0 / (conf.focFSw / 2.0)) s.phaseDiff) := by
  unfold mcpwmFocAdcInjIntHandler
  dsimp only
  rw [if_neg (by simp [hmeasures]), if_pos hrunning]
  rfl

theorem handler_command (s : FocState K) (r : Reading K) :
    (s.mcpwmFocAdcInjIntHandler sqrtf conf r).1.command = s.command := by
  cases hmeasures : s.measureInductanceNow with
  | true => rw [handler_measuring hmeasures]
  | false =>
      by_cases hrunning : s.state = .running
      · rw [handler_running hmeasures hrunning]
        exact (target_command _ r _ _ : (target sqrtf _ conf r _ _).command = (s.entered r).command)
      · rw [handler_off hmeasures hrunning]
        rfl

/-- The target of a pass that brakes with the set current. -/
theorem handler_iqTarget (h : s.BrakesByCurrent) (r : Reading K) :
    (s.mcpwmFocAdcInjIntHandler sqrtf conf r).1.motorState.iqTarget =
      (limitCurrents sqrtf conf s.motorState.modQ (s.idRequest conf)
        (brakeCurrent s.phaseDiff |s.iqSet|)).2 := by
  obtain ⟨hmeasures, hrunning, hmode, hfast⟩ := h
  have hmode' : ((s.entered r).sampled conf r).controlMode = .currentBrake := hmode
  have hdrive (t : FocState K) :
      (drive sqrtf conf r t).1.motorState.iqTarget = t.motorState.iqTarget := rfl
  rw [handler_running hmeasures hrunning, hdrive, target_eq, setPoint_fast hmode' hfast]
  dsimp only
  rw [sense_modQ, sense_snd]
  rfl

theorem drive_withIqSet (r : Reading K) (s : FocState K) (iqSet : K) :
    drive sqrtf conf r (s.withIqSet iqSet) =
      ((drive sqrtf conf r s).1.withIqSet iqSet, (drive sqrtf conf r s).2) := rfl

/-- A pass of a braking motor with another set-point. -/
theorem handler_withIqSet {iqSet : K} (hmode : s.controlMode = .currentBrake) (r : Reading K)
    (hsame : s.BrakesByCurrent →
      limitCurrents sqrtf conf s.motorState.modQ (s.idRequest conf)
          (brakeCurrent s.phaseDiff |s.iqSet|) =
        limitCurrents sqrtf conf s.motorState.modQ (s.idRequest conf)
          (brakeCurrent s.phaseDiff |iqSet|)) :
    (s.withIqSet iqSet).mcpwmFocAdcInjIntHandler sqrtf conf r =
      ((s.mcpwmFocAdcInjIntHandler sqrtf conf r).1.withIqSet iqSet,
        (s.mcpwmFocAdcInjIntHandler sqrtf conf r).2) := by
  cases hmeasures : s.measureInductanceNow with
  | true => rw [handler_measuring hmeasures, handler_measuring (s := s.withIqSet iqSet) hmeasures]
  | false =>
      by_cases hrunning : s.state = .running
      · have hmode' : (s.entered r).controlMode = .currentBrake := hmode
        have hentered : (s.withIqSet iqSet).entered r = (s.entered r).withIqSet iqSet := rfl
        have hdiff : (s.withIqSet iqSet).phaseDiff = s.phaseDiff := rfl
        rw [handler_running (s := s.withIqSet iqSet) hmeasures hrunning,
          handler_running hmeasures hrunning, hentered, hdiff, target_withIqSet hmode' r _ ?_,
          drive_withIqSet]
        exact fun hfast => hsame ⟨hmeasures, hrunning, hmode, hfast⟩
      · rw [handler_off (s := s.withIqSet iqSet) hmeasures hrunning,
          handler_off hmeasures hrunning]
        rfl

end Same

end FocState

section Limits

theorem truncateNumber_nonneg {K : Type} [Field K] [LinearOrder K] {x lo hi : K} (hlo : lo ≤ 0)
    (hx : 0 ≤ x) : truncateNumber x lo hi = min x hi := by
  unfold truncateNumber
  split
  next h => exact (min_eq_right h.le).symm
  next h => rw [if_neg (not_lt.2 (hlo.trans hx)), min_eq_left (not_lt.1 h)]

/-- The limit by the current from the battery. -/
def capBattery {K : Type} [Field K] [LinearOrder K] (conf : Configuration K) (modQ iq : K) : K :=
  if modQ > 0.001 then
    truncateNumber iq (conf.loInCurrentMin / modQ) (conf.loInCurrentMax / modQ)
  else if modQ < -0.001 then
    truncateNumber iq (conf.loInCurrentMax / modQ) (conf.loInCurrentMin / modQ)
  else iq

theorem limitCurrents_eq {K : Type} [Field K] [LinearOrder K] (sqrtf : K → K)
    (conf : Configuration K) (modQ id iq : K) :
    limitCurrents sqrtf conf modQ id iq =
      let saturated := saturateVector2d sqrtf id
        (truncateNumber iq conf.loCurrentMin conf.loCurrentMax) conf.loCurrentMax
      (saturated.1, capBattery conf modQ saturated.2) := rfl

variable {conf : Configuration ℝ} {lo hi : ℝ}

theorem truncateNumber_neg {x : ℝ} (hhi : 0 ≤ hi) (hx : 0 ≤ x) :
    truncateNumber (-x) lo hi = -min x (-lo) := by
  have hle : ¬-x > hi := not_lt.2 ((neg_nonpos.2 hx).trans hhi)
  unfold truncateNumber
  rw [if_neg hle]
  split
  next h => rw [min_eq_right (by linarith), neg_neg]
  next h => rw [min_eq_left (by linarith)]

/-- What the command sets for a current and for its negative: both sizes, in either order. -/
theorem abs_truncateNumber (hlo : lo ≤ 0) (hhi : 0 ≤ hi) (current : ℝ) :
    |truncateNumber current lo hi| = min |current| hi ∧
        |truncateNumber (-current) lo hi| = min |current| (-lo) ∨
      |truncateNumber current lo hi| = min |current| (-lo) ∧
        |truncateNumber (-current) lo hi| = min |current| hi := by
  have hup {x : ℝ} (hx : 0 ≤ x) : |truncateNumber x lo hi| = min x hi := by
    rw [truncateNumber_nonneg hlo hx, abs_of_nonneg (le_min hx hhi)]
  have hdown {x : ℝ} (hx : 0 ≤ x) : |truncateNumber (-x) lo hi| = min x (-lo) := by
    rw [truncateNumber_neg hhi hx, abs_neg, abs_of_nonneg (le_min hx (neg_nonneg.2 hlo))]
  rcases le_total 0 current with hcurrent | hcurrent
  · rw [abs_of_nonneg hcurrent]
    exact .inl ⟨hup hcurrent, hdown hcurrent⟩
  · have hneg := neg_nonneg.2 hcurrent
    have hsame := hdown hneg
    rw [neg_neg] at hsame
    rw [abs_of_nonpos hcurrent]
    exact .inr ⟨hsame, hup hneg⟩

/-- A battery limit below the negative motor limit makes the same of all larger currents. -/
theorem capBattery_of_below {modQ iq : ℝ} (h : conf.BatteryBelow modQ)
    (hiq : -conf.loCurrentMin ≤ iq) :
    capBattery conf modQ iq = capBattery conf modQ (-conf.loCurrentMin) := by
  unfold capBattery truncateNumber
  rcases h with ⟨hpos, hbelow⟩ | ⟨hneg, hbelow⟩
  · have hmod : 0 < modQ := lt_trans (by norm_num) hpos
    have hcap : conf.loInCurrentMax / modQ < -conf.loCurrentMin := (div_lt_iff₀' hmod).2 hbelow
    rw [if_pos hpos, if_pos (hcap.trans_le hiq), if_pos hpos, if_pos hcap]
  · have hmod : modQ < 0 := hneg.trans (by norm_num)
    have hcap : conf.loInCurrentMin / modQ < -conf.loCurrentMin :=
      (div_lt_iff_of_neg' hmod).2 hbelow
    have hpos : ¬modQ > 0.001 := not_lt.2 (hmod.le.trans (by norm_num))
    rw [if_neg hpos, if_pos hneg, if_pos (hcap.trans_le hiq), if_neg hpos, if_pos hneg,
      if_pos hcap]

theorem saturateVector2d_inside {x y max : ℝ} (hmax : 1e-10 ≤ max)
    (h : x ^ 2 + y ^ 2 ≤ max ^ 2) : saturateVector2d Real.sqrt x y max = (x, y) := by
  have hnonneg : 0 ≤ max := le_trans (by norm_num) hmax
  have hle : √(x * x + y * y) ≤ max := by
    rw [← sq, ← sq]
    exact Real.sqrt_le_iff.2 ⟨hnonneg, h⟩
  unfold saturateVector2d
  rw [abs_of_nonneg hnonneg]
  dsimp only
  rw [if_neg]
  split
  next => exact not_lt.2 hmax
  next => exact not_lt.2 hle

/-- Along the negative q axis all longer currents are cut to the limit. -/
theorem saturateVector2d_backward {y max : ℝ} (hmax : 1e-10 ≤ max) (h : max ≤ y) :
    saturateVector2d Real.sqrt 0 (-y) max = (0, -max) := by
  rcases h.eq_or_lt with rfl | hlt
  · exact saturateVector2d_inside hmax (by rw [neg_sq, zero_pow two_ne_zero, zero_add])
  · have hpos : 0 < max := lt_of_lt_of_le (by norm_num) hmax
    have hmag : √(0 * 0 + -y * -y) = y := by
      rw [mul_zero, zero_add, neg_mul_neg, Real.sqrt_mul_self (hpos.trans hlt).le]
    unfold saturateVector2d
    rw [hmag, abs_of_pos hpos]
    dsimp only
    rw [if_neg (not_lt.2 (hmax.trans h)), if_pos hlt, zero_mul, neg_mul,
      mul_div_cancel₀ _ (hpos.trans hlt).ne']

/-- Backwards the brake current is cut by the negative limit, or later by the battery. -/
theorem limitCurrents_even_backwards (hlo : conf.loCurrentMin ≤ 0) (hhi : 0 ≤ conf.loCurrentMax)
    {magnitude phaseDiff modQ id : ℝ} (hmagnitude : 0 ≤ magnitude) (hdiff : phaseDiff < 0)
    (hcuts : min magnitude conf.loCurrentMax ≤ -conf.loCurrentMin ∨
      1e-10 ≤ conf.loCurrentMax ∧
        id ^ 2 + min magnitude conf.loCurrentMax ^ 2 ≤ conf.loCurrentMax ^ 2 ∧
        conf.BatteryBelow modQ) :
    limitCurrents Real.sqrt conf modQ id
        (brakeCurrent phaseDiff (min magnitude conf.loCurrentMax)) =
      limitCurrents Real.sqrt conf modQ id
        (brakeCurrent phaseDiff (min magnitude (-conf.loCurrentMin))) := by
  have hup := le_min hmagnitude hhi
  have hdown := le_min hmagnitude (neg_nonneg.2 hlo)
  rw [limitCurrents_eq, limitCurrents_eq]
  unfold brakeCurrent
  rw [if_neg (not_lt.2 hdiff.le), if_neg hdiff.ne, if_neg (not_lt.2 hdiff.le), if_neg hdiff.ne,
    truncateNumber_nonneg hlo hup, truncateNumber_nonneg hlo hdown,
    min_eq_left (min_le_right _ _), min_right_comm]
  rcases hcuts with hle | ⟨htiny, hinside, hbelow⟩
  · rw [min_eq_left hle]
  · rcases le_total (min magnitude conf.loCurrentMax) (-conf.loCurrentMin) with hle | hle
    · rw [min_eq_left hle]
    · have hinside' : id ^ 2 + (-conf.loCurrentMin) ^ 2 ≤ conf.loCurrentMax ^ 2 :=
        (add_le_add_right (pow_le_pow_left₀ (neg_nonneg.2 hlo) hle 2) _).trans hinside
      rw [min_eq_right hle, saturateVector2d_inside htiny hinside,
        saturateVector2d_inside htiny hinside']
      dsimp only
      rw [capBattery_of_below hbelow hle]

/-- Forwards it is cut by the positive limit, or with no d current to the circle. -/
theorem limitCurrents_even_forwards (hlo : conf.loCurrentMin ≤ 0) (hhi : 0 ≤ conf.loCurrentMax)
    {magnitude phaseDiff modQ id : ℝ} (hmagnitude : 0 ≤ magnitude) (hdiff : 0 < phaseDiff)
    (hcuts : min magnitude (-conf.loCurrentMin) ≤ conf.loCurrentMax ∨
      1e-10 ≤ conf.loCurrentMax ∧ id = 0) :
    limitCurrents Real.sqrt conf modQ id
        (brakeCurrent phaseDiff (min magnitude conf.loCurrentMax)) =
      limitCurrents Real.sqrt conf modQ id
        (brakeCurrent phaseDiff (min magnitude (-conf.loCurrentMin))) := by
  have hup := le_min hmagnitude hhi
  have hdown := le_min hmagnitude (neg_nonneg.2 hlo)
  rw [limitCurrents_eq, limitCurrents_eq]
  unfold brakeCurrent
  rw [if_pos hdiff, if_pos hdiff, truncateNumber_neg hhi hup, truncateNumber_neg hhi hdown,
    min_eq_left (min_le_right magnitude _), min_right_comm]
  rcases le_total (min magnitude (-conf.loCurrentMin)) conf.loCurrentMax with hle | hle
  · rw [min_eq_left hle]
  · rcases hcuts with hle' | ⟨htiny, rfl⟩
    · rw [min_eq_left hle']
    · rw [min_eq_right hle, saturateVector2d_backward htiny hle,
        saturateVector2d_backward htiny le_rfl]

/-- Both sizes of the current lead to the same targets. -/
theorem limitCurrents_even (hlo : conf.loCurrentMin ≤ 0) (hhi : 0 ≤ conf.loCurrentMax)
    {magnitude phaseDiff modQ id : ℝ} (hmagnitude : 0 ≤ magnitude)
    (hneg : phaseDiff < 0 → min magnitude conf.loCurrentMax ≤ -conf.loCurrentMin ∨
      1e-10 ≤ conf.loCurrentMax ∧
        id ^ 2 + min magnitude conf.loCurrentMax ^ 2 ≤ conf.loCurrentMax ^ 2 ∧
        conf.BatteryBelow modQ)
    (hpos : 0 < phaseDiff → min magnitude (-conf.loCurrentMin) ≤ conf.loCurrentMax ∨
      1e-10 ≤ conf.loCurrentMax ∧ id = 0) :
    limitCurrents Real.sqrt conf modQ id
        (brakeCurrent phaseDiff (min magnitude conf.loCurrentMax)) =
      limitCurrents Real.sqrt conf modQ id
        (brakeCurrent phaseDiff (min magnitude (-conf.loCurrentMin))) := by
  rcases lt_trichotomy phaseDiff 0 with hdiff | rfl | hdiff
  · exact limitCurrents_even_backwards hlo hhi hmagnitude hdiff (hneg hdiff)
  · unfold brakeCurrent
    rw [if_neg (lt_irrefl _), if_pos rfl, if_neg (lt_irrefl _), if_pos rfl]
  · exact limitCurrents_even_forwards hlo hhi hmagnitude hdiff (hpos hdiff)

end Limits

section Runs

variable {σ ι : Type} {estimate : σ → Seen ℝ → ι → σ × Sensed ℝ} {conf : Configuration ℝ}
  {current : ℝ}

/-- The same state under the set-points that the command makes of the current and of its
negative. -/
structure Opposite (conf : Configuration ℝ) (current : ℝ) (s t : σ × FocState ℝ) : Prop where
  estimator : s.1 = t.1
  command : s.2.command =
    (.currentBrake, truncateNumber current conf.loCurrentMin conf.loCurrentMax)
  other : t.2 =
    s.2.withIqSet (truncateNumber (-current) conf.loCurrentMin conf.loCurrentMax)

/-- The pass limits both set-points alike. -/
theorem limitCurrents_opposite (hlo : conf.loCurrentMin ≤ 0) (hhi : 0 ≤ conf.loCurrentMax)
    {s : FocState ℝ} (hcuts : s.CutsEvenly conf current) (hbrakes : s.BrakesByCurrent) :
    limitCurrents Real.sqrt conf s.motorState.modQ (s.idRequest conf) (brakeCurrent s.phaseDiff
        |truncateNumber current conf.loCurrentMin conf.loCurrentMax|) =
      limitCurrents Real.sqrt conf s.motorState.modQ (s.idRequest conf) (brakeCurrent s.phaseDiff
        |truncateNumber (-current) conf.loCurrentMin conf.loCurrentMax|) := by
  obtain ⟨hneg, hpos⟩ := hcuts hbrakes
  have heven := limitCurrents_even hlo hhi (abs_nonneg current) hneg hpos
  rcases abs_truncateNumber hlo hhi current with ⟨hone, hother⟩ | ⟨hone, hother⟩
  · rw [hone, hother, heven]
  · rw [hone, hother, heven]

theorem Opposite.step (hlo : conf.loCurrentMin ≤ 0) (hhi : 0 ≤ conf.loCurrentMax)
    {s t : σ × FocState ℝ} (h : Opposite conf current s t)
    (hcuts : s.2.CutsEvenly conf current) (input : ι) :
    Opposite conf current ((passes estimate Real.sqrt conf).step s input).1
        ((passes estimate Real.sqrt conf).step t input).1 ∧
      ((passes estimate Real.sqrt conf).step s input).2 =
        ((passes estimate Real.sqrt conf).step t input).2 := by
  obtain ⟨estimator, s⟩ := s
  obtain ⟨estimator', t⟩ := t
  obtain ⟨rfl, hcommand, rfl⟩ := h
  obtain ⟨hmode, hset⟩ := Prod.mk.inj hcommand
  generalize hiqSet : truncateNumber (-current) conf.loCurrentMin conf.loCurrentMax = iqSet
  generalize hsensed : estimate estimator s.seen input = sensed
  have hseen : estimate estimator (s.withIqSet iqSet).seen input = sensed := hsensed
  have hpass : ((s.withIqSet iqSet).overridden sensed.2).mcpwmFocAdcInjIntHandler Real.sqrt conf
        sensed.2.reading =
      (((s.overridden sensed.2).mcpwmFocAdcInjIntHandler Real.sqrt conf
          sensed.2.reading).1.withIqSet iqSet,
        ((s.overridden sensed.2).mcpwmFocAdcInjIntHandler Real.sqrt conf
          sensed.2.reading).2) := by
    refine FocState.handler_withIqSet (s := s.overridden sensed.2) hmode _ fun hbrakes => ?_
    have hset' : (s.overridden sensed.2).iqSet = s.iqSet := rfl
    rw [hset', hset, ← hiqSet]
    exact limitCurrents_opposite hlo hhi hcuts hbrakes
  simp only [passes, hsensed, hseen, hpass]
  refine ⟨⟨rfl, ?_, by rw [hiqSet]⟩, trivial⟩
  exact (FocState.handler_command _ _).trans hcommand

theorem setBrakeCurrent_released {K : Type} [Field K] [LinearOrder K] (conf : Configuration K)
    {ccMinCurrent current : K} (h : |current| < ccMinCurrent) (s : FocState K) :
    s.mcpwmFocSetBrakeCurrent conf ccMinCurrent current =
      { s with controlMode := .none, state := .off } := if_pos h

theorem setBrakeCurrent_brakes {K : Type} [Field K] [LinearOrder K] (conf : Configuration K)
    {ccMinCurrent current : K} (h : ¬|current| < ccMinCurrent) (s : FocState K) :
    s.mcpwmFocSetBrakeCurrent conf ccMinCurrent current =
      FocState.withIqSet { s with controlMode := .currentBrake, state := .running }
        (truncateNumber current conf.loCurrentMin conf.loCurrentMax) := if_neg h

/-- Where every pass cuts both currents evenly, they brake alike. -/
theorem brakesAlike_of_cutsEvenly (estimate : σ → Seen ℝ → ι → σ × Sensed ℝ)
    (conf : Configuration ℝ) (ccMinCurrent current : ℝ) (estimator : σ) (s : FocState ℝ)
    (inputs : List ι) (hlo : conf.loCurrentMin ≤ 0) (hhi : 0 ≤ conf.loCurrentMax)
    (hcuts : (passes estimate Real.sqrt conf).Always (fun s _ => s.2.CutsEvenly conf current)
      (estimator, s.mcpwmFocSetBrakeCurrent conf ccMinCurrent current) inputs) :
    BrakesAlike estimate conf ccMinCurrent current estimator s inputs := by
  rintro before after rfl
  have hbefore := ((Machine.always_append _ _ _ before after).1 hcuts).1
  dsimp only
  by_cases hreleases : |current| < ccMinCurrent
  · have hreleases' : |(-current)| < ccMinCurrent := by rwa [abs_neg]
    rw [setBrakeCurrent_released conf hreleases, setBrakeCurrent_released conf hreleases']
    exact ⟨rfl, rfl, rfl⟩
  · have hopposite : Opposite conf current
        (estimator, s.mcpwmFocSetBrakeCurrent conf ccMinCurrent current)
        (estimator, s.mcpwmFocSetBrakeCurrent conf ccMinCurrent (-current)) := by
      have hreleases' : ¬|(-current)| < ccMinCurrent := by rwa [abs_neg]
      rw [setBrakeCurrent_brakes conf hreleases, setBrakeCurrent_brakes conf hreleases']
      exact ⟨rfl, rfl, rfl⟩
    obtain ⟨hstates, hcalls⟩ := Machine.run_related
      (fun _ _ input hopposite hcuts => hopposite.step hlo hhi hcuts input) hopposite hbefore
    rw [hstates.other]
    exact ⟨rfl, rfl, hcalls⟩

/-- Limits of one size cut every current evenly. -/
theorem cutsEvenly_of_symmetric (h : -conf.loCurrentMin = conf.loCurrentMax) (current : ℝ)
    (s : FocState ℝ) : s.CutsEvenly conf current :=
  fun _ => ⟨fun _ => .inl (h ▸ min_le_right _ _), fun _ => .inl (h ▸ min_le_right _ _)⟩

section Example

variable {K : Type} [Field K]

/-- Inputs that are the readings themselves. -/
def readings : Unit → Seen K → Reading K → Unit × Sensed K :=
  fun _ _ reading => ((), ⟨reading, false, 0, 0⟩)

def stillReading : Reading K := ⟨0, 0, 1, 0, 0, 0, 0, 0, 0, false, 8400⟩

/-- A motor that turns backwards at full duty. -/
def backwards : FocState K :=
  { pulling with
    motorState := { fullRequest (-1) with dutyNow := 1 }
    dutyFiltered := 1 }

/-- A smaller limit for the negative current, and hall sensors. -/
def smallNegative : Configuration K :=
  { fullDuty with
    loCurrentMin := -20
    focSensorMode := .hall }

end Example

theorem brakesAlike_of_cutsEvenly_backwards :
    BrakesAlike readings fullDuty 0 50 () backwards [stillReading, stillReading] := by
  have hsymmetric : -(fullDuty : Configuration ℝ).loCurrentMin = fullDuty.loCurrentMax := by
    norm_num [fullDuty]
  refine brakesAlike_of_cutsEvenly readings fullDuty 0 50 () backwards
    [stillReading, stillReading] ?_ ?_ ?_
  · norm_num [fullDuty]
  · norm_num [fullDuty]
  · exact Machine.always_of_forall
      (fun s _ _ => cutsEvenly_of_symmetric hsymmetric 50 s.2) _

theorem limitCurrents_smallNegative {iq : ℝ} (hnonneg : 0 ≤ iq) (hle : iq ≤ 60) :
    limitCurrents Real.sqrt smallNegative 0 0 iq = (0, iq) := by
  have hmax : (smallNegative : Configuration ℝ).loCurrentMax = 60 := by
    norm_num [smallNegative, fullDuty]
  have hmin : (smallNegative : Configuration ℝ).loCurrentMin = -20 := rfl
  have hinside : (0 : ℝ) ^ 2 + iq ^ 2 ≤ 60 ^ 2 := by
    rw [zero_pow two_ne_zero, zero_add]
    exact pow_le_pow_left₀ hnonneg hle 2
  rw [limitCurrents_eq, hmax, hmin, truncateNumber_nonneg (by norm_num) hnonneg,
    min_eq_left hle, saturateVector2d_inside (by norm_num) hinside]
  norm_num [capBattery]

theorem run_readings (conf : Configuration ℝ) (s : FocState ℝ) (r : Reading ℝ) :
    ((passes readings Real.sqrt conf).run ((), s) [r]).1.2 =
      ((s.overridden ⟨r, false, 0, 0⟩).mcpwmFocAdcInjIntHandler Real.sqrt conf r).1 := rfl

/-- A pass of that motor with those limits passes the size of the set current on. -/
theorem iqTarget_backwards {current : ℝ} (hle : |truncateNumber current (-20) 60| ≤ 60) :
    ((passes readings Real.sqrt smallNegative).run
      ((), backwards.mcpwmFocSetBrakeCurrent smallNegative 0 current)
      [stillReading]).1.2.motorState.iqTarget = |truncateNumber current (-20) 60| := by
  have hmax : (smallNegative : Configuration ℝ).loCurrentMax = 60 := by
    norm_num [smallNegative, fullDuty]
  have hdiff : angleDifferenceRad (-1) 0 = (-1 : ℝ) := by
    norm_num [angleDifferenceRad, normAngleRad, mPi]
  rw [run_readings, setBrakeCurrent_brakes smallNegative (not_lt.2 (abs_nonneg current)), hmax]
  rw [show (smallNegative : Configuration ℝ).loCurrentMin = -20 from rfl]
  generalize truncateNumber current (-20) 60 = iqSet at hle
  generalize hs : (FocState.withIqSet (K := ℝ)
    { backwards with controlMode := .currentBrake, state := .running } iqSet).overridden
      ⟨stillReading, false, 0, 0⟩ = s
  have hbrakes : s.BrakesByCurrent := by
    subst hs
    refine ⟨rfl, rfl, rfl, ?_⟩
    norm_num [FocState.overridden, FocState.withIqSet, backwards, pulling, fullRequest,
      truncateNumber, lpFast]
  have hphase : s.phaseDiff = -1 := by
    subst hs
    exact hdiff
  have hid : s.idRequest smallNegative = 0 := by
    subst hs
    rfl
  have hset : s.iqSet = iqSet ∧ s.motorState.modQ = 0 := by
    subst hs
    exact ⟨rfl, rfl⟩
  rw [FocState.handler_iqTarget hbrakes, hid, hphase, hset.1, hset.2, brakeCurrent,
    if_neg (by norm_num), if_neg (by norm_num),
    limitCurrents_smallNegative (abs_nonneg iqSet) hle]

/-- 50 A brakes with 50 A there, and -50 A with 20 A. -/
theorem not_brakesAlike_smallNegative :
    ¬BrakesAlike readings smallNegative 0 50 () backwards [stillReading] := by
  intro halike
  obtain ⟨hmotor, -, -⟩ := halike [stillReading] [] rfl
  have hiq := congrArg MotorState.iqTarget hmotor
  rw [iqTarget_backwards, iqTarget_backwards] at hiq <;> norm_num [truncateNumber] at *

end Runs

end Bldc.Foc
