import Bldc.Drive.Guard

/-!
# The commutation step of the BLDC motor

`comm_step` counts the six steps of a commutation. It is written by the sensorless
commutation, by the detection and from a table that translates hall readings, and
read as an index of arrays.
-/

namespace Bldc.Drive

open Flash Conf Foundation

/-- `COMM_MODE_INTEGRATE`. -/
def commModeIntegrate : Byte := 0

/-- An element of an array that is read or written, by its index. -/
inductive Access where
  | lastPwmCyclesSums (i : Int)
  | hallDetectTable (i : Int)
  | mcpwmDetectCurrents (i : Int)
  | fwdToRev (i : Int)
  deriving DecidableEq, Repr

/-- The array has the element. -/
def Access.InRange : Access → Prop
  | lastPwmCyclesSums i | mcpwmDetectCurrents i => 0 ≤ i ∧ i < 6
  | hallDetectTable i | fwdToRev i => 0 ≤ i ∧ i < 7

instance : DecidablePred Access.InRange
  | .lastPwmCyclesSums i | .mcpwmDetectCurrents i => inferInstanceAs (Decidable (0 ≤ i ∧ i < 6))
  | .hallDetectTable i | .fwdToRev i => inferInstanceAs (Decidable (0 ≤ i ∧ i < 7))

/-- `fwd_to_rev`, and what is found outside of it. -/
def fwdToRev (stray : Int → Int) (i : Int) : Int :=
  if 0 ≤ i ∧ i < 7 then [-1, 1, 6, 5, 4, 3, 2].getD i.toNat 0 else stray i

/-- The first loop of `commutate`. -/
def wrapDown (step : Int) : Int := if step > 6 then wrapDown (step - 6) else step
termination_by step.toNat

/-- The second one. -/
def wrapUp (step : Int) : Int := if step < 1 then wrapUp (step + 6) else step
termination_by (1 - step).toNat

/-- The motor with the variables of its commutation. `hallToPhaseTable` is split into
its two halves, for the backward and the forward direction. -/
structure Commutator where
  motor : Motor
  commStep : Int
  detectStep : Nat
  hallToPhaseTable : Bool → Fin 8 → Int
  hasCommutated : Bool
  directionBefore : Bool

/-- What `mcpwm_adc_int_handler` gets from the pins and the signal processing: the hall
reading, whether no commutation has come for too long, whether two cycles have passed
since the last one, whether the voltage difference is small, and whether the next
commutation is due. -/
structure CommSample where
  hall : Fin 8
  stuck : Bool
  settled : Bool
  weak : Bool
  due : Bool

namespace Commutator

variable (s : Commutator)

/-- `mcpwm_read_hall_phase`. -/
def readHallPhase (hall : Fin 8) : Int := s.hallToPhaseTable s.motor.mcpwm.direction hall

/-- `mcpwm_init_hall_table`. -/
def mcpwmInitHallTable (table : Fin 8 → Byte) (stray : Int → Int) : Commutator × List Access :=
  ({ s with
    hallToPhaseTable := fun forward i =>
      if forward ∨ (table i).toInt < 1 then (table i).toInt else fwdToRev stray (table i).toInt },
    (List.finRange 8).filterMap fun i =>
      if (table i).toInt < 1 then none else some (.fwdToRev (table i).toInt))

/-- `mcpwm_init`, with a new configuration. -/
def mcpwmInit (c : McConfiguration) (stray : Int → Int) : Commutator × List Access :=
  { s with
    motor := { s.motor with conf := c }.mcpwmInit
    commStep := 1
    detectStep := 0
    hasCommutated := false }.mcpwmInitHallTable c.hallTable stray

/-- `mcpwm_set_configuration`. -/
def mcpwmSetConfiguration (c : McConfiguration) (stray : Int → Int) :
    Commutator × List Access :=
  { s with motor := { s.motor with conf := c }.mcpwmSetConfiguration }.mcpwmInitHallTable
    c.hallTable stray

/-- The commutation counts the steps itself. -/
def counts : Prop := s.motor.motorType = .bldc ∧ s.motor.mcpwm.sensorlessNow

instance : Decidable s.counts := inferInstanceAs (Decidable (_ ∧ _))

/-- `commutate`. -/
def commutate (steps : Int) : Commutator × List Access :=
  ({ s with
    motor := s.motor.commutate
    commStep := if s.counts then wrapUp (wrapDown (s.commStep + steps)) else s.commStep
    hasCommutated := if s.counts ∧ s.motor.mcpwm.state ≠ .running then s.hasCommutated else true },
    [.lastPwmCyclesSums (s.commStep - 1)])

/-- The motor runs from now on. -/
def running : Commutator := { s with motor.mcpwm.state := .running }

/-- The end of `set_duty_cycle_ll`: start what does not run. -/
def startRunning (hall : Fin 8) : Commutator × List Access :=
  if s.motor.motorType = .dc then s.running.commutate 1
  else if s.motor.mcpwm.sensorlessNow then
    match s.motor.mcpwm.state with
    | .off =>
        if |s.motor.mcpwm.rpmNow| < s.motor.conf.slMinErpm then s.running.commutate 1
        else (s.running, [])
    | .fullBrake =>
        if |s.motor.mcpwm.rpmNow| < s.motor.conf.slMinErpm ∧
            s.motor.mcpwm.lastCurrentSampleFiltered <
              s.motor.conf.slMaxFullbreakCurrentDirChange then
          s.running.commutate 1
        else (s, [])
    | .running | .detecting => (s, [])
  else if s.motor.mcpwm.state ≠ .running then
    { s.running with commStep := s.readHallPhase hall }.commutate 1
  else (s, [])

/-- The beginning of `set_duty_cycle_ll` sets the direction. -/
def aim (dutyCycle : Rat) : Commutator :=
  { s with
    motor.mcpwm.direction :=
      if dutyCycle ≥ s.motor.conf.lMinDuty then true
      else if dutyCycle ≤ -s.motor.conf.lMinDuty then false
      else s.motor.mcpwm.direction }

/-- The duty cycle without its direction. -/
def magnitude (dutyCycle : Rat) : Rat :=
  if ¬dutyCycle ≥ s.motor.conf.lMinDuty ∧ dutyCycle ≤ -s.motor.conf.lMinDuty then -dutyCycle
  else dutyCycle

/-- `set_duty_cycle_ll`. -/
def setDutyCycleLl (dutyCycle : Rat) (hall : Fin 8) : Commutator × List Access :=
  let t := s.aim dutyCycle
  if s.magnitude dutyCycle < s.motor.conf.lMinDuty then
    match s.motor.mcpwm.state with
    | .running =>
        if |s.motor.mcpwm.rpmNow| > s.motor.maxErpmFbrake then t.startRunning hall
        else ({ t with motor := t.motor.fullBrakeLl }, [])
    | .detecting => ({ t with motor := t.motor.stopPwmLl }, [])
    | .off | .fullBrake => (t, [])
  else t.startRunning hall

/-- One after the other, with the accesses of both. -/
def andThen (t : Commutator × List Access) (next : Commutator → Commutator × List Access) :
    Commutator × List Access :=
  ((next t.1).1, t.2 ++ (next t.1).2)

/-- The watch for a motor that is stuck. -/
def watchStuck (sample : CommSample) : Commutator × List Access :=
  if sample.stuck ∧ s.motor.mcpwm.state = .running then
    if s.motor.conf.commMode = commModeIntegrate then s.commutate 2
    else if s.motor.conf.commMode = commModeDelay then s.commutate 1
    else (s, [])
  else (s, [])

/-- The search for the next commutation by the back-emf. -/
def followBemf (sample : CommSample) : Commutator × List Access :=
  if s.motor.mcpwm.state = .running ∧ sample.settled ∨ s.motor.mcpwm.state = .off then
    andThen (s, if sample.weak then [.hallDetectTable s.commStep] else []) fun s =>
      if sample.due ∧
          (s.motor.conf.commMode = commModeIntegrate ∨ s.motor.conf.commMode = commModeDelay) then
        s.commutate 1
      else (s, [])
  else (s, [])

/-- The commutation by the hall sensors. -/
def followHall (hall : Fin 8) : Commutator × List Access :=
  if s.commStep ≠ s.readHallPhase hall then
    let s := { s with commStep := s.readHallPhase hall }
    if s.motor.mcpwm.state = .running then s.commutate 0 else (s, [])
  else if s.motor.mcpwm.state = .running ∧ ¬s.hasCommutated then s.commutate 0
  else (s, [])

/-- Whether the motor has commutated since it runs in this direction. -/
def noteDirection : Commutator :=
  { s with
    hasCommutated := s.hasCommutated ∧ s.motor.mcpwm.state = .running ∧
      s.motor.mcpwm.direction = s.directionBefore
    directionBefore := s.motor.mcpwm.direction }

/-- The commutation in `mcpwm_adc_int_handler`. -/
def mcpwmAdcIntHandler (sample : CommSample) : Commutator × List Access :=
  let s := s.noteDirection
  if s.motor.motorType = .bldc then
    if s.motor.mcpwm.sensorlessNow then andThen (s.watchStuck sample) (·.followBemf sample)
    else s.followHall sample.hall
  else if s.motor.mcpwm.state = .running ∧ ¬s.hasCommutated then s.commutate 0
  else (s, [])

/-- The detection in `mcpwm_adc_inj_int_handler`. -/
def mcpwmAdcInjIntHandler : Commutator × List Access :=
  if s.motor.motorType = .dc then (s, [])
  else
    let accesses : List Access :=
      if s.motor.mcpwm.detectNow = 4 then
        [.mcpwmDetectCurrents s.detectStep,
          .mcpwmDetectCurrents (if s.detectStep > 0 then s.detectStep - 1 else 5)]
      else []
    let detectStep := if s.detectStep + 1 > 5 then 0 else s.detectStep + 1
    if s.motor.mcpwm.state = .detecting ∧ s.motor.mcpwm.detectNow - 1 = 0 then
      ({ s with
          motor := s.motor.mcpwmDetect
          detectStep := detectStep
          commStep := detectStep + 1 },
        accesses)
    else ({ s with motor := s.motor.mcpwmDetect }, accesses)

/-- The sampling in `mc_interface_mc_timer_isr` reads what the detection has measured. -/
def sampleDetection : Commutator × List Access :=
  (s, if s.motor.mcInterfaceGetState = .detecting then [.mcpwmDetectCurrents (s.commStep - 1)]
    else [])

end Commutator

inductive CommStep where
  | mcpwmInit (c : McConfiguration) (stray : Int → Int)
  | mcpwmSetConfiguration (c : McConfiguration) (stray : Int → Int)
  | setDutyCycleLl (dutyCycle : Rat) (hall : Fin 8)
  | adcInt (sample : CommSample)
  | adcInjInt
  | sampleDetection
  -- whatever else becomes of the motor: state, speed, direction and sensor mode
  | drive (motor : Motor)

def Commutator.step (s : Commutator) : CommStep → Commutator × List Access
  | .mcpwmInit c stray => s.mcpwmInit c stray
  | .mcpwmSetConfiguration c stray => s.mcpwmSetConfiguration c stray
  | .setDutyCycleLl dutyCycle hall => s.setDutyCycleLl dutyCycle hall
  | .adcInt sample => s.mcpwmAdcIntHandler sample
  | .adcInjInt => s.mcpwmAdcInjIntHandler
  | .sampleDetection => s.sampleDetection
  | .drive motor => ({ s with motor := motor }, [])

/-- The commutation, with the elements of arrays that it accesses. -/
def commutator : Machine Commutator CommStep Access where
  step := Commutator.step

namespace Commutator

variable (s : Commutator)

/-! ## The motor under the commutation -/

theorem startRunning_motor (hall : Fin 8) :
    (s.startRunning hall).1.motor = s.motor.startRunning := by
  unfold startRunning Motor.startRunning
  split
  · rfl
  · split
    · cases s.motor.mcpwm.state with
      | off | fullBrake =>
          dsimp only
          split <;> rfl
      | running | detecting => rfl
    · split <;> rfl

theorem setDutyCycleLl_motor (dutyCycle : Rat) (hall : Fin 8) :
    (s.setDutyCycleLl dutyCycle hall).1.motor = s.motor.setDutyCycleLl dutyCycle := by
  have hstart := startRunning_motor (s.aim dutyCycle) hall
  have hmotor : s.motor.setDutyCycleLl dutyCycle =
      if s.magnitude dutyCycle < s.motor.conf.lMinDuty then
        match s.motor.mcpwm.state with
        | .running =>
            if |s.motor.mcpwm.rpmNow| > s.motor.maxErpmFbrake then
              (s.aim dutyCycle).motor.startRunning
            else (s.aim dutyCycle).motor.fullBrakeLl
        | .detecting => (s.aim dutyCycle).motor.stopPwmLl
        | .off | .fullBrake => (s.aim dutyCycle).motor
      else (s.aim dutyCycle).motor.startRunning := rfl
  rw [hmotor]
  unfold setDutyCycleLl
  dsimp only
  split
  next hlow =>
    cases s.motor.mcpwm.state with
    | running =>
        dsimp only
        split
        · exact hstart
        · rfl
    | detecting | off | fullBrake => rfl
  next hhigh => exact hstart

/-! ## What keeps the step -/

/-- The steps of the commutation and of the detection are among the six. -/
structure InSteps (s : Commutator) : Prop where
  commStep : 1 ≤ s.commStep ∧ s.commStep ≤ 6
  detectStep : s.detectStep ≤ 5

/-- The steps are kept, and the arrays have what is accessed. -/
structure Safe (t : Commutator × List Access) : Prop where
  inSteps : t.1.InSteps
  inRange : ∀ access ∈ t.2, access.InRange

theorem wrapDown_le (step : Int) : wrapDown step ≤ 6 := by
  fun_induction wrapDown step with
  | case1 step _ ih => exact ih
  | case2 step h => exact not_lt.1 h

theorem wrapUp_range (step : Int) (h : step ≤ 6) : 1 ≤ wrapUp step ∧ wrapUp step ≤ 6 := by
  fun_induction wrapUp step with
  | case1 step hlow ih => exact ih (by omega)
  | case2 step hhigh => exact ⟨not_lt.1 hhigh, h⟩

variable {s}

theorem safe_of_inSteps (h : s.InSteps) : Safe (s, []) := ⟨h, by simp⟩

theorem Safe.andThen {t : Commutator × List Access} {next : Commutator → Commutator × List Access}
    (h : Safe t) (hnext : t.1.InSteps → Safe (next t.1)) : Safe (Commutator.andThen t next) where
  inSteps := (hnext h.inSteps).inSteps
  inRange := by
    intro access haccess
    obtain hfirst | hsecond := List.mem_append.1 haccess
    · exact h.inRange access hfirst
    · exact (hnext h.inSteps).inRange access hsecond

/-- A commutation keeps the step among the six, whatever the sensor mode. -/
theorem safe_commutate (h : s.InSteps) (steps : Int) : Safe (s.commutate steps) where
  inSteps := by
    refine ⟨?_, h.detectStep⟩
    unfold commutate
    dsimp only
    split
    · exact wrapUp_range _ (wrapDown_le _)
    · exact h.commStep
  inRange := by
    intro access haccess
    obtain rfl := List.mem_singleton.1 haccess
    have hstep := h.commStep
    exact ⟨by omega, by omega⟩

/-- Without the sensorless mode a commutation does not count. -/
theorem commStep_commutate (h : ¬s.counts) (steps : Int) :
    (s.commutate steps).1.commStep = s.commStep :=
  if_neg h

theorem inSteps_running (h : s.InSteps) : s.running.InSteps := ⟨h.commStep, h.detectStep⟩

theorem inSteps_aim (h : s.InSteps) (dutyCycle : Rat) : (s.aim dutyCycle).InSteps :=
  ⟨h.commStep, h.detectStep⟩

theorem inSteps_noteDirection (h : s.InSteps) : s.noteDirection.InSteps :=
  ⟨h.commStep, h.detectStep⟩

/-- The step that is read from the table is kept exactly if it is one of the six. -/
theorem safe_commutate_phase (hdetect : s.detectStep ≤ 5) (hcounts : ¬s.counts) (steps : Int) :
    Safe (s.commutate steps) ↔ 1 ≤ s.commStep ∧ s.commStep ≤ 6 := by
  refine ⟨fun h => ?_, fun hphase => safe_commutate ⟨hphase, hdetect⟩ steps⟩
  have hstep := h.inSteps.commStep
  rwa [commStep_commutate hcounts] at hstep

/-- A start reads the hall sensors. -/
def startsByHall (s : Commutator) : Prop :=
  s.motor.motorType ≠ .dc ∧ ¬s.motor.mcpwm.sensorlessNow ∧ s.motor.mcpwm.state ≠ .running

instance (s : Commutator) : Decidable s.startsByHall := inferInstanceAs (Decidable (_ ∧ _))

theorem safe_startRunning (h : s.InSteps) (hall : Fin 8) :
    Safe (s.startRunning hall) ↔
      (s.startsByHall → 1 ≤ s.readHallPhase hall ∧ s.readHallPhase hall ≤ 6) := by
  have hcommutate := safe_commutate (inSteps_running h) 1
  by_cases hstarts : s.startsByHall
  · obtain ⟨htype, hsensor, hstate⟩ := hstarts
    have hphase := safe_commutate_phase (s := { s.running with commStep := s.readHallPhase hall })
      h.detectStep (fun hcounts => hsensor hcounts.2) 1
    rw [startRunning, if_neg htype, if_neg hsensor, if_pos hstate, hphase]
    exact ⟨fun hrange _ => hrange, fun hrange => hrange ⟨htype, hsensor, hstate⟩⟩
  · refine iff_of_true ?_ fun hstarts' => (hstarts hstarts').elim
    unfold startRunning
    split
    · exact hcommutate
    next htype =>
      split
      · split
        · split
          · exact hcommutate
          · exact safe_of_inSteps (inSteps_running h)
        · split
          · exact hcommutate
          · exact safe_of_inSteps h
        · exact safe_of_inSteps h
        · exact safe_of_inSteps h
      next hsensor =>
        split
        next hstate => exact (hstarts ⟨htype, hsensor, hstate⟩).elim
        next => exact safe_of_inSteps h

/-- `set_duty_cycle_ll` reads the hall sensors. -/
def drivesByHall (s : Commutator) (dutyCycle : Rat) : Prop :=
  ¬s.magnitude dutyCycle < s.motor.conf.lMinDuty ∧ s.startsByHall

instance (s : Commutator) (dutyCycle : Rat) : Decidable (s.drivesByHall dutyCycle) :=
  inferInstanceAs (Decidable (_ ∧ _))

theorem safe_setDutyCycleLl (h : s.InSteps) (dutyCycle : Rat) (hall : Fin 8) :
    Safe (s.setDutyCycleLl dutyCycle hall) ↔
      (s.drivesByHall dutyCycle → 1 ≤ (s.aim dutyCycle).readHallPhase hall ∧
        (s.aim dutyCycle).readHallPhase hall ≤ 6) := by
  have haim := inSteps_aim h dutyCycle
  have hstart := safe_startRunning haim hall
  by_cases hlow : s.magnitude dutyCycle < s.motor.conf.lMinDuty
  · refine iff_of_true ?_ fun hdrives => (hdrives.1 hlow).elim
    unfold setDutyCycleLl
    dsimp only
    rw [if_pos hlow]
    split
    next hrunning =>
      split
      · exact hstart.2 fun hstarts => (hstarts.2.2 hrunning).elim
      · exact safe_of_inSteps ⟨h.commStep, h.detectStep⟩
    next => exact safe_of_inSteps ⟨h.commStep, h.detectStep⟩
    next => exact safe_of_inSteps haim
    next => exact safe_of_inSteps haim
  · have hdrives : s.drivesByHall dutyCycle ↔ (s.aim dutyCycle).startsByHall :=
      ⟨fun hdrives => hdrives.2, fun hstarts => ⟨hlow, hstarts⟩⟩
    rw [hdrives, ← hstart]
    unfold setDutyCycleLl
    dsimp only
    rw [if_neg hlow]

/-! ## The interrupts -/

theorem safe_watchStuck (h : s.InSteps) (sample : CommSample) : Safe (s.watchStuck sample) := by
  unfold watchStuck
  split
  · split
    · exact safe_commutate h 2
    · split
      · exact safe_commutate h 1
      · exact safe_of_inSteps h
  · exact safe_of_inSteps h

theorem safe_followBemf (h : s.InSteps) (sample : CommSample) : Safe (s.followBemf sample) := by
  have hstep := h.commStep
  unfold followBemf
  split
  · apply Safe.andThen
    · refine ⟨h, fun access haccess => ?_⟩
      split at haccess
      · obtain rfl := List.mem_singleton.1 haccess
        exact ⟨by omega, by omega⟩
      · simp at haccess
    · intro hnext
      dsimp only
      split
      · exact safe_commutate hnext 1
      · exact safe_of_inSteps hnext
  · exact safe_of_inSteps h

theorem safe_followHall (h : s.InSteps) (hcounts : ¬s.counts) (hall : Fin 8) :
    Safe (s.followHall hall) ↔ 1 ≤ s.readHallPhase hall ∧ s.readHallPhase hall ≤ 6 := by
  unfold followHall
  split
  next hchanged =>
    dsimp only
    split
    · exact safe_commutate_phase (s := { s with commStep := s.readHallPhase hall }) h.detectStep
        hcounts 0
    · exact ⟨fun hsafe => hsafe.inSteps.commStep,
        fun hrange => safe_of_inSteps ⟨hrange, h.detectStep⟩⟩
  next hsame =>
    rw [← not_not.1 hsame]
    refine iff_of_true ?_ h.commStep
    split
    · exact safe_commutate h 0
    · exact safe_of_inSteps h

/-- `mcpwm_adc_int_handler` reads the hall sensors. -/
def followsHall (s : Commutator) : Prop := s.motor.motorType = .bldc ∧ ¬s.motor.mcpwm.sensorlessNow

instance (s : Commutator) : Decidable s.followsHall := inferInstanceAs (Decidable (_ ∧ _))

theorem safe_adcIntHandler (h : s.InSteps) (sample : CommSample) :
    Safe (s.mcpwmAdcIntHandler sample) ↔
      (s.followsHall → 1 ≤ s.readHallPhase sample.hall ∧ s.readHallPhase sample.hall ≤ 6) := by
  have hnote := inSteps_noteDirection h
  by_cases hfollows : s.followsHall
  · have hcounts : ¬s.noteDirection.counts := fun hcounts => hfollows.2 hcounts.2
    have hsafe := safe_followHall hnote hcounts sample.hall
    have heq : s.mcpwmAdcIntHandler sample = s.noteDirection.followHall sample.hall := by
      unfold mcpwmAdcIntHandler
      exact (if_pos hfollows.1).trans (if_neg hfollows.2)
    rw [heq, hsafe]
    exact ⟨fun hrange _ => hrange, fun hrange => hrange hfollows⟩
  · refine iff_of_true ?_ fun hfollows' => (hfollows hfollows').elim
    unfold mcpwmAdcIntHandler
    dsimp only
    split
    next htype =>
      split
      · exact (safe_watchStuck hnote sample).andThen fun hnext => safe_followBemf hnext sample
      next hsensor => exact (hfollows ⟨htype, hsensor⟩).elim
    next =>
      split
      · exact safe_commutate hnote 0
      · exact safe_of_inSteps hnote

theorem safe_adcInjIntHandler (h : s.InSteps) : Safe s.mcpwmAdcInjIntHandler := by
  have hdetect := h.detectStep
  have haccesses : ∀ access ∈ (if s.motor.mcpwm.detectNow = 4 then
      [Access.mcpwmDetectCurrents s.detectStep,
        .mcpwmDetectCurrents (if s.detectStep > 0 then s.detectStep - 1 else 5)]
      else []), access.InRange := by
    intro access haccess
    split at haccess
    · obtain rfl | haccess := List.mem_cons.1 haccess
      · exact ⟨by omega, by omega⟩
      · obtain rfl := List.mem_singleton.1 haccess
        constructor <;> split <;> omega
    · simp at haccess
  unfold mcpwmAdcInjIntHandler
  split
  · exact safe_of_inSteps h
  · dsimp only
    split
    · refine ⟨⟨?_, ?_⟩, haccesses⟩
      · dsimp only
        constructor <;> split <;> omega
      · dsimp only
        split <;> omega
    · exact ⟨⟨h.commStep, h.detectStep⟩, haccesses⟩

/-! ## The hall table -/

/-- The table has no step above the six. -/
def TableOk (c : McConfiguration) : Prop := ∀ i, (c.hallTable i).toInt ≤ 6

theorem safe_initHallTable (h : s.InSteps) (table : Fin 8 → Byte) (stray : Int → Int) :
    Safe (s.mcpwmInitHallTable table stray) ↔ ∀ i, (table i).toInt ≤ 6 := by
  constructor
  · intro hsafe i
    by_contra hhigh
    have hmem : Access.fwdToRev (table i).toInt ∈ (s.mcpwmInitHallTable table stray).2 :=
      List.mem_filterMap.2 ⟨i, List.mem_finRange i, if_neg (by omega)⟩
    have hrange := hsafe.inRange _ hmem
    exact hhigh (by have := hrange.2; omega)
  · intro htable
    refine ⟨⟨h.commStep, h.detectStep⟩, fun access haccess => ?_⟩
    obtain ⟨i, -, hi⟩ := List.mem_filterMap.1 haccess
    have hle := htable i
    split at hi
    · simp at hi
    next hlow =>
      obtain rfl := Option.some.inj hi
      exact ⟨by omega, by omega⟩

/-! ## The detection -/

theorem detectStep_startRunning (hall : Fin 8) :
    (s.startRunning hall).1.detectStep = s.detectStep := by
  unfold startRunning
  repeat' split
  all_goals rfl

theorem detectStep_setDutyCycleLl (dutyCycle : Rat) (hall : Fin 8) :
    (s.setDutyCycleLl dutyCycle hall).1.detectStep = s.detectStep := by
  have hstart := detectStep_startRunning (s := s.aim dutyCycle) hall
  unfold setDutyCycleLl
  repeat' split
  all_goals first
    | rfl
    | exact hstart

theorem detectStep_watchStuck (sample : CommSample) :
    (s.watchStuck sample).1.detectStep = s.detectStep := by
  unfold watchStuck
  repeat' split
  all_goals rfl

theorem detectStep_followBemf (sample : CommSample) :
    (s.followBemf sample).1.detectStep = s.detectStep := by
  unfold followBemf andThen
  dsimp only
  repeat' split
  all_goals rfl

theorem detectStep_followHall (hall : Fin 8) :
    (s.followHall hall).1.detectStep = s.detectStep := by
  unfold followHall
  dsimp only
  repeat' split
  all_goals rfl

theorem detectStep_adcIntHandler (sample : CommSample) :
    (s.mcpwmAdcIntHandler sample).1.detectStep = s.detectStep := by
  unfold mcpwmAdcIntHandler
  dsimp only
  split
  · split
    · exact (detectStep_followBemf sample).trans (detectStep_watchStuck sample)
    · exact detectStep_followHall sample.hall
  · split <;> rfl

theorem detectStep_step (h : s.detectStep ≤ 5) (step : CommStep) :
    (s.step step).1.detectStep ≤ 5 := by
  cases step with
  | mcpwmInit c stray => exact Nat.zero_le 5
  | setDutyCycleLl dutyCycle hall => exact (detectStep_setDutyCycleLl dutyCycle hall).trans_le h
  | adcInt sample => exact (detectStep_adcIntHandler sample).trans_le h
  | adcInjInt =>
      change s.mcpwmAdcInjIntHandler.1.detectStep ≤ 5
      unfold mcpwmAdcInjIntHandler
      split
      · exact h
      · dsimp only
        split
        · dsimp only
          split <;> omega
        · exact h
  | mcpwmSetConfiguration | sampleDetection | drive => exact h

/-! ## Runs -/

/-- A table that is installed has no step above the six, and a hall reading that is
followed stands for one of the six. -/
def StepOk (s : Commutator) : CommStep → Prop
  | .mcpwmInit c _ | .mcpwmSetConfiguration c _ => TableOk c
  | .setDutyCycleLl dutyCycle hall =>
      s.drivesByHall dutyCycle → 1 ≤ (s.aim dutyCycle).readHallPhase hall ∧
        (s.aim dutyCycle).readHallPhase hall ≤ 6
  | .adcInt sample =>
      s.followsHall → 1 ≤ s.readHallPhase sample.hall ∧ s.readHallPhase sample.hall ≤ 6
  | .adcInjInt | .sampleDetection | .drive _ => True

theorem safe_mcpwmInit (c : McConfiguration) (stray : Int → Int) :
    Safe (s.mcpwmInit c stray) ↔ TableOk c := by
  apply safe_initHallTable
  exact ⟨show (1 : Int) ≤ 1 ∧ (1 : Int) ≤ 6 by decide, Nat.zero_le 5⟩

theorem safe_step (h : s.InSteps) (step : CommStep) : s.StepOk step ↔ Safe (s.step step) := by
  cases step with
  | mcpwmInit c stray => exact (safe_mcpwmInit c stray).symm
  | mcpwmSetConfiguration c stray =>
      refine (safe_initHallTable ?_ c.hallTable stray).symm
      exact ⟨h.commStep, h.detectStep⟩
  | setDutyCycleLl dutyCycle hall => exact (safe_setDutyCycleLl h dutyCycle hall).symm
  | adcInt sample => exact (safe_adcIntHandler h sample).symm
  | adcInjInt => exact iff_of_true trivial (safe_adcInjIntHandler h)
  | sampleDetection =>
      refine iff_of_true trivial ⟨h, fun access haccess => ?_⟩
      change access ∈ (if s.motor.mcInterfaceGetState = .detecting then
        [Access.mcpwmDetectCurrents (s.commStep - 1)] else []) at haccess
      have hstep := h.commStep
      split at haccess
      · obtain rfl := List.mem_singleton.1 haccess
        exact ⟨by omega, by omega⟩
      · simp at haccess
  | drive motor => exact iff_of_true trivial (safe_of_inSteps ⟨h.commStep, h.detectStep⟩)

end Commutator

/-- From `mcpwm_init` on the commutation step is one of the six, and the arrays have what
is accessed. -/
structure CommutesSafely (s : Commutator) (c : McConfiguration) (stray : Int → Int)
    (steps : List CommStep) : Prop where
  init : ∀ access ∈ (s.mcpwmInit c stray).2, access.InRange
  commStep : ∀ before after, steps = before ++ after →
    1 ≤ (commutator.run (s.mcpwmInit c stray).1 before).1.commStep ∧
      (commutator.run (s.mcpwmInit c stray).1 before).1.commStep ≤ 6
  inRange : ∀ access ∈ (commutator.run (s.mcpwmInit c stray).1 steps).2, access.InRange

theorem inSteps_mcpwmInit (s : Commutator) (c : McConfiguration) (stray : Int → Int) :
    (s.mcpwmInit c stray).1.InSteps :=
  ⟨show (1 : Int) ≤ 1 ∧ (1 : Int) ≤ 6 by decide, Nat.zero_le 5⟩

/-- A run commutates safely exactly if every table that is installed and every hall
reading that is followed allow it. -/
theorem commutesSafely_iff (s : Commutator) (c : McConfiguration) (stray : Int → Int)
    (steps : List CommStep) :
    CommutesSafely s c stray steps ↔
      Commutator.TableOk c ∧
        commutator.Always Commutator.StepOk (s.mcpwmInit c stray).1 steps := by
  have hinit := inSteps_mcpwmInit s c stray
  have hrun := Machine.always_iff_run (M := commutator) (I := Commutator.InSteps)
    (R := Access.InRange)
    (fun t step ht => (Commutator.safe_step ht step).trans
      ⟨fun hsafe => ⟨hsafe.inSteps, hsafe.inRange⟩, fun hsafe => ⟨hsafe.1, hsafe.2⟩⟩) hinit steps
  have htable := Commutator.safe_mcpwmInit (s := s) c stray
  rw [hrun, ← htable]
  constructor
  · intro h
    refine ⟨⟨hinit, h.init⟩, fun before after heq => ⟨h.commStep before after heq, ?_⟩, h.inRange⟩
    exact Machine.run_invariant (M := commutator) (I := fun t => t.detectStep ≤ 5)
      (fun _ step ht => Commutator.detectStep_step ht step) hinit.detectStep before
  · rintro ⟨hsafe, hstates, hrange⟩
    exact ⟨hsafe.inRange, fun before after heq => (hstates before after heq).commStep, hrange⟩

/-- A BLDC motor with hall sensors and the hall table of `mcconf_default`. -/
def hallConfiguration : McConfiguration :=
  { (default : McConfiguration) with
    sensorMode := 1
    hallTable := fun i => [255, 1, 3, 2, 5, 6, 4, 255].getD i.val 0 }

/-- The commutation before `mcpwm_init`. -/
def idleCommutator : Commutator where
  motor := mcInterfaceInit hallConfiguration
  commStep := 0
  detectStep := 0
  hallToPhaseTable := fun _ _ => 0
  hasCommutated := false
  directionBefore := true

/-- One reading with no sensor active makes the step -1. -/
theorem not_commutesSafely_glitch :
    ¬CommutesSafely idleCommutator hallConfiguration id
      [.adcInt ⟨0, false, false, false, false⟩] := by
  intro h
  have hstep := h.commStep _ [] (List.append_nil _).symm
  exact absurd hstep.1 (by decide +kernel)

end Bldc.Drive
