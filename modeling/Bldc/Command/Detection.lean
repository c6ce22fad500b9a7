import Bldc.Drive.Restore

/-!
# Configuration updates and detections

The packet thread of an interface installs the configurations of `COMM_SET_MCCONF`,
and `detect_thread` runs the detections that `COMM_DETECT_MOTOR_PARAM` asks for. Each
runs until it sleeps, and then the other may run. A detection writes back the copy of
the configuration that it took when it began.
-/

namespace Bldc.Command

open Flash Link Conf Foundation Drive Thread

/-! ## The two threads -/

/-- `COMM_SET_MCCONF` from `conf_general_store_mc_configuration` on, which opens the lock
and releases the motor before it writes the EEPROM. -/
def setMcconfHandler (c : McConfiguration) : Procedure Unit := do
  give .unlock
  give (.setCurrent 0)
  mcInterfaceSetConfiguration c

/-- The motor, what is left of a `COMM_SET_MCCONF` in the packet thread and of a detection
in `detect_thread` while they sleep, and the variables through which a detection is asked
for. -/
structure Node where
  motor : Motor
  installing : Option (McConfiguration × Procedure Unit)
  detecting : Option (Procedure MotorParam)
  detectEvent : Bool
  detectCurrent : Rat
  detectMinRpm : Rat
  detectLowDuty : Rat

/-- Packets for the packet thread, the end of a sleep of one of the threads, and what the
interrupts and the periodic threads do. -/
inductive NodeInput where
  | setMcconf (data : Buffer) (readings : Stream' Drive.Readings)
  | detectMotorParam (data : Buffer)
  | packetThread (readings : Stream' Drive.Readings)
  | detectThread (readings : Stream' Drive.Readings)
  | event (step : { step : Step // step.IsEvent })

namespace Node

variable (n : Node)

/-- Both threads wait. -/
def boot (motor : Motor) : Node where
  motor
  installing := none
  detecting := none
  detectEvent := false
  detectCurrent := 0
  detectMinRpm := 0
  detectLowDuty := 0

/-- The packet thread sleeps again or acknowledges the configuration. -/
def packetProgress (c : McConfiguration) :
    Progress Motor Step Drive.Readings Unit → Node × List McConfiguration
  | .done _ _ s => ({ n with motor := s, installing := none }, [c])
  | .asleep rest s => ({ n with motor := s, installing := some (c, rest) }, [])

/-- `detect_thread` sleeps again or waits for the next event. -/
def detectProgress : Progress Motor Step Drive.Readings MotorParam → Node
  | .done _ _ s => { n with motor := s, detecting := none }
  | .asleep rest s => { n with motor := s, detecting := some rest }

/-- One piece of one of the threads, or an event, with the configurations that are
acknowledged. A packet is not taken while the packet thread is busy. -/
def step : NodeInput → Node × List McConfiguration
  | .setMcconf data readings =>
      match n.installing with
      | none =>
          let c := setMcconf data n.motor.conf
          n.packetProgress c (advance Drive.motor (setMcconfHandler c) readings n.motor)
      | some _ => (n, [])
  | .detectMotorParam data =>
      match n.installing with
      | none =>
          ({ n with
            detectEvent := true
            detectCurrent := bufferGetFloat32 data 1000 0
            detectMinRpm := bufferGetFloat32 data 1000 4
            detectLowDuty := bufferGetFloat32 data 1000 8 }, [])
      | some _ => (n, [])
  | .packetThread readings =>
      match n.installing with
      | none => (n, [])
      | some (c, rest) => n.packetProgress c (advance Drive.motor rest readings n.motor)
  | .detectThread readings =>
      match n.detecting with
      | none =>
          if n.detectEvent then
            ({ n with detectEvent := false }.detectProgress (advance Drive.motor
              (confGeneralDetectMotorParam n.detectCurrent n.detectMinRpm n.detectLowDuty)
              readings n.motor), [])
          else (n, [])
      | some rest => (n.detectProgress (advance Drive.motor rest readings n.motor), [])
  | .event step => ({ n with motor := (Drive.motor.step n.motor step.1).1 }, [])

end Node

def node : Machine Node NodeInput McConfiguration where
  step := Node.step

/-! ## Lost updates -/

/-- Once no detection runs, the configuration in use is the one that was acknowledged
last, or the one that the packet thread is about to acknowledge. -/
def NoUpdateLost (initial : McConfiguration) (n : Node) (acknowledged : List McConfiguration) :
    Prop :=
  n.detecting = none →
    settings n.motor.conf = settings (acknowledged.getLastD initial) ∨
      ∃ c rest, n.installing = some (c, rest) ∧ settings n.motor.conf = settings c

/-- The step installs nothing. -/
def Harmless (step : Step) : Prop := ¬step.Configures

/-- The packet thread puts the configuration of a packet in place. -/
def Installs (n : Node) : NodeInput → Prop
  | .setMcconf data _ =>
      n.installing = none ∧ ¬n.motor.switchesDriver (setMcconf data n.motor.conf)
  | .packetThread _ => ∃ c rest, n.installing = some (c, rest) ∧ ¬rest.Gives Harmless
  | _ => False

/-- A detection has taken its copy of the configuration and not written it back. -/
def HoldsCopy (n : Node) : Prop := ∃ rest, n.detecting = some rest ∧ ¬rest.Gives Harmless

/-! ## What a thread that nobody interferes with arrives at -/

def SameSettings (s t : Motor) : Prop := settings t.conf = settings s.conf

theorem SameSettings.trans {s t u : Motor} (h : SameSettings s t) (h' : SameSettings t u) :
    SameSettings s u :=
  Eq.trans h' h

theorem sameSettings_harmless {step : Step} (h : Harmless step) (s : Motor) :
    SameSettings s (motor.step s step).1 :=
  (step_keepsSettings h s).settings

theorem setConfiguration_of_switches {s : Motor} {c : McConfiguration} (h : s.switchesDriver c)
    (temp vIn : Rat) : (motor.step s (.setConfiguration c temp vIn)).1 = s := by
  simp [motor, Motor.step, Motor.mcInterfaceSetConfiguration, h, Motor.quiet]

theorem settings_setConfiguration {s : Motor} {c : McConfiguration} (h : ¬s.switchesDriver c)
    (temp vIn : Rat) :
    settings (motor.step s (.setConfiguration c temp vIn)).1.conf = settings c := by
  simp only [motor, Motor.step, Motor.mcInterfaceSetConfiguration, if_neg h]
  exact (Motor.keeps_applyConfiguration { s with conf := c } temp vIn).settings

theorem wp_setConfiguration_settings (c : McConfiguration) (s : Motor) :
    wp motor SameSettings (fun _ t => settings t.conf = settings c)
      (mcInterfaceSetConfiguration c) s := by
  simp only [mcInterfaceSetConfiguration, bind_eq, wp_bind, wp_reading, wp_state, wp_give]
  intro r
  split
  next =>
    simp only [startDriver, bind_eq, wp_bind, wp_pause, wp_give]
    intro s₁ _ s₂ hs₂
    -- the new driver calibrates with the configuration that is already in place
    have happly := (s₂.keeps_applyConfiguration r.tempFet r.inputVoltage).settings
    have hswitched := congrArg settings (switchDriver_conf s₁ c)
    exact happly.trans (Eq.trans hs₂ hswitched)
  next hsame => exact settings_setConfiguration hsame _ _

/-- A detection ends with the settings it began with. -/
theorem wp_detect_settings (current minRpm lowDuty : Rat) (s : Motor) :
    wp motor SameSettings (fun _ t => settings t.conf = settings s.conf)
      (confGeneralDetectMotorParam current minRpm lowDuty) s := by
  simp only [confGeneralDetectMotorParam, bind_eq, wp_bind, wp_state, wp_give]
  refine wp_of_forall (fun _ s₁ => ?_) _ _
  refine wp_of_forall (fun _ s₂ => ?_) _ _
  exact wp_mono (fun _ _ h => h) (wp_setConfiguration_settings s.conf s₂)

/-! ## The invariant -/

/-- What is left of a detection leads back to these settings, or has already. -/
def LeadsBack (cur : McConfiguration) (s : Motor) (rest : Procedure MotorParam) : Prop :=
  rest.Gives Harmless ∧ settings s.conf = settings cur ∨
    ∀ t, SameSettings s t →
      wp motor SameSettings (fun _ t => settings t.conf = settings cur) rest t

/-- The settings of `cur` are in use or will be after the detection. -/
def DetectOk (cur : McConfiguration) (s : Motor) : Option (Procedure MotorParam) → Prop
  | none => settings s.conf = settings cur
  | some rest => LeadsBack cur s rest

/-- `cur` is what was acknowledged last, or what the packet thread has put in place since. -/
def PacketOk (last cur : McConfiguration) : Option (McConfiguration × Procedure Unit) → Prop
  | none => cur = last
  | some (c, rest) =>
      rest.Gives Harmless ∧ cur = c ∨ cur = last ∧ ∃ temp vIn, rest = startDriver c temp vIn

/-- No update has been lost, and none is going to be. -/
def Consistent (last : McConfiguration) (n : Node) : Prop :=
  ∃ cur, DetectOk cur n.motor n.detecting ∧ PacketOk last cur n.installing

theorem DetectOk.same {cur : McConfiguration} {s t : Motor} (h : SameSettings s t)
    {detecting : Option (Procedure MotorParam)} (hs : DetectOk cur s detecting) :
    DetectOk cur t detecting := by
  cases detecting with
  | none => exact Eq.trans h hs
  | some rest =>
      refine hs.imp (fun hdone => ⟨hdone.1, Eq.trans h hdone.2⟩) fun hleads u hu => ?_
      exact hleads u (h.trans hu)

/-- With no copy held, what is in place stays in place. -/
theorem detectOk_install {cur : McConfiguration} {s : Motor} {n : Node} (hcopy : ¬HoldsCopy n)
    (h : settings s.conf = settings cur) : DetectOk cur s n.detecting := by
  cases hdetecting : n.detecting with
  | none => exact h
  | some rest =>
      have hharmless : rest.Gives Harmless := by
        by_contra hgives
        exact hcopy ⟨rest, hdetecting, hgives⟩
      exact .inl ⟨hharmless, h⟩

theorem Consistent.noUpdateLost {initial : McConfiguration} {n : Node}
    {acknowledged : List McConfiguration}
    (h : Consistent (acknowledged.getLastD initial) n) : NoUpdateLost initial n acknowledged := by
  obtain ⟨cur, hdetect, hpacket⟩ := h
  intro hnone
  rw [hnone] at hdetect
  cases hinstalling : n.installing with
  | none =>
      rw [hinstalling] at hpacket
      exact .inl (hpacket ▸ hdetect)
  | some job =>
      rw [hinstalling] at hpacket
      rcases hpacket with ⟨-, hcur⟩ | ⟨hcur, -⟩
      · exact .inr ⟨job.1, job.2, rfl, hcur ▸ hdetect⟩
      · exact .inl (hcur ▸ hdetect)

/-! ## Steps -/

theorem SameSettings.switchesDriver {s t : Motor} (h : SameSettings s t) (c : McConfiguration) :
    t.switchesDriver c ↔ s.switchesDriver c := by
  have htype : t.motorType = s.motorType :=
    congrArg MotorType.ofCode (Motor.motorType_of_settings h)
  unfold Motor.switchesDriver
  rw [htype]

/-- The first piece of a `COMM_SET_MCCONF`. -/
theorem advance_setMcconfHandler (c : McConfiguration) (readings : Stream' Drive.Readings)
    (s : Motor) : ∃ s₁, SameSettings s s₁ ∧ advance motor (setMcconfHandler c) readings s =
      if s.switchesDriver c then
        .asleep (startDriver c readings.head.tempFet readings.head.inputVoltage) s₁
      else
        .done () readings.tail (motor.step s₁ (.setConfiguration c readings.head.tempFet
          readings.head.inputVoltage)).1 := by
  have hopen : SameSettings s (motor.step s .unlock).1 := rfl
  have hsame := hopen.trans (sameSettings_harmless (show Harmless (.setCurrent 0) from id) _)
  generalize hs₁ : (motor.step (motor.step s .unlock).1 (.setCurrent 0)).1 = s₁ at hsame
  refine ⟨s₁, hsame, ?_⟩
  by_cases hswitch : s.switchesDriver c
  · have hswitch' := (hsame.switchesDriver c).2 hswitch
    have hfirst := setConfiguration_of_switches hswitch' readings.head.tempFet
      readings.head.inputVoltage
    simp only [setMcconfHandler, mcInterfaceSetConfiguration, bind_eq, advance_bind, advance_give,
      Progress.andThen, advance_reading, advance_state, hs₁, hswitch, hswitch', if_true,
      advance_pause, hfirst]
    rfl
  · have hswitch' := mt (hsame.switchesDriver c).1 hswitch
    simp only [setMcconfHandler, mcInterfaceSetConfiguration, bind_eq, advance_bind, advance_give,
      Progress.andThen, advance_reading, advance_state, hs₁, hswitch, hswitch', if_false, pure_eq,
      advance_ret]

/-- With the driver in use, the configuration is in place and acknowledged at once. -/
theorem step_setMcconf {n : Node} (hidle : n.installing = none) {data : Buffer}
    (readings : Stream' Drive.Readings)
    (hdriver : ¬n.motor.switchesDriver (setMcconf data n.motor.conf)) :
    ∃ s, node.step n (.setMcconf data readings) =
      ({ n with motor := s, installing := none }, [setMcconf data n.motor.conf]) := by
  obtain ⟨s₁, -, hadvance⟩ :=
    advance_setMcconfHandler (setMcconf data n.motor.conf) readings n.motor
  rw [if_neg hdriver] at hadvance
  generalize (motor.step s₁ _).1 = s at hadvance
  refine ⟨s, ?_⟩
  simp only [node, Node.step, hidle, hadvance, Node.packetProgress]

/-- A piece of a detection. -/
theorem LeadsBack.progress {cur : McConfiguration} {n : Node} {rest : Procedure MotorParam}
    (h : LeadsBack cur n.motor rest) (readings : Stream' Drive.Readings) :
    DetectOk cur (n.detectProgress (advance motor rest readings n.motor)).motor
      (n.detectProgress (advance motor rest readings n.motor)).detecting := by
  -- the copy has been written back already, or it still will be
  rcases h with ⟨hgives, hcur⟩ | hleads
  · have hrest := gives_advance (M := motor) (K := fun s => settings s.conf = settings cur)
      (fun s step hstep hs => Eq.trans (sameSettings_harmless hstep s) hs) hgives hcur readings
    cases hprogress : advance motor rest readings n.motor with
    | done value readings' s =>
        rw [hprogress] at hrest
        exact hrest
    | asleep rest' s =>
        rw [hprogress] at hrest
        exact .inl hrest
  · have hrest := wp_advance (hleads n.motor rfl) readings
    cases hprogress : advance motor rest readings n.motor with
    | done value readings' s =>
        rw [hprogress] at hrest
        exact hrest
    | asleep rest' s =>
        rw [hprogress] at hrest
        exact .inr hrest

theorem detectProgress_installing (n : Node)
    (progress : Progress Motor Step Drive.Readings MotorParam) :
    (n.detectProgress progress).installing = n.installing := by
  cases progress <;> rfl

/-- The first piece of a `COMM_SET_MCCONF` keeps the invariant. -/
theorem Consistent.firstPiece {last : McConfiguration} {n : Node} (h : Consistent last n)
    (hidle : n.installing = none) (c : McConfiguration)
    (hcopy : ¬n.motor.switchesDriver c → ¬HoldsCopy n) (readings : Stream' Drive.Readings) :
    Consistent
      ((n.packetProgress c (advance motor (setMcconfHandler c) readings n.motor)).2.getLastD last)
      (n.packetProgress c (advance motor (setMcconfHandler c) readings n.motor)).1 := by
  obtain ⟨cur, hdetect, hpacket⟩ := h
  rw [hidle] at hpacket
  obtain ⟨s₁, hsame, hadvance⟩ := advance_setMcconfHandler c readings n.motor
  rw [hadvance]
  by_cases hswitch : n.motor.switchesDriver c
  -- another driver is needed, and nothing is in place before the first sleep
  · rw [if_pos hswitch]
    exact ⟨cur, hdetect.same hsame, .inr ⟨hpacket, _, _, rfl⟩⟩
  · rw [if_neg hswitch]
    have hswitch' := mt (hsame.switchesDriver c).1 hswitch
    exact ⟨c, detectOk_install (hcopy hswitch) (settings_setConfiguration hswitch' _ _), rfl⟩

/-- So does each later piece. -/
theorem Consistent.nextPiece {last c : McConfiguration} {rest : Procedure Unit} {n : Node}
    (h : Consistent last n) (hinstalling : n.installing = some (c, rest))
    (hcopy : ¬rest.Gives Harmless → ¬HoldsCopy n) (readings : Stream' Drive.Readings) :
    Consistent ((n.packetProgress c (advance motor rest readings n.motor)).2.getLastD last)
      (n.packetProgress c (advance motor rest readings n.motor)).1 := by
  obtain ⟨cur, hdetect, hpacket⟩ := h
  rw [hinstalling] at hpacket
  rcases hpacket with ⟨hgives, rfl⟩ | ⟨hlast, temp, vIn, rfl⟩
  · have hrest := gives_advance (K := SameSettings n.motor)
      (fun s step hstep hs => hs.trans (sameSettings_harmless hstep s)) hgives rfl readings
    cases hprogress : advance motor rest readings n.motor with
    | done value readings' s =>
        rw [hprogress] at hrest
        exact ⟨cur, hdetect.same hrest, rfl⟩
    | asleep rest' s =>
        rw [hprogress] at hrest
        exact ⟨cur, hdetect.same hrest.2, .inl ⟨hrest.1, rfl⟩⟩
  -- the threads of the old driver have ended, and this piece puts `c` in place
  · have hinstall := hcopy fun hgives => hgives.1 trivial
    have hconf := congrArg settings (switchDriver_conf n.motor c)
    exact ⟨c, detectOk_install hinstall hconf, .inl ⟨⟨id, trivial⟩, rfl⟩⟩

/-- So does a piece of a detection. -/
theorem LeadsBack.consistent {last cur : McConfiguration} {n : Node}
    {rest : Procedure MotorParam} (h : LeadsBack cur n.motor rest)
    (hpacket : PacketOk last cur n.installing) (readings : Stream' Drive.Readings) :
    Consistent last (n.detectProgress (advance motor rest readings n.motor)) := by
  refine ⟨cur, h.progress readings, ?_⟩
  rw [detectProgress_installing]
  exact hpacket

theorem consistent_step {last : McConfiguration} {n : Node} {input : NodeInput}
    (h : Consistent last n) (hinput : Installs n input → ¬HoldsCopy n) :
    Consistent ((node.step n input).2.getLastD last) (node.step n input).1 := by
  cases input with
  | setMcconf data readings =>
      cases hinstalling : n.installing with
      | some job =>
          simp only [node, Node.step, hinstalling]
          exact h
      | none =>
          simp only [node, Node.step, hinstalling]
          exact h.firstPiece hinstalling _ (fun hswitch => hinput ⟨hinstalling, hswitch⟩) readings
  | detectMotorParam data =>
      simp only [node, Node.step]
      split
      next => exact h
      next => exact h
  | packetThread readings =>
      cases hinstalling : n.installing with
      | none =>
          simp only [node, Node.step, hinstalling]
          exact h
      | some job =>
          simp only [node, Node.step, hinstalling]
          exact h.nextPiece hinstalling (fun hgives => hinput ⟨_, _, hinstalling, hgives⟩) readings
  | detectThread readings =>
      obtain ⟨cur, hdetect, hpacket⟩ := h
      cases hdetecting : n.detecting with
      | some rest =>
          rw [hdetecting] at hdetect
          simp only [node, Node.step, hdetecting]
          exact LeadsBack.consistent hdetect hpacket readings
      | none =>
          simp only [node, Node.step, hdetecting]
          split
          next =>
            rw [hdetecting] at hdetect
            -- the copy that is taken now holds the settings of `cur`
            have hbegin : LeadsBack cur n.motor (confGeneralDetectMotorParam n.detectCurrent
                n.detectMinRpm n.detectLowDuty) := by
              refine .inr fun t ht => wp_mono (fun _ u hu => ?_) (wp_detect_settings _ _ _ t)
              exact hu.trans (Eq.trans ht hdetect)
            exact LeadsBack.consistent (n := { n with detectEvent := false }) hbegin hpacket
              readings
          next => exact ⟨cur, hdetect, hpacket⟩
  | event step =>
      obtain ⟨cur, hdetect, hpacket⟩ := h
      have hsame := sameSettings_harmless (not_configures_of_isEvent step.2) n.motor
      exact ⟨cur, hdetect.same hsame, hpacket⟩

/-! ## Runs -/

theorem getLastD_append {α : Type} (xs ys : List α) (a : α) :
    (xs ++ ys).getLastD a = ys.getLastD (xs.getLastD a) := by
  induction xs generalizing a with
  | nil => rfl
  | cons x xs ih => simp only [List.cons_append, List.getLastD_cons, ih]

theorem consistent_run {last : McConfiguration} {n : Node} {inputs : List NodeInput}
    (h : Consistent last n)
    (hinputs : node.Always (fun n input => Installs n input → ¬HoldsCopy n) n inputs) :
    Consistent ((node.run n inputs).2.getLastD last) (node.run n inputs).1 := by
  induction inputs generalizing last n with
  | nil => exact h
  | cons input inputs ih =>
      rw [Machine.run_cons, getLastD_append]
      exact ih (consistent_step h hinputs.1) hinputs.2

/-- No update is lost as long as none is put in place between the copy of a detection and
its write back. -/
theorem noUpdateLost_of_apart (motor : Motor) (inputs : List NodeInput)
    (h : node.Always (fun n input => Installs n input → ¬HoldsCopy n) (Node.boot motor) inputs) :
    NoUpdateLost motor.conf (node.run (Node.boot motor) inputs).1
      (node.run (Node.boot motor) inputs).2 := by
  have hboot : Consistent motor.conf (Node.boot motor) := ⟨motor.conf, rfl, rfl⟩
  exact (consistent_run hboot h).noUpdateLost

theorem noUpdateLost_of_apart_detect :
    (node.run (Node.boot (runningMotor default))
        [.setMcconf (fun _ => 0) (Stream'.const default), .detectMotorParam fun _ => 0,
          .detectThread (Stream'.const default)]).2 = [setMcconf (fun _ => 0) default] ∧
      NoUpdateLost default
        (node.run (Node.boot (runningMotor default))
          [.setMcconf (fun _ => 0) (Stream'.const default), .detectMotorParam fun _ => 0,
            .detectThread (Stream'.const default)]).1
        (node.run (Node.boot (runningMotor default))
          [.setMcconf (fun _ => 0) (Stream'.const default), .detectMotorParam fun _ => 0,
            .detectThread (Stream'.const default)]).2 := by
  constructor
  · have hdriver : ¬(runningMotor default).switchesDriver (setMcconf (fun _ => 0) default) :=
      not_not.2 Iff.rfl
    obtain ⟨s, hs⟩ := step_setMcconf (n := Node.boot (runningMotor default)) rfl
      (Stream'.const default) hdriver
    rw [Machine.run_cons, hs]
    rfl
  · refine noUpdateLost_of_apart (runningMotor default) _ ⟨?_, False.elim, False.elim, trivial⟩
    rintro - ⟨rest, hdetecting, -⟩
    cases hdetecting

/-! ## The lost update -/

/-- A detection that nobody interferes with any more comes to its end. -/
theorem exists_detecting_none {Q : Motor → Prop} (readings : Stream' Drive.Readings) (n : Node)
    {rest : Procedure MotorParam} {s : Motor}
    (h : wp motor SameSettings (fun _ s => Q s) rest s) (now : Stream' Drive.Readings) :
    ∃ k, ∃ n', node.run (n.detectProgress (advance motor rest now s))
        (List.replicate k (.detectThread readings)) = (n', []) ∧
      n'.detecting = none ∧ n'.installing = n.installing ∧ Q n'.motor := by
  induction rest generalizing now s with
  | ret value => exact ⟨0, _, rfl, rfl, rfl, h⟩
  | look k ih => exact ih s h now
  | act input k ih => exact ih h now
  | sense k ih => exact ih _ (h _) now.tail
  | sleep k ih =>
      obtain ⟨rounds, n', hrun, hend⟩ := ih (h s rfl) readings
      refine ⟨rounds + 1, n', ?_, hend⟩
      exact congrArg (fun result => (result.1, [] ++ result.2)) hrun

theorem advance_waitFor {rounds : Nat} (hrounds : rounds ≠ 0) (wanted : Drive.Readings → Prop)
    [DecidablePred wanted] {readings : Stream' Drive.Readings} (h : ¬wanted readings.head)
    (s : Motor) :
    ∃ rest, advance motor (waitFor rounds wanted) readings s = .asleep rest s := by
  obtain ⟨item, items, hitems⟩ := List.exists_cons_of_ne_nil (mt List.range_eq_nil.1 hrounds)
  unfold waitFor
  rw [hitems]
  simp only [bind_eq, pure_eq, each, advance_bind, advance_reading, Progress.andThen, h, if_false,
    advance_pause]
  exact ⟨_, rfl⟩

/-- A detection of a motor that does not spin up at once sleeps with its copy. -/
theorem advance_detect (current minRpm lowDuty : Rat) {readings : Stream' Drive.Readings}
    {s : Motor} (hspin : readings.tail.head.dutyCycleNow < 6 / 10)
    (hdriver : ¬s.switchesDriver (spinUpConf s.conf minRpm)) :
    ∃ rest t, advance motor (confGeneralDetectMotorParam current minRpm lowDuty) readings s =
        .asleep rest t ∧ settings t.conf = settings (spinUpConf s.conf minRpm) ∧
      ∀ u, wp motor SameSettings (fun _ v => settings v.conf = settings s.conf) rest u := by
  let t := (motor.run s [.setConfiguration (spinUpConf s.conf minRpm) readings.head.tempFet
    readings.head.inputVoltage, .lock, .lockOverrideOnce, .setCurrent current]).1
  have hsleeps : ∃ rest, advance motor (waitFor 5000 fun r => ¬r.dutyCycleNow < 6 / 10)
      readings.tail t = .asleep rest t := advance_waitFor (by decide) _ (not_not.2 hspin) t
  obtain ⟨waiting, hwaiting⟩ := hsleeps
  simp only [t, Machine.run_cons, Machine.run_nil] at hwaiting
  simp only [confGeneralDetectMotorParam, mcInterfaceSetConfiguration, detectRun, overriding,
    bind_eq, pure_eq, advance_bind, advance_state, advance_reading, advance_give, advance_ret,
    Progress.andThen, hdriver, if_false, hwaiting]
  refine ⟨_, _, rfl, ?_, fun u => ?_⟩
  · have hinstalled := settings_setConfiguration hdriver readings.head.tempFet
      readings.head.inputVoltage
    have hcommand := sameSettings_harmless (show Harmless (.setCurrent current) from id)
      (motor.run s [.setConfiguration (spinUpConf s.conf minRpm) readings.head.tempFet
        readings.head.inputVoltage, .lock, .lockOverrideOnce]).1
    exact Eq.trans hcommand hinstalled
  · rw [wp_bind]
    refine wp_of_forall (fun _ u' => ?_) _ _
    rw [wp_bind]
    exact wp_mono (fun _ _ h => h) (wp_setConfiguration_settings s.conf u')

/-- What is acknowledged while a detection holds its copy is overwritten. -/
theorem exists_overwritten {n : Node} {cur : McConfiguration} {rest : Procedure MotorParam}
    (hdetecting : n.detecting = some rest) (hidle : n.installing = none)
    (hback : ∀ u, wp motor SameSettings (fun _ v => settings v.conf = settings cur) rest u)
    (data : Buffer) (readings : Stream' Drive.Readings)
    (hdriver : ¬n.motor.switchesDriver (setMcconf data n.motor.conf)) :
    ∃ k n', node.run n (.setMcconf data readings :: List.replicate k (.detectThread readings)) =
        (n', [setMcconf data n.motor.conf]) ∧
      n'.detecting = none ∧ n'.installing = none ∧ settings n'.motor.conf = settings cur := by
  obtain ⟨s, hinstall⟩ := step_setMcconf hidle readings hdriver
  obtain ⟨k, n', hrun, hnone, hpacket, hlost⟩ := exists_detecting_none readings
    { n with motor := s, installing := none } (hback s) readings
  have hwake : node.step { n with motor := s, installing := none } (.detectThread readings) =
      ({ n with motor := s, installing := none }.detectProgress
        (advance motor rest readings s), []) := by
    simp only [node, Node.step, hdetecting]
  refine ⟨k + 1, n', ?_, hnone, hpacket, hlost⟩
  rw [Machine.run_cons, hinstall, List.replicate_succ, Machine.run_cons, hwake, hrun]
  rfl

/-- A detection is asked for and begins, a configuration is put in place and acknowledged,
and the detection writes its copy back. -/
theorem not_noUpdateLost_detect :
    ¬∀ motor inputs, NoUpdateLost motor.conf (node.run (Node.boot motor) inputs).1
      (node.run (Node.boot motor) inputs).2 := by
  intro h
  let zeros : Buffer := fun _ => 0
  let steady : Stream' Drive.Readings := Stream'.const default
  let m := runningMotor { (default : McConfiguration) with pwmMode := 1 }
  have hspin : steady.tail.head.dutyCycleNow < 6 / 10 := by
    change (0 : Rat) < 6 / 10
    norm_num
  obtain ⟨rest, t, hdetect, hsettings, hback⟩ := advance_detect (bufferGetFloat32 zeros 1000 0)
    (bufferGetFloat32 zeros 1000 4) (bufferGetFloat32 zeros 1000 8) hspin
    (show ¬m.switchesDriver _ from not_not.2 Iff.rfl)
  have hbegin : ∃ n, node.run (Node.boot m) [.detectMotorParam zeros, .detectThread steady] =
      (n, []) ∧ n.motor = t ∧ n.installing = none ∧ n.detecting = some rest := by
    simp only [Machine.run_cons, Machine.run_nil, node, Node.step, Node.boot, if_true, hdetect,
      Node.detectProgress, List.append_nil]
    exact ⟨_, rfl, rfl, rfl, rfl⟩
  obtain ⟨n, hbegin, rfl, hidle, hdetecting⟩ := hbegin
  have hdriver : ¬n.motor.switchesDriver (setMcconf zeros n.motor.conf) := by
    have htype := Motor.motorType_of_settings hsettings
    simp only [Motor.switchesDriver, Motor.motorType, htype, not_not]
    exact Iff.rfl
  obtain ⟨k, n', hrun, hnone, hpacket, hlost⟩ :=
    exists_overwritten hdetecting hidle hback zeros steady hdriver
  have hkept := h m ([.detectMotorParam zeros, .detectThread steady] ++
    .setMcconf zeros steady :: List.replicate k (.detectThread steady))
  rw [Machine.run_append, hbegin, hrun] at hkept
  rcases hkept hnone with hconf | ⟨c', rest', hbusy, -⟩
  · have hmode : (1 : Byte) = 0 := congrArg McConfiguration.pwmMode (hlost.symm.trans hconf)
    exact absurd hmode (by decide)
  · rw [hpacket] at hbusy
    cases hbusy

end Bldc.Command
