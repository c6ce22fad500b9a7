import Bldc.Drive.Guard
import Bldc.Foundation.Limiter
import Mathlib.Algebra.Order.Group.MinMax
import Mathlib.Tactic.FieldSimp
import Mathlib.Tactic.Ring

/-!
# The override limits

`update_override_limits` lowers the current limits of a configuration in place, when the
MOSFETs are warm and when the battery is low. Between the two temperatures it only assigns
the limits that it lowers, so the others are what some earlier update has left.
-/

namespace Bldc.Drive

open Flash Conf Foundation

/-- What `update_override_limits` sets, apart from a limit that it copies. -/
structure OverrideLimits where
  loCurrentMax : Rat
  loCurrentMin : Rat
  loInCurrentMax : Rat
  deriving DecidableEq, Repr

def Motor.overrideLimits (s : Motor) : OverrideLimits where
  loCurrentMax := s.conf.loCurrentMax
  loCurrentMin := s.conf.loCurrentMin
  loInCurrentMax := s.conf.loInCurrentMax

/-- The motor under updates at a temperature and an input voltage. -/
def overrideUpdates : Machine Motor (Rat × Rat) Motor where
  step s present := s.updateOverrideLimits present.1 present.2

/-- The limits are in order. -/
structure AdmitsOverride (c : McConfiguration) : Prop where
  temp : c.lTempFetStart < c.lTempFetEnd
  battery : c.lBatteryCutEnd < c.lBatteryCutStart
  lInCurrentMax : 0 ≤ c.lInCurrentMax
  lCurrentMin : c.lCurrentMin ≤ 0
  lCurrentMax : 0 ≤ c.lCurrentMax

/-! ## What the limits are for -/

/-- The share of a limit that is left, all of it up to `full` and nothing from `none` on. -/
def share (full none x : Rat) : Rat := clamp 0 1 ((none - x) / (none - full))

/-- The magnitude that a temperature leaves to the currents. -/
def derated (c : McConfiguration) (temp : Rat) : Rat :=
  max |c.lCurrentMax| |c.lCurrentMin| * share c.lTempFetStart c.lTempFetEnd temp

/-- The limits of a temperature and an input voltage. -/
def presentLimits (c : McConfiguration) (temp vIn : Rat) : OverrideLimits where
  loCurrentMax := min c.lCurrentMax (derated c temp)
  loCurrentMin := max c.lCurrentMin (-derated c temp)
  loInCurrentMax := c.lInCurrentMax * share c.lBatteryCutStart c.lBatteryCutEnd vIn

/-- No limit is above the other one. -/
structure OverrideLimits.Below (l l' : OverrideLimits) : Prop where
  loCurrentMax : |l.loCurrentMax| ≤ |l'.loCurrentMax|
  loCurrentMin : |l.loCurrentMin| ≤ |l'.loCurrentMin|
  loInCurrentMax : |l.loInCurrentMax| ≤ |l'.loInCurrentMax|

/-- Limits that stay below those of the configuration, and do not rise as it gets warmer or
the voltage falls. -/
structure Protects (c : McConfiguration) (limits : Rat → Rat → OverrideLimits) : Prop where
  below : ∀ temp vIn, (limits temp vIn).Below ⟨c.lCurrentMax, c.lCurrentMin, c.lInCurrentMax⟩
  mono : ∀ temp temp' vIn vIn', temp ≤ temp' → vIn' ≤ vIn →
    (limits temp' vIn').Below (limits temp vIn)

/-- Whatever the history, the limits are those of the present. -/
def Explains (c : McConfiguration) (limits : Rat → Rat → OverrideLimits) : Prop :=
  ∀ s : Motor, settings s.conf = settings c → ∀ history temp vIn,
    (overrideUpdates.run s (history ++ [(temp, vIn)])).1.overrideLimits = limits temp vIn

section Share

variable {full none x y : Rat}

theorem share_mem (full none x : Rat) : 0 ≤ share full none x ∧ share full none x ≤ 1 :=
  clamp_mem zero_le_one _

/-- Where the share falls. -/
theorem share_antitone (h : full < none) (hxy : x ≤ y) : share full none y ≤ share full none x := by
  apply clamp_mono zero_le_one
  exact div_le_div_of_nonneg_right (sub_le_sub_left hxy none) (sub_pos.2 h).le

/-- Where it rises. -/
theorem share_monotone (h : none < full) (hxy : x ≤ y) :
    share full none x ≤ share full none y := by
  apply clamp_mono zero_le_one
  exact div_le_div_of_nonpos_of_le (sub_neg.2 h).le (sub_le_sub_left hxy none)

theorem share_full (h : full < none) (hx : x ≤ full) : share full none x = 1 := by
  have hwidth := sub_pos.2 h
  have hone : 1 ≤ (none - x) / (none - full) := by
    rw [le_div_iff₀ hwidth, one_mul]
    exact sub_le_sub_left hx none
  have hmono : clamp 0 1 (1 : Rat) ≤ share full none x := clamp_mono zero_le_one hone
  exact le_antisymm (share_mem full none x).2 hmono

theorem share_none (h : full < none) (hx : none ≤ x) : share full none x = 0 := by
  have hzero : (none - x) / (none - full) ≤ 0 :=
    div_nonpos_of_nonpos_of_nonneg (sub_nonpos.2 hx) (sub_pos.2 h).le
  have hmono : share full none x ≤ clamp 0 1 (0 : Rat) := clamp_mono zero_le_one hzero
  exact le_antisymm hmono (share_mem full none x).1

/-- Turned around, the share is a share of the same values. -/
theorem share_neg (full none x : Rat) : share (-full) (-none) (-x) = share full none x := by
  unfold share
  rw [neg_sub_neg, neg_sub_neg, ← neg_sub none x, ← neg_sub none full, neg_div_neg_eq]

/-- Between the two values it is linear. -/
theorem share_between (h : full < none) (hx : full ≤ x) (hx' : x ≤ none) (limit : Rat) :
    limit * share full none x = utilsMap x full none limit 0 := by
  have hwidth := sub_pos.2 h
  have hshare : share full none x = (none - x) / (none - full) := by
    have hone : (none - x) / (none - full) ≤ 1 := by
      rw [div_le_one hwidth]
      exact sub_le_sub_left hx none
    have hzero : 0 ≤ (none - x) / (none - full) := div_nonneg (sub_nonneg.2 hx') hwidth.le
    rw [share, clamp, if_neg (not_lt.2 hone), if_neg (not_lt.2 hzero)]
  rw [hshare, utilsMap]
  field_simp
  ring

end Share

section Present

variable {c : McConfiguration}

theorem derated_nonneg (c : McConfiguration) (temp : Rat) : 0 ≤ derated c temp :=
  mul_nonneg (le_max_of_le_left (abs_nonneg _)) (share_mem _ _ _).1

theorem derated_antitone (hc : AdmitsOverride c) {temp temp' : Rat} (h : temp ≤ temp') :
    derated c temp' ≤ derated c temp :=
  mul_le_mul_of_nonneg_left (share_antitone hc.temp h) (le_max_of_le_left (abs_nonneg _))

/-- The magnitudes of the limits of the present. -/
theorem abs_presentLimits (hc : AdmitsOverride c) (temp vIn : Rat) :
    |(presentLimits c temp vIn).loCurrentMax| = min |c.lCurrentMax| (derated c temp) ∧
      |(presentLimits c temp vIn).loCurrentMin| = min |c.lCurrentMin| (derated c temp) ∧
      |(presentLimits c temp vIn).loInCurrentMax| =
        |c.lInCurrentMax| * share c.lBatteryCutStart c.lBatteryCutEnd vIn := by
  have hderated := derated_nonneg c temp
  refine ⟨?_, ?_, ?_⟩
  · rw [abs_of_nonneg hc.lCurrentMax]
    exact abs_of_nonneg (le_min hc.lCurrentMax hderated)
  · rw [abs_of_nonpos hc.lCurrentMin]
    have hmax : max c.lCurrentMin (-derated c temp) = -min (-c.lCurrentMin) (derated c temp) := by
      rw [← max_neg_neg, neg_neg]
    change |max c.lCurrentMin (-derated c temp)| = _
    rw [hmax, abs_neg]
    exact abs_of_nonneg (le_min (neg_nonneg.2 hc.lCurrentMin) hderated)
  · exact (abs_mul _ _).trans (congrArg (|c.lInCurrentMax| * ·) (abs_of_nonneg (share_mem _ _ _).1))

theorem protects_presentLimits (hc : AdmitsOverride c) : Protects c (presentLimits c) where
  below := by
    intro temp vIn
    obtain ⟨hmax, hmin, hin⟩ := abs_presentLimits hc temp vIn
    refine ⟨hmax.trans_le (min_le_left _ _), hmin.trans_le (min_le_left _ _), ?_⟩
    exact hin.trans_le (mul_le_of_le_one_right (abs_nonneg _) (share_mem _ _ _).2)
  mono := by
    intro temp temp' vIn vIn' htemp hvIn
    obtain ⟨hmax, hmin, hin⟩ := abs_presentLimits hc temp vIn
    obtain ⟨hmax', hmin', hin'⟩ := abs_presentLimits hc temp' vIn'
    have hderated := derated_antitone hc htemp
    refine ⟨?_, ?_, ?_⟩
    · rw [hmax, hmax']
      exact min_le_min_left _ hderated
    · rw [hmin, hmin']
      exact min_le_min_left _ hderated
    · rw [hin, hin']
      exact mul_le_mul_of_nonneg_left (share_monotone hc.battery hvIn) (abs_nonneg _)

end Present

/-! ## One update -/

theorem AdmitsOverride.congr {c c' : McConfiguration} (hc : AdmitsOverride c)
    (hsettings : settings c' = settings c) : AdmitsOverride c' := by
  have h : AdmitsOverride (settings c') := by
    rw [hsettings]
    exact ⟨hc.temp, hc.battery, hc.lInCurrentMax, hc.lCurrentMin, hc.lCurrentMax⟩
  exact ⟨h.temp, h.battery, h.lInCurrentMax, h.lCurrentMin, h.lCurrentMax⟩

theorem presentLimits_congr {c c' : McConfiguration} (hsettings : settings c' = settings c) :
    presentLimits c' = presentLimits c := by
  change presentLimits (settings c') = presentLimits (settings c)
  rw [hsettings]

namespace Motor

variable {s : Motor}

/-- Between the two temperatures, what need not be lowered is stored as it is configured. -/
def Settled (s : Motor) (present : Rat × Rat) : Prop :=
  s.conf.lTempFetStart ≤ present.1 → present.1 ≤ s.conf.lTempFetEnd →
    (s.conf.lCurrentMax ≤ derated s.conf present.1 → s.conf.loCurrentMax = s.conf.lCurrentMax) ∧
      (-s.conf.lCurrentMin ≤ derated s.conf present.1 →
        s.conf.loCurrentMin = s.conf.lCurrentMin)

instance (s : Motor) (present : Rat × Rat) : Decidable (s.Settled present) :=
  inferInstanceAs (Decidable (_ → _ → _ ∧ _))

theorem conf_faultStop (s : Motor) (fault : FaultCode) :
    (s.mcInterfaceFaultStop fault).conf = s.conf := by
  unfold mcInterfaceFaultStop dispatch
  dsimp only
  split
  · rfl
  · rfl
  · unfold mcpwmFocStopPwm mcpwmFocSetCurrent focControlCurrent
    split <;> rfl
  · rfl

/-- Where a limit is lowered, it is lowered to the smaller of the two. -/
theorem lowered_max_iff {c : McConfiguration} (hc : AdmitsOverride c) (maxc : Rat) :
    (if |c.lCurrentMax| > maxc then sign c.lCurrentMax * maxc else c.loCurrentMax) =
        min c.lCurrentMax maxc ↔
      (c.lCurrentMax ≤ maxc → c.loCurrentMax = c.lCurrentMax) := by
  rw [abs_of_nonneg hc.lCurrentMax]
  split
  next hlower =>
    rw [sign, if_neg (not_lt.2 hc.lCurrentMax), one_mul, min_eq_right hlower.le]
    exact iff_of_true rfl fun hle => absurd hlower (not_lt.2 hle)
  next hkeep =>
    rw [min_eq_left (not_lt.1 hkeep)]
    exact ⟨fun heq _ => heq, fun hsettled => hsettled (not_lt.1 hkeep)⟩

theorem lowered_min_iff {c : McConfiguration} (hc : AdmitsOverride c) {maxc : Rat}
    (hmaxc : 0 ≤ maxc) :
    (if |c.lCurrentMin| > maxc then sign c.lCurrentMin * maxc else c.loCurrentMin) =
        max c.lCurrentMin (-maxc) ↔
      (-c.lCurrentMin ≤ maxc → c.loCurrentMin = c.lCurrentMin) := by
  rw [abs_of_nonpos hc.lCurrentMin]
  split
  next hlower =>
    have hneg : c.lCurrentMin < 0 := neg_pos.1 (hmaxc.trans_lt hlower)
    rw [sign, if_pos hneg, neg_one_mul, max_eq_right (le_neg.1 hlower.le)]
    exact iff_of_true rfl fun hle => absurd hlower (not_lt.2 hle)
  next hkeep =>
    rw [max_eq_left (neg_le.1 (not_lt.1 hkeep))]
    exact ⟨fun heq _ => heq, fun hsettled => hsettled (not_lt.1 hkeep)⟩

theorem loInCurrentMax_batteryLimits (hc : AdmitsOverride s.conf) (temp vIn : Rat) :
    (s.batteryLimits vIn).conf.loInCurrentMax = (presentLimits s.conf temp vIn).loInCurrentMax := by
  have hbattery := neg_lt_neg hc.battery
  unfold batteryLimits presentLimits
  dsimp only
  rw [← share_neg]
  split
  next hfull => rw [share_full hbattery (neg_le_neg hfull.le), mul_one]
  next hlow =>
    split
    next hempty => rw [share_none hbattery (neg_le_neg hempty.le), mul_zero]
    next hbetween =>
      rw [share_between hbattery (neg_le_neg (not_lt.1 hlow)) (neg_le_neg (not_lt.1 hbetween))]
      unfold utilsMap
      rw [neg_sub_neg, neg_sub_neg, ← neg_sub vIn, ← neg_sub s.conf.lBatteryCutEnd, neg_mul,
        neg_div_neg_eq]

theorem loInCurrentMax_update (hc : AdmitsOverride s.conf) (temp vIn : Rat) :
    (s.updateOverrideLimits temp vIn).1.conf.loInCurrentMax =
      (presentLimits s.conf temp vIn).loInCurrentMax := by
  have hsettings := (s.keeps_temperatureLimits temp).settings
  rw [← presentLimits_congr hsettings]
  exact loInCurrentMax_batteryLimits (hc.congr hsettings) temp vIn

theorem presentLimits_cold {c : McConfiguration} (hc : AdmitsOverride c) {temp : Rat}
    (hcold : temp < c.lTempFetStart) (vIn : Rat) :
    (presentLimits c temp vIn).loCurrentMax = c.lCurrentMax ∧
      (presentLimits c temp vIn).loCurrentMin = c.lCurrentMin := by
  have hmax : c.lCurrentMax ≤ derated c temp := by
    rw [derated, share_full hc.temp hcold.le, mul_one]
    exact (le_abs_self _).trans (le_max_left _ _)
  have hmin : -c.lCurrentMin ≤ derated c temp := by
    rw [derated, share_full hc.temp hcold.le, mul_one]
    exact (neg_le_abs _).trans (le_max_right _ _)
  exact ⟨min_eq_left hmax, max_eq_left (neg_le.1 hmin)⟩

theorem presentLimits_hot {c : McConfiguration} (hc : AdmitsOverride c) {temp : Rat}
    (hhot : temp > c.lTempFetEnd) (vIn : Rat) :
    (presentLimits c temp vIn).loCurrentMax = 0 ∧ (presentLimits c temp vIn).loCurrentMin = 0 := by
  have hderated : derated c temp = 0 := by
    rw [derated, share_none hc.temp hhot.le, mul_zero]
  unfold presentLimits
  rw [hderated, neg_zero]
  exact ⟨min_eq_right hc.lCurrentMax, max_eq_right hc.lCurrentMin⟩

/-- The currents after an update are those of the present exactly if it was settled. -/
theorem loCurrent_temperatureLimits (hc : AdmitsOverride s.conf) (temp vIn : Rat) :
    (s.temperatureLimits temp).1.conf.loCurrentMax = (presentLimits s.conf temp vIn).loCurrentMax ∧
      (s.temperatureLimits temp).1.conf.loCurrentMin =
        (presentLimits s.conf temp vIn).loCurrentMin ↔ s.Settled (temp, vIn) := by
  unfold temperatureLimits
  dsimp only
  split
  next hcold =>
    obtain ⟨hmax, hmin⟩ := presentLimits_cold hc hcold vIn
    refine iff_of_true ⟨hmax.symm, hmin.symm⟩ fun hstart => ?_
    exact absurd hcold (not_lt.2 hstart)
  next hwarm =>
    split
    next hhot =>
      obtain ⟨hmax, hmin⟩ := presentLimits_hot hc hhot vIn
      rw [hmax, hmin]
      unfold stopping
      rw [conf_faultStop]
      refine iff_of_true ⟨rfl, rfl⟩ fun _ hend => ?_
      exact absurd hhot (not_lt.2 hend)
    next hbetween =>
      have hstart := not_lt.1 hwarm
      have hend := not_lt.1 hbetween
      have hmaxc : utilsMap temp s.conf.lTempFetStart s.conf.lTempFetEnd
          (if |s.conf.lCurrentMin| > |s.conf.lCurrentMax| then |s.conf.lCurrentMin|
            else |s.conf.lCurrentMax|) 0 = derated s.conf temp := by
        rw [derated, share_between hc.temp hstart hend]
        congr 1
        split
        next hlt => exact (max_eq_right hlt.le).symm
        next hle => exact (max_eq_left (not_lt.1 hle)).symm
      rw [hmaxc]
      have hiff := and_congr (lowered_max_iff hc (derated s.conf temp))
        (lowered_min_iff hc (derated_nonneg s.conf temp))
      exact hiff.trans ⟨fun hsettled _ _ => hsettled, fun hsettled => hsettled hstart hend⟩

/-- A round of `update_override_limits`. -/
theorem overrideLimits_update_iff (hc : AdmitsOverride s.conf) (temp vIn : Rat) :
    (s.updateOverrideLimits temp vIn).1.overrideLimits = presentLimits s.conf temp vIn ↔
      s.Settled (temp, vIn) := by
  rw [← loCurrent_temperatureLimits hc temp vIn]
  have hin := loInCurrentMax_update hc temp vIn
  constructor
  · intro heq
    exact ⟨congrArg OverrideLimits.loCurrentMax heq, congrArg OverrideLimits.loCurrentMin heq⟩
  · rintro ⟨hmax, hmin⟩
    unfold overrideLimits
    rw [hin]
    exact congrArg₂ (fun a b => (⟨a, b, _⟩ : OverrideLimits)) hmax hmin

end Motor

/-! ## Histories -/

theorem settings_overrideUpdates (s : Motor) (history : List (Rat × Rat)) :
    settings (overrideUpdates.run s history).1.conf = settings s.conf :=
  Machine.run_invariant (I := fun t : Motor => settings t.conf = settings s.conf)
    (fun t present ht => (t.keeps_updateOverrideLimits present.1 present.2).settings.trans ht) rfl
    history

theorem conf_mcInterfaceInit (c : McConfiguration) : (mcInterfaceInit c).conf = c := by
  unfold mcInterfaceInit Motor.dispatch
  split <;> rfl

/-- The limits follow the present all along. -/
def FollowsPresent (c : McConfiguration) (s : Motor) (history : List (Rat × Rat)) : Prop :=
  ∀ before temp vIn after, history = before ++ (temp, vIn) :: after →
    (overrideUpdates.run s (before ++ [(temp, vIn)])).1.overrideLimits = presentLimits c temp vIn

/-- The limits of the present protect, and the code arrives at them exactly if every update
between the two temperatures finds settled what it does not lower. -/
theorem followsPresent_iff {c : McConfiguration} (hc : AdmitsOverride c) :
    Protects c (presentLimits c) ∧
      ∀ (s : Motor) (history : List (Rat × Rat)), settings s.conf = settings c →
        (FollowsPresent c s history ↔ overrideUpdates.Always Motor.Settled s history) := by
  refine ⟨protects_presentLimits hc, fun s history hs => ?_⟩
  have hstep (before : List (Rat × Rat)) (temp vIn : Rat) :
      (overrideUpdates.run s (before ++ [(temp, vIn)])).1.overrideLimits =
          presentLimits c temp vIn ↔
        (overrideUpdates.run s before).1.Settled (temp, vIn) := by
    have hsettings := (settings_overrideUpdates s before).trans hs
    rw [Machine.run_append, ← presentLimits_congr hsettings]
    exact Motor.overrideLimits_update_iff (hc.congr hsettings) temp vIn
  rw [Machine.always_iff_forall_step]
  constructor
  · rintro hfollows before ⟨temp, vIn⟩ after heq
    exact (hstep before temp vIn).1 (hfollows before temp vIn after heq)
  · intro hall before temp vIn after heq
    exact (hstep before temp vIn).2 (hall before (temp, vIn) after heq)

/-- After an update in the cold everything is settled. -/
theorem Motor.settled_of_cold {s : Motor} (hc : AdmitsOverride s.conf) {temp : Rat}
    (hcold : temp < s.conf.lTempFetStart) (vIn : Rat) (present : Rat × Rat) :
    (s.updateOverrideLimits temp vIn).1.Settled present := by
  have hsettings := (s.keeps_updateOverrideLimits temp vIn).settings
  have hnow := (Motor.overrideLimits_update_iff hc temp vIn).2
    fun hstart => absurd hcold (not_lt.2 hstart)
  obtain ⟨hmax, hmin⟩ := Motor.presentLimits_cold hc hcold vIn
  have hlMax := congrArg McConfiguration.lCurrentMax hsettings
  have hlMin := congrArg McConfiguration.lCurrentMin hsettings
  refine fun _ _ => ⟨fun _ => ?_, fun _ => ?_⟩
  · exact (congrArg OverrideLimits.loCurrentMax hnow).trans (hmax.trans hlMax.symm)
  · exact (congrArg OverrideLimits.loCurrentMin hnow).trans (hmin.trans hlMin.symm)

/-- Nothing but the limits of the present could explain every history. -/
theorem eq_presentLimits {c : McConfiguration} (hc : AdmitsOverride c)
    {limits : Rat → Rat → OverrideLimits} (h : Explains c limits) : limits = presentLimits c := by
  funext temp vIn
  let s := mcInterfaceInit c
  have hs : settings s.conf = settings c := congrArg settings (conf_mcInterfaceInit c)
  have hconf := (settings_overrideUpdates s [(c.lTempFetStart - 1, vIn)]).trans hs
  have hcold : c.lTempFetStart - 1 < s.conf.lTempFetStart := by
    rw [conf_mcInterfaceInit]
    exact sub_one_lt _
  have hsettled := Motor.settled_of_cold (hc.congr hs) hcold vIn (temp, vIn)
  rw [← h s hs [(c.lTempFetStart - 1, vIn)] temp vIn, Machine.run_append,
    ← presentLimits_congr hconf]
  exact (Motor.overrideLimits_update_iff (hc.congr hconf) temp vIn).2 hsettled

/-- A drive current of 20 A and a brake current of 60 A, and temperatures from 50 to 60. -/
def unevenLimits : McConfiguration :=
  { (default : McConfiguration) with
    lCurrentMax := 20
    lCurrentMin := -60
    lTempFetStart := 50
    lTempFetEnd := 60
    lBatteryCutStart := 12
    lBatteryCutEnd := 10 }

theorem admitsOverride_unevenLimits : AdmitsOverride unevenLimits := by
  constructor <;> decide +kernel

/-- After an update in the cold. -/
theorem followsPresent_iff_uneven :
    FollowsPresent unevenLimits (mcInterfaceInit unevenLimits) [(20, 24), (52, 24)] := by
  refine ((followsPresent_iff admitsOverride_unevenLimits).2 _ _ rfl).2 ⟨?_, ?_, trivial⟩
  · decide +kernel
  · decide +kernel

/-- At 52 degrees the drive current is 20 A after an update at 20 degrees, and still 0 after
one at 70 degrees. -/
theorem not_explained_uneven :
    AdmitsOverride unevenLimits ∧
      ¬∃ limits, Protects unevenLimits limits ∧ Explains unevenLimits limits := by
  refine ⟨admitsOverride_unevenLimits, ?_⟩
  rintro ⟨limits, -, h⟩
  have hcold := h (mcInterfaceInit unevenLimits) rfl [(20, 24)] 52 24
  have hhot := h (mcInterfaceInit unevenLimits) rfl [(70, 24)] 52 24
  exact absurd (hcold.trans hhot.symm) (by decide +kernel)

end Bldc.Drive
