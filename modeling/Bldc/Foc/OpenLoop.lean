import Bldc.Drive.Utils
import Bldc.Foundation.Machine
import Mathlib.Algebra.BigOperators.Group.List.Basic
import Mathlib.Data.Rat.Floor
import Mathlib.Tactic.LinearCombination

/-!
# The open loop of the FOC driver

The observer does not see a rotor that stands still. When the speed has been low for a while,
the timer thread turns the phase itself for a certain time. It starts from the phase of the
observer, and ends after that time, also when the motor brakes meanwhile.
-/

namespace Bldc.Foc

open Foundation Utils

section Model

variable {K : Type} [Field K] [LinearOrder K]

/-- What the timer thread reads of `mc_configuration` for the open loop. -/
structure OpenLoopConfiguration (K : Type) where
  loCurrentMax : K
  focOpenloopRpm : K
  focSlOpenloopHyst : K
  focSlOpenloopTime : K

/-- The variables of the timer thread for the open loop, also the static ones. -/
structure OpenLoop (K : Type) where
  phaseNowEncoderNoIndex : K
  minRpmHystTimer : K
  minRpmTimer : K
  phaseNowObserverOverride : K
  phaseObserverOverride : Bool

/-- What a round of the thread finds. `brakes` is `m_control_mode == CONTROL_MODE_CURRENT_BRAKE`. -/
structure OpenLoopReading (K : Type) where
  iqTarget : K
  dutyNow : K
  pllSpeed : K
  brakes : Bool
  phaseNowObserver : K

variable (conf : OpenLoopConfiguration K)

namespace OpenLoopReading

variable (r : OpenLoopReading K)

def minRads : K :=
  map |r.iqTarget| 0 conf.loCurrentMax 0 conf.focOpenloopRpm * 2.0 * mPi / 60.0

def addMinSpeed : K := if r.dutyNow > 0 then r.minRads conf * 0.001 else -r.minRads conf * 0.001

/-- The speed is below that of the open loop. -/
def Slow : Prop := |r.pllSpeed| < r.minRads conf

instance : Decidable (r.Slow conf) := inferInstanceAs (Decidable (_ < _))

/-- The open loop is not to be used. -/
def Excluded : Prop := r.brakes = true ∨ |r.dutyNow| < 0.001

instance : Decidable r.Excluded := inferInstanceAs (Decidable (_ ∨ _))

end OpenLoopReading

namespace OpenLoop

variable (s : OpenLoop K) (r : OpenLoopReading K)

/-- `min_rpm_hyst_timer` where it is compared. -/
def hystTimer : K :=
  if r.Excluded then 0
  else if r.Slow conf then s.minRpmHystTimer + 0.001
  else if s.minRpmHystTimer > 0 then s.minRpmHystTimer - 0.001
  else s.minRpmHystTimer

/-- `min_rpm_timer` where it is compared. -/
def timer : K :=
  if s.hystTimer conf r > conf.focSlOpenloopHyst ∧ s.minRpmTimer ≤ 0.0001 then
    conf.focSlOpenloopTime
  else s.minRpmTimer

/-- The open loop in a round of the timer thread. -/
def round [FloorRing K] : OpenLoop K :=
  let phase := normAngleRad (s.phaseNowEncoderNoIndex + r.addMinSpeed conf)
  if s.timer conf r > 0 then
    { phaseNowEncoderNoIndex := phase
      minRpmHystTimer := 0
      minRpmTimer := s.timer conf r - 0.001
      phaseNowObserverOverride :=
        normAngleRad (s.phaseNowObserverOverride + r.addMinSpeed conf)
      phaseObserverOverride := true }
  else
    { phaseNowEncoderNoIndex := phase
      minRpmHystTimer := s.hystTimer conf r
      minRpmTimer := s.timer conf r
      phaseNowObserverOverride := r.phaseNowObserver
      phaseObserverOverride := false }

/-- The start of the firmware. -/
def start : OpenLoop K := ⟨0, 0, 0, 0, false⟩

end OpenLoop

def openLoop [FloorRing K] : Machine (OpenLoop K) (OpenLoopReading K) Empty where
  step s r := (s.round conf r, [])

end Model

section Proof

variable {K : Type} [Field K] [LinearOrder K] {conf : OpenLoopConfiguration K}

/-- A stretch without excluded rounds, with enough slow ones for this time. -/
def Waited (conf : OpenLoopConfiguration K) (time : K) (recent : List (OpenLoopReading K)) : Prop :=
  (∀ r ∈ recent, ¬r.Excluded) ∧ time ≤ 0.001 * (recent.countP fun r => r.Slow conf : Nat)

theorem waited_zero : Waited conf 0 [] := ⟨by simp, by simp⟩

theorem Waited.snoc [IsStrictOrderedRing K] {s : OpenLoop K} {recent : List (OpenLoopReading K)}
    (h : Waited conf s.minRpmHystTimer recent) {r : OpenLoopReading K} (hr : ¬r.Excluded) :
    Waited conf (s.hystTimer conf r) (recent ++ [r]) := by
  rcases h with ⟨hincluded, htime⟩
  constructor
  · intro r' hr'
    rcases List.mem_append.1 hr' with hr' | hr'
    · exact hincluded r' hr'
    · rwa [List.mem_singleton.1 hr']
  · rw [OpenLoop.hystTimer, if_neg hr, List.countP_append, List.countP_singleton]
    have hpos : (0 : K) < 0.001 := by norm_num
    by_cases hslow : r.Slow conf
    · simp only [hslow, if_true, decide_true]
      push_cast
      linarith
    · simp only [hslow, if_false, decide_false, Bool.false_eq_true, add_zero]
      split <;> linarith

variable [IsStrictOrderedRing K]
variable [FloorRing K]

/-- The phase of the observer in the last of these rounds. -/
def lastSeen (rounds : List (OpenLoopReading K)) : K :=
  (rounds.getLast?.map OpenLoopReading.phaseNowObserver).getD 0

/-- The state after these rounds. -/
def OpenLoop.after (conf : OpenLoopConfiguration K) (rounds : List (OpenLoopReading K)) :
    OpenLoop K := ((openLoop conf).run OpenLoop.start rounds).1

/-- No open loop runs in these rounds, which follow the earlier ones. -/
def Idle (conf : OpenLoopConfiguration K) (earlier recent : List (OpenLoopReading K)) : Prop :=
  ∀ part, part <+: recent → part ≠ [] →
    (OpenLoop.after conf (earlier ++ part)).phaseObserverOverride = false

/-- An open loop that is under way and began with `first`. -/
structure UnderWay (conf : OpenLoopConfiguration K) (s : OpenLoop K)
    (before : List (OpenLoopReading K)) (first : OpenLoopReading K)
    (rest : List (OpenLoopReading K)) : Prop where
  idle : (OpenLoop.after conf before).phaseObserverOverride = false
  -- since the last open loop
  waited : ∃ earlier recent time, before = earlier ++ recent ∧ Idle conf earlier recent ∧
    conf.focSlOpenloopHyst < time ∧ Waited conf time (recent ++ [first])
  busy (part : List (OpenLoopReading K)) : part <+: rest →
    (OpenLoop.after conf (before ++ first :: part)).phaseObserverOverride = true
  timer : s.minRpmTimer = conf.focSlOpenloopTime - 0.001 * (rest.length + 1 : Nat)
  lasts : 0.001 * (rest.length : K) < conf.focSlOpenloopTime
  -- the phase goes on from that of the observer
  phase : ∃ turns : Int, s.phaseNowObserverOverride = lastSeen before +
    ((first :: rest).map fun r => r.addMinSpeed conf).sum + 2 * mPi * turns

/-- What holds after these rounds. -/
structure OpenLoop.Sound (conf : OpenLoopConfiguration K) (s : OpenLoop K)
    (rounds : List (OpenLoopReading K)) : Prop where
  waited : ∃ earlier recent, rounds = earlier ++ recent ∧ Idle conf earlier recent ∧
    Waited conf s.minRpmHystTimer recent
  idle : s.phaseObserverOverride = false →
    s.minRpmTimer ≤ 0 ∧ s.phaseNowObserverOverride = lastSeen rounds
  busy : s.phaseObserverOverride = true → s.minRpmHystTimer = 0 ∧
    ∃ before first rest, rounds = before ++ first :: rest ∧ UnderWay conf s before first rest

omit [IsStrictOrderedRing K] in
theorem idle_nil (earlier : List (OpenLoopReading K)) : Idle conf earlier [] :=
  fun _ hpart hne => absurd (List.prefix_nil.1 hpart) hne

omit [IsStrictOrderedRing K] in
theorem Idle.snoc {earlier recent : List (OpenLoopReading K)} (h : Idle conf earlier recent)
    {r : OpenLoopReading K}
    (hr : (OpenLoop.after conf (earlier ++ recent ++ [r])).phaseObserverOverride = false) :
    Idle conf earlier (recent ++ [r]) := by
  intro part hpart hne
  rcases List.prefix_concat_iff.1 hpart with rfl | hpart
  · rwa [← List.append_assoc]
  · exact h part hpart hne

omit [IsStrictOrderedRing K] in
theorem OpenLoop.after_snoc (rounds : List (OpenLoopReading K)) (r : OpenLoopReading K) :
    after conf (rounds ++ [r]) = (after conf rounds).round conf r := by
  rw [after, Machine.run_append]
  rfl

omit [IsStrictOrderedRing K] in
theorem OpenLoop.round_override (s : OpenLoop K) (r : OpenLoopReading K) :
    (s.round conf r).phaseObserverOverride = true ↔ 0 < s.timer conf r := by
  unfold round
  split
  next hpos => simpa using hpos
  next hneg => simpa using not_lt.1 hneg

omit [IsStrictOrderedRing K] in
theorem OpenLoop.round_phase {s : OpenLoop K} {r : OpenLoopReading K} (h : 0 < s.timer conf r) :
    ∃ turns : Int, (s.round conf r).phaseNowObserverOverride =
      s.phaseNowObserverOverride + r.addMinSpeed conf + 2 * mPi * turns := by
  rw [round, if_pos h]
  exact reduce_turns mPi (2 * mPi) (s.phaseNowObserverOverride + r.addMinSpeed conf)

/-- While the open loop is under way nothing restarts it, and nothing ends it. -/
theorem OpenLoop.timer_of_busy (hhyst : 0.001 ≤ conf.focSlOpenloopHyst) {s : OpenLoop K}
    (hs : s.minRpmHystTimer = 0) (r : OpenLoopReading K) : s.timer conf r = s.minRpmTimer := by
  have hwaiting : ¬s.hystTimer conf r > conf.focSlOpenloopHyst := by
    have hpos : (0 : K) < 0.001 := by norm_num
    unfold hystTimer
    rw [hs]
    split
    · linarith
    · split
      · linarith
      · simp only [gt_iff_lt, lt_irrefl, if_false]
        linarith
  rw [timer, if_neg fun h => hwaiting h.1]

/-- It begins after the wait, and not in a round that is excluded. -/
theorem OpenLoop.begins (hhyst : 0.001 ≤ conf.focSlOpenloopHyst) {s : OpenLoop K}
    (hs : s.minRpmTimer ≤ 0) {r : OpenLoopReading K} (hpos : 0 < s.timer conf r) :
    conf.focSlOpenloopHyst < s.hystTimer conf r ∧ s.timer conf r = conf.focSlOpenloopTime ∧
      ¬r.Excluded := by
  by_cases hwaited : s.hystTimer conf r > conf.focSlOpenloopHyst ∧ s.minRpmTimer ≤ 0.0001
  · refine ⟨hwaited.1, if_pos hwaited, fun hexcluded => ?_⟩
    have hzero : s.hystTimer conf r = 0 := if_pos hexcluded
    have hthousandth : (0 : K) < 0.001 := by norm_num
    linarith [hwaited.1]
  · rw [timer, if_neg hwaited] at hpos
    linarith

theorem UnderWay.begin (hhyst : 0.001 ≤ conf.focSlOpenloopHyst)
    {rounds : List (OpenLoopReading K)} (h : (OpenLoop.after conf rounds).Sound conf rounds)
    (hidle : (OpenLoop.after conf rounds).phaseObserverOverride = false) {r : OpenLoopReading K}
    (hpos : 0 < (OpenLoop.after conf rounds).timer conf r) :
    UnderWay conf ((OpenLoop.after conf rounds).round conf r) rounds r [] := by
  rcases h.idle hidle with ⟨htimer, hphase⟩
  rcases OpenLoop.begins hhyst htimer hpos with ⟨hwaited, htime, hincluded⟩
  constructor
  · exact hidle
  · rcases h.waited with ⟨earlier, recent, hrounds, hrecent, hwait⟩
    exact ⟨earlier, recent, _, hrounds, hrecent, hwaited, hwait.snoc hincluded⟩
  · intro part hpart
    rw [List.prefix_nil.1 hpart, OpenLoop.after_snoc, OpenLoop.round_override]
    exact hpos
  · rw [OpenLoop.round, if_pos hpos, htime]
    simp
  · rw [htime] at hpos
    simpa using hpos
  · rcases OpenLoop.round_phase hpos with ⟨turns, hturns⟩
    exact ⟨turns, by simpa [hphase] using hturns⟩

theorem UnderWay.goesOn (hhyst : 0.001 ≤ conf.focSlOpenloopHyst)
    {before rest : List (OpenLoopReading K)} {first : OpenLoopReading K}
    (hwaiting : (OpenLoop.after conf (before ++ first :: rest)).minRpmHystTimer = 0)
    (h : UnderWay conf (OpenLoop.after conf (before ++ first :: rest)) before first rest)
    {r : OpenLoopReading K}
    (hpos : 0 < (OpenLoop.after conf (before ++ first :: rest)).timer conf r) :
    UnderWay conf ((OpenLoop.after conf (before ++ first :: rest)).round conf r) before first
      (rest ++ [r]) := by
  have htimer := OpenLoop.timer_of_busy hhyst hwaiting r
  constructor
  · exact h.idle
  · exact h.waited
  · intro part hpart
    rcases List.prefix_concat_iff.1 hpart with rfl | hpart
    · have hsplit : before ++ first :: (rest ++ [r]) = before ++ first :: rest ++ [r] := by simp
      rw [hsplit, OpenLoop.after_snoc, OpenLoop.round_override]
      exact hpos
    · exact h.busy part hpart
  · rw [OpenLoop.round, if_pos hpos, htimer, List.length_append]
    dsimp only
    rw [h.timer, List.length_singleton]
    push_cast
    ring
  · rw [htimer, h.timer] at hpos
    push_cast [List.length_append, List.length_singleton] at hpos ⊢
    linarith
  · rcases h.phase with ⟨turns, hturns⟩
    rcases OpenLoop.round_phase hpos with ⟨turns', hturns'⟩
    refine ⟨turns + turns', ?_⟩
    rw [hturns', hturns]
    simp only [List.map_cons, List.map_append, List.map_nil, List.sum_cons, List.sum_append,
      List.sum_nil]
    push_cast
    ring

theorem OpenLoop.Sound.round (hhyst : 0.001 ≤ conf.focSlOpenloopHyst)
    {rounds : List (OpenLoopReading K)} (h : (after conf rounds).Sound conf rounds)
    (r : OpenLoopReading K) : (after conf (rounds ++ [r])).Sound conf (rounds ++ [r]) := by
  rw [after_snoc]
  by_cases hpos : 0 < (after conf rounds).timer conf r
  · have hbusy := (round_override (after conf rounds) r).2 hpos
    constructor
    · rw [OpenLoop.round, if_pos hpos]
      exact ⟨_, [], (List.append_nil _).symm, idle_nil _, waited_zero⟩
    · intro hidle
      rw [hbusy] at hidle
      cases hidle
    · intro _
      refine ⟨by rw [OpenLoop.round, if_pos hpos], ?_⟩
      cases hstate : (after conf rounds).phaseObserverOverride with
      | false => exact ⟨rounds, r, [], rfl, .begin hhyst h hstate hpos⟩
      | true =>
          rcases h.busy hstate with ⟨hwaiting, before, first, rest, rfl, hway⟩
          exact ⟨before, first, rest ++ [r], by simp, hway.goesOn hhyst hwaiting hpos⟩
  · have hidle : ((after conf rounds).round conf r).phaseObserverOverride = false := by
      rw [← Bool.not_eq_true, round_override]
      exact hpos
    constructor
    · rw [OpenLoop.round, if_neg hpos]
      by_cases hexcluded : r.Excluded
      · rw [OpenLoop.hystTimer, if_pos hexcluded]
        exact ⟨_, [], (List.append_nil _).symm, idle_nil _, waited_zero⟩
      · rcases h.waited with ⟨earlier, recent, rfl, hrecent, hwait⟩
        rw [← after_snoc] at hidle
        exact ⟨earlier, recent ++ [r], by simp, hrecent.snoc hidle, hwait.snoc hexcluded⟩
    · intro _
      rw [OpenLoop.round, if_neg hpos]
      exact ⟨not_lt.1 hpos, by simp [lastSeen]⟩
    · intro hbusy
      rw [hidle] at hbusy
      cases hbusy

/-- The rotor stands still under half of the current. -/
def standing : OpenLoopReading Rat := ⟨30, 0.1, 0, false, 1⟩

end Proof

end Bldc.Foc
