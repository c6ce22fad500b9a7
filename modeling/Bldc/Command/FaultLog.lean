import Bldc.Drive.State
import Bldc.Foundation.Ring
import Bldc.Link.Buffer

/-!
# The faults that the terminal lists

`mc_interface_fault_stop` records every fault in a vector that is written round and round,
and the command `faults` prints the vector. The index of the next write is also taken for the
number of the faults and, when it is zero, for the sign that there are none.
-/

namespace Bldc.Command

open Drive Link Foundation

/-- `FAULT_VEC_LEN`. -/
def faultVecLen : Nat := 25

/-- `fault_data`. -/
structure FaultData where
  fault : FaultCode
  current : Rat
  currentFiltered : Rat
  voltage : Rat
  duty : Rat
  rpm : Rat
  tacho : Int
  cyclesRunning : Int
  timValSamp : Int
  timCurrentSamp : Int
  timTop : Int
  commStep : Int
  temperature : Rat
  deriving DecidableEq, Repr

/-- An argument of `commands_printf`. -/
inductive PrintArg where
  | none
  | string (value : String)
  | double (value : Rat)
  | int (value : Int)
  deriving DecidableEq, Repr

/-- A call of `commands_printf`. -/
structure Printf where
  format : String
  arg : PrintArg
  deriving DecidableEq, Repr

/-- `mc_interface_fault_to_string`. -/
def mcInterfaceFaultToString : FaultCode → String
  | .none => "FAULT_CODE_NONE"
  | .overVoltage => "FAULT_CODE_OVER_VOLTAGE"
  | .underVoltage => "FAULT_CODE_UNDER_VOLTAGE"
  | .drv8302 => "FAULT_CODE_DRV8302"
  | .absOverCurrent => "FAULT_CODE_ABS_OVER_CURRENT"
  | .overTempFet => "FAULT_CODE_OVER_TEMP_FET"
  | .overTempMotor => "FAULT_CODE_OVER_TEMP_MOTOR"

/-- The lines for one fault. -/
def FaultData.lines (data : FaultData) : List Printf :=
  [⟨"Fault            : %s", .string (mcInterfaceFaultToString data.fault)⟩,
    ⟨"Current          : %.1f", .double data.current⟩,
    ⟨"Current filtered : %.1f", .double data.currentFiltered⟩,
    ⟨"Voltage          : %.2f", .double data.voltage⟩,
    ⟨"Duty             : %.2f", .double data.duty⟩,
    ⟨"RPM              : %.1f", .double data.rpm⟩,
    ⟨"Tacho            : %d", .int data.tacho⟩,
    ⟨"Cycles running   : %d", .int data.cyclesRunning⟩,
    ⟨"TIM duty         : %d", .int (truncate (data.timTop * data.duty))⟩,
    ⟨"TIM val samp     : %d", .int data.timValSamp⟩,
    ⟨"TIM current samp : %d", .int data.timCurrentSamp⟩,
    ⟨"TIM top          : %d", .int data.timTop⟩,
    ⟨"Comm step        : %d", .int data.commStep⟩,
    ⟨"Temperature      : %.2f\n", .double data.temperature⟩]

/-- `fault_vec` and `fault_vec_write`. -/
structure FaultLog where
  faultVec : Nat → FaultData
  faultVecWrite : Nat
  inside : faultVecWrite < faultVecLen

/-- The vector before the first fault. -/
def FaultLog.empty : FaultLog where
  faultVec := fun _ => ⟨.none, 0, 0, 0, 0, 0, 0, 0, 0, 0, 0, 0, 0⟩
  faultVecWrite := 0
  inside := by decide

/-- `terminal_add_fault_data`. -/
def FaultLog.terminalAddFaultData (log : FaultLog) (data : FaultData) : FaultLog where
  faultVec := Function.update log.faultVec log.faultVecWrite data
  faultVecWrite := if faultVecLen ≤ log.faultVecWrite + 1 then 0 else log.faultVecWrite + 1
  inside := by
    split
    · decide
    next hinside => exact Nat.not_le.1 hinside

def noFaults : Printf := ⟨"No faults registered since startup\n", .none⟩

def faultsHeader : Printf := ⟨"The following faults were registered since start:\n", .none⟩

/-- The command `faults` of `terminal_process_string`. -/
def FaultLog.faults (log : FaultLog) : List Printf :=
  if log.faultVecWrite = 0 then [noFaults]
  else faultsHeader :: (List.range log.faultVecWrite).flatMap fun i => (log.faultVec i).lines

/-- The log after the faults have been recorded in their order. -/
def FaultLog.recorded (faults : List FaultData) : FaultLog :=
  faults.foldl terminalAddFaultData empty

/-- The latest faults, as many as the vector holds. -/
def latestFaults (faults : List FaultData) : List FaultData :=
  faults.drop (faults.length - faultVecLen)

/-- What is printed lists these faults. -/
def Lists (listed : List FaultData) (printed : List Printf) : Prop :=
  (listed = [] ∧ printed = [noFaults]) ∨ printed = faultsHeader :: listed.flatMap FaultData.lines

/-- The latest faults are listed in some order, and there are said to be none only if
none was recorded. -/
def ListsLatest (faults : List FaultData) (printed : List Printf) : Prop :=
  (∃ listed, listed.Perm (latestFaults faults) ∧ Lists listed printed) ∧
    (noFaults ∈ printed → faults = [])

namespace FaultLog

theorem faultVecWrite_terminalAddFaultData (log : FaultLog) (data : FaultData) {i : Nat}
    (h : log.faultVecWrite = i % faultVecLen) :
    (log.terminalAddFaultData data).faultVecWrite = (i + 1) % faultVecLen := by
  have hinside := log.inside
  rw [← wrap_mod (by decide), ← h]
  apply if_congr _ rfl rfl
  omega

/-- The vector holds the last faults, and the next one is written behind them. -/
structure Stores (faults : List FaultData) (log : FaultLog) : Prop where
  write : log.faultVecWrite = faults.length % faultVecLen
  holds : HoldsLast faultVecLen faults log.faultVec

theorem stores_empty : Stores [] empty := ⟨rfl, holdsLast_nil _⟩

theorem Stores.add {faults : List FaultData} {log : FaultLog} (h : Stores faults log)
    (data : FaultData) : Stores (faults ++ [data]) (log.terminalAddFaultData data) where
  write := by
    rw [List.length_append, List.length_singleton]
    exact faultVecWrite_terminalAddFaultData log data h.write
  holds := by
    have hpush := h.holds.push data
    rw [← h.write] at hpush
    exact hpush

theorem stores_foldl {faults : List FaultData} {log : FaultLog} (h : Stores faults log)
    (later : List FaultData) : Stores (faults ++ later) (later.foldl terminalAddFaultData log) := by
  induction later generalizing faults log with
  | nil =>
      rw [List.append_nil]
      exact h
  | cons data later ih =>
      have hlater := ih (h.add data)
      rw [List.append_assoc] at hlater
      exact hlater

theorem stores_recorded (faults : List FaultData) : Stores faults (recorded faults) :=
  stores_foldl stores_empty faults

end FaultLog

theorem length_flatMap_lines (faults : List FaultData) :
    (faults.flatMap FaultData.lines).length = faults.length * 14 := by
  induction faults with
  | nil => rfl
  | cons data faults ih =>
      rw [List.flatMap_cons, List.length_append, ih, List.length_cons, Nat.add_one_mul,
        Nat.add_comm]
      rfl

theorem Lists.length_eq {listed : List FaultData} {lines : List Printf}
    (h : Lists listed (faultsHeader :: lines)) : lines.length = listed.length * 14 := by
  rcases h with ⟨-, hnone⟩ | hlines
  · exact absurd (List.cons.inj hnone).1 (by decide)
  · rw [(List.cons.inj hlines).2, length_flatMap_lines]

theorem length_latestFaults (faults : List FaultData) :
    (latestFaults faults).length = min faults.length faultVecLen := by
  rw [latestFaults, List.length_drop]
  omega

theorem noFaults_not_mem (faults : List FaultData) :
    noFaults ∉ faultsHeader :: faults.flatMap FaultData.lines := by
  rw [List.mem_cons, List.mem_flatMap]
  rintro (hheader | ⟨data, -, hdata⟩)
  · exact absurd hheader (by decide)
  · simp [FaultData.lines, noFaults] at hdata

theorem FaultLog.faults_eq {log : FaultLog} (h : log.faultVecWrite ≠ 0) :
    log.faults = faultsHeader ::
      ((List.range log.faultVecWrite).map log.faultVec).flatMap FaultData.lines := by
  rw [FaultLog.faults, if_neg h, List.flatMap_map]

/-- Fewer faults than the vector has room for are all listed. -/
theorem listsLatest_of_lt {faults : List FaultData} (h : faults.length < faultVecLen) :
    ListsLatest faults (FaultLog.recorded faults).faults := by
  have hstores := FaultLog.stores_recorded faults
  have hwrite := hstores.write
  rw [Nat.mod_eq_of_lt h] at hwrite
  by_cases hnone : faults = []
  · subst hnone
    exact ⟨⟨[], List.Perm.refl _, .inl ⟨rfl, rfl⟩⟩, fun _ => rfl⟩
  · have hslots := hstores.holds.slots_eq h.le
    rw [Nat.mod_eq_of_lt h, List.take_length] at hslots
    have hsome : (FaultLog.recorded faults).faultVecWrite ≠ 0 := by
      rw [hwrite]
      exact mt List.length_eq_zero_iff.1 hnone
    rw [FaultLog.faults_eq hsome, hwrite, hslots]
    refine ⟨⟨faults, ?_, .inr rfl⟩, fun hmem => absurd hmem (noFaults_not_mem faults)⟩
    rw [latestFaults, Nat.sub_eq_zero_of_le h.le, List.drop_zero]

/-- Once the index has gone round, faults are missing. -/
theorem not_listsLatest_of_le {faults : List FaultData} (h : faultVecLen ≤ faults.length) :
    ¬ListsLatest faults (FaultLog.recorded faults).faults := by
  rintro ⟨⟨listed, hperm, hlists⟩, hnone⟩
  have hinside := (FaultLog.recorded faults).inside
  have hlength := hperm.length_eq
  rw [length_latestFaults, Nat.min_eq_right h] at hlength
  by_cases hwrite : (FaultLog.recorded faults).faultVecWrite = 0
  · have hempty : faults = [] := by
      apply hnone
      rw [FaultLog.faults, if_pos hwrite]
      exact List.mem_singleton_self _
    rw [hempty] at h
    exact absurd h (by decide)
  · rw [FaultLog.faults_eq hwrite] at hlists
    have hlines := hlists.length_eq
    rw [length_flatMap_lines, List.length_map, List.length_range] at hlines
    omega

/-- The latest faults are listed exactly if the vector has not been filled. -/
theorem listsLatest_iff (faults : List FaultData) :
    ListsLatest faults (FaultLog.recorded faults).faults ↔ faults.length < faultVecLen := by
  refine ⟨fun hlists => ?_, listsLatest_of_lt⟩
  by_contra hfull
  exact not_listsLatest_of_le (Nat.not_lt.1 hfull) hlists

/-- An over-current fault. -/
def overCurrent : FaultData := ⟨.absOverCurrent, 150, 60, 40, 0.5, 9000, 0, 100, 0, 0, 0, 1, 35⟩

/-- After 25 faults there are said to be none. -/
theorem not_listsLatest_replicate :
    ¬ListsLatest (List.replicate 25 overCurrent)
      (FaultLog.recorded (List.replicate 25 overCurrent)).faults := by
  rintro ⟨-, hnone⟩
  exact absurd (hnone (List.mem_singleton_self _)) (by decide)

end Bldc.Command
