import Bldc.Conf.Store
import Bldc.System.Upload

/-!
# Is the system lock balanced

Four routines take the counted lock and stop the watchdog clock around a loop of
flash operations. The configuration stores leave their loop and give both back;
the firmware functions return from inside the loop when an operation fails.
-/

namespace Bldc.Sys

open Foundation Foundation.Program Flash Eeprom Conf

/-- The status an operation reports and, when that is an error, whether the flash
changed all the same. -/
abbrev OpResult := Status × Bool

def OpResult.answer : OpResult → Answer Status
  | (.complete, _) => .done
  | (status, performed) => .fail status performed

def answers (results : List OpResult) : List (Answer Status) := results.map OpResult.answer

/-- The routines that operate on the flash under the lock. -/
inductive Routine where
  | eraseNewApp (newAppSize : Word)
  | writeNewAppData (offset : Word) (data : Nat → Byte) (len : Word)
  | storeMcConfiguration (conf : Bytes)
  | storeAppConfiguration (conf : Bytes)

namespace Routine

def call : Routine → SysProgram Unit
  | eraseNewApp newAppSize => do
      let _ ← flashHelperEraseNewApp newAppSize
  | writeNewAppData offset data len => do
      let _ ← flashHelperWriteNewAppData offset data len
  | storeMcConfiguration conf => do
      let _ ← confGeneralStoreMcConfiguration conf
  | storeAppConfiguration conf => do
      let _ ← confGeneralStoreAppConfiguration conf

/-- How many sectors `flash_helper_erase_new_app` erases. -/
def eraseCount (newAppSize : Word) : Nat :=
  (newAppSectors.takeWhile fun sector =>
    newAppSize + flashAddrWord newAppBase > flashAddrWord sector).length

/-- No operation fails from which the routine would return early. -/
def Undisturbed (results : List OpResult) : Routine → Prop
  | eraseNewApp newAppSize =>
      ∀ result ∈ results.take (eraseCount newAppSize), result.1 = .complete
  | writeNewAppData _ _ len => ∀ result ∈ results.take len.toNat, result.1 = .complete
  | storeMcConfiguration _ | storeAppConfiguration _ => True

end Routine

/-- The routine returned, both locks are as before and the watchdog clock runs. -/
def Balanced (s : System) (out : Outcome System Status Unit) : Prop :=
  out.result = some () ∧ out.state.sysLockCnt = s.sysLockCnt ∧
    out.state.kernelLocked = s.kernelLocked ∧ out.state.wwdgClock = true

variable {α : Type}

/-- One operation consumes one result and changes nothing but the memory. -/
theorem exec_op_answers (operation : Op) (next : Status → SysProgram α)
    (results : List OpResult) (s : System) :
    ∃ mem, device.exec (op operation next) (answers results) s =
      device.exec (next (results.headD (.complete, true)).1) (answers results.tail)
        (putMem mem s) := by
  cases results with
  | nil => exact ⟨_, rfl⟩
  | cons result rest =>
      obtain ⟨status, performed⟩ := result
      cases performed
      · cases status <;> first | exact ⟨s.mem, rfl⟩ | exact ⟨_, rfl⟩
      · cases status <;> exact ⟨_, rfl⟩

/-- A loop of `count` operations that stops at the first that fails. -/
def StopsAtFailure (loop : SysProgram (Option Status)) (count : Nat) : Prop :=
  ∀ results s, ∃ res mem rest, device.exec loop (answers results) s =
    ⟨some res, putMem mem s, answers rest⟩ ∧
      (res = none ↔ ∀ result ∈ results.take count, result.1 = .complete)

theorem stopsAtFailure_ret : StopsAtFailure (ret none) 0 :=
  fun results s => ⟨none, s.mem, results, rfl, by simp⟩

theorem stopsAtFailure_op {operation : Op} {loop : SysProgram (Option Status)} {count : Nat}
    (h : StopsAtFailure loop count) :
    StopsAtFailure (op operation fun res =>
      if res ≠ .complete then ret (some res) else loop) (count + 1) := by
  intro results s
  obtain ⟨mem, hexec⟩ := exec_op_answers operation
    (fun res => if res ≠ .complete then ret (some res) else loop) results s
  rw [hexec]
  by_cases hstatus : (results.headD (.complete, true)).1 = .complete
  · obtain ⟨res, mem', rest, hloop, hiff⟩ := h results.tail (putMem mem s)
    refine ⟨res, mem', rest, ?_, hiff.trans ?_⟩
    · rw [if_neg (not_not_intro hstatus), hloop]
      rfl
    · cases results with
      | nil => simp
      | cons result rest => simpa using fun _ => hstatus
  · refine ⟨_, mem, results.tail, by rw [if_pos hstatus]; rfl, ?_⟩
    cases results with
    | nil => exact absurd rfl hstatus
    | cons result rest => simpa using fun h => absurd h hstatus

theorem stopsAtFailure_eraseLoop (newAppSize : Word) (sectors : List Sector) :
    StopsAtFailure (eraseLoop newAppSize sectors)
      (sectors.takeWhile fun sector => newAppSize > flashAddrWord sector).length := by
  induction sectors with
  | nil => exact stopsAtFailure_ret
  | cons sector rest ih =>
      rw [eraseLoop]
      by_cases h : newAppSize > flashAddrWord sector
      · rw [if_pos h, List.takeWhile_cons_of_pos (by simpa using h), List.length_cons]
        exact stopsAtFailure_op ih
      · rw [if_neg h, List.takeWhile_cons_of_neg (by simpa using h), List.length_nil]
        exact stopsAtFailure_ret

theorem stopsAtFailure_programLoop (offset : Word) (data : Nat → Byte) (count i : Nat) :
    StopsAtFailure (programLoop offset data count i) count := by
  induction count generalizing i with
  | zero => exact stopsAtFailure_ret
  | succ count ih => exact stopsAtFailure_op (ih (i + 1))

/-- Leaving restores the lock unless the kernel lock was held without it. -/
theorem balanced_left (mem : Mem) (s : System) (rest : List (Answer Status)) :
    Balanced s ⟨some (), left (putMem mem (entered s)), rest⟩ ↔
      (s.sysLockCnt = 0 → s.kernelLocked = false) := by
  rw [left_putMem_entered]
  by_cases h : s.sysLockCnt = 0
  · cases hkernel : s.kernelLocked <;> simp [Balanced, h, hkernel]
  · simp [Balanced, h]

/-- An early return keeps the lock. -/
theorem not_balanced_entered (mem : Mem) (s : System) (rest : List (Answer Status)) :
    ¬Balanced s ⟨some (), putMem mem (entered s), rest⟩ := by
  rintro ⟨-, hcount, -⟩
  rw [entered_eq] at hcount
  simp [putMem] at hcount

theorem balanced_guarded {loop : SysProgram (Option Status)} {count : Nat}
    (h : StopsAtFailure loop count) (results : List OpResult) (s : System) :
    Balanced s (device.exec ((guarded loop).bind fun _ => ret ()) (answers results) s) ↔
      (s.sysLockCnt = 0 → s.kernelLocked = false) ∧
        ∀ result ∈ results.take count, result.1 = .complete := by
  obtain ⟨res, mem, rest, hloop, hiff⟩ := h results (entered s)
  rw [← hiff, guarded]
  simp only [bind_eq, pure_eq, bind_assoc, exec_enter]
  rw [Device.exec_bind, hloop]
  cases res with
  | none => exact (balanced_left mem s (answers rest)).trans (and_iff_left rfl).symm
  | some res =>
      refine iff_of_false (not_balanced_entered mem s (answers rest)) ?_
      rintro ⟨-, hnone⟩
      cases hnone

theorem cut_not_mem_answers (results : List OpResult) : Answer.cut ∉ answers results := by
  intro h
  obtain ⟨⟨status, performed⟩, -, hcut⟩ := List.mem_map.1 h
  cases status <;> cases hcut

/-- A store leaves its loop by the same way whatever the flash reports. -/
theorem balanced_confGeneralStore (kind : Kind) (conf : Bytes) (results : List OpResult)
    (s : System) :
    Balanced s (device.exec ((confGeneralStore kind conf).bind fun _ => ret ())
        (answers results) s) ↔ (s.sysLockCnt = 0 → s.kernelLocked = false) := by
  have hexec := exec_confGeneralStore kind conf (answers results) s
  obtain ⟨isOk, hresult⟩ := Option.isSome_iff_exists.1 (Eeprom.device.exec_isSome
    (storeLoop kind conf kind.count 0) s.mem (cut_not_mem_answers results))
  simp only [hresult] at hexec
  rw [Device.exec_bind, hexec]
  exact balanced_left _ s _

/-- Whatever the flash reports, the lock and the watchdog clock are restored
exactly when no operation of a firmware function fails; the stores always restore
them. -/
theorem balanced_iff_undisturbed (routine : Routine) (results : List OpResult) (s : System) :
    Balanced s (device.exec routine.call (answers results) s) ↔
      (s.sysLockCnt = 0 → s.kernelLocked = false) ∧ routine.Undisturbed results := by
  cases routine with
  | eraseNewApp newAppSize =>
      exact balanced_guarded (stopsAtFailure_eraseLoop _ newAppSectors) results s
  | writeNewAppData offset data len =>
      exact balanced_guarded (stopsAtFailure_programLoop offset data len.toNat 0) results s
  | storeMcConfiguration conf =>
      exact (balanced_confGeneralStore .mc conf results s).trans (and_iff_left trivial).symm
  | storeAppConfiguration conf =>
      exact (balanced_confGeneralStore .app conf results s).trans (and_iff_left trivial).symm

/-- The first sector cannot be erased: the lock stays taken. -/
theorem not_balanced_eraseNewApp :
    ¬Balanced (idle erasedMem) (device.exec (Routine.eraseNewApp 1).call
      (answers [(.errorOperation, false)]) (idle erasedMem)) := by
  rintro ⟨-, hcount, -⟩
  exact absurd hcount (by decide)

end Bldc.Sys
