import Bldc.Eeprom.Code

/-!
# The system around a flash operation

Before the firmware touches the flash it releases the motor, takes the counted
system lock and stops the clock of the window watchdog. This module has the
state involved and the functions that change it.
-/

namespace Bldc.Sys

open Foundation Foundation.Program Flash Eeprom

/-- `releasePairs` is how many times releasing the motor takes and gives back the
counted lock on its way through the motor control; the count depends on the
state of the motor and may be any number. -/
structure System where
  mem : Mem
  sysLockCnt : Nat
  kernelLocked : Bool
  wwdgClock : Bool
  mcLockEnabled : Bool
  releasePairs : Nat

abbrev SysProgram := Program System Op Status

def putMem (mem : Mem) (s : System) : System := { s with mem := mem }

def device : Device System Op Status where
  perform op s := putMem (Eeprom.device.perform op s.mem) s
  success := .complete

/-- Run an EEPROM program as part of the system. -/
def onMem {α : Type} (program : EeProgram α) : SysProgram α := program.lift System.mem putMem

theorem component : Device.Component Eeprom.device device System.mem putMem where
  view_put _ _ := rfl
  put_put _ _ _ := rfl
  put_view _ := rfl
  perform_eq _ _ := rfl
  success_eq := rfl

/-- `utils_sys_lock_cnt`. -/
def utilsSysLockCnt (s : System) : System :=
  { s with
    kernelLocked := if s.sysLockCnt = 0 then true else s.kernelLocked
    sysLockCnt := s.sysLockCnt + 1 }

/-- `utils_sys_unlock_cnt`. -/
def utilsSysUnlockCnt (s : System) : System :=
  if s.sysLockCnt = 0 then s
  else
    { s with
      kernelLocked := if s.sysLockCnt - 1 = 0 then false else s.kernelLocked
      sysLockCnt := s.sysLockCnt - 1 }

/-- `RCC_APB1PeriphClockCmd` for the window watchdog. -/
def wwdgClockCmd (enable : Bool) (s : System) : System := { s with wwdgClock := enable }

/-- `mc_interface_unlock`. -/
def mcInterfaceUnlock (s : System) : System := { s with mcLockEnabled := false }

/-- `mc_interface_release_motor`, as far as the lock is concerned. -/
def mcInterfaceReleaseMotor (s : System) : System :=
  (fun s => utilsSysUnlockCnt (utilsSysLockCnt s))^[s.releasePairs] s

/-- What every routine below does before its first flash operation. -/
def enter : SysProgram Unit := do
  modify mcInterfaceUnlock
  modify mcInterfaceReleaseMotor
  modify utilsSysLockCnt
  modify (wwdgClockCmd false)

/-- What it does after its last one. -/
def leave : SysProgram Unit := do
  modify (wwdgClockCmd true)
  modify utilsSysUnlockCnt

/-! ## The counted lock -/

/-- Taking and giving back the lock changes nothing, unless the kernel lock was
held without the counter. -/
theorem unlock_lock (s : System) :
    utilsSysUnlockCnt (utilsSysLockCnt s) =
      { s with kernelLocked := if s.sysLockCnt = 0 then false else s.kernelLocked } := by
  unfold utilsSysUnlockCnt utilsSysLockCnt
  rw [if_neg (Nat.succ_ne_zero _)]
  by_cases h : s.sysLockCnt = 0 <;> simp [h]

theorem iterate_unlock_lock (n : Nat) (s : System) :
    (fun s => utilsSysUnlockCnt (utilsSysLockCnt s))^[n] s =
      { s with kernelLocked :=
          if n ≠ 0 ∧ s.sysLockCnt = 0 then false else s.kernelLocked } := by
  induction n generalizing s with
  | zero => simp
  | succ n ih =>
      rw [Function.iterate_succ_apply, unlock_lock, ih]
      by_cases h : s.sysLockCnt = 0 <;> simp [h]

/-- The state in which the first flash operation runs. -/
def entered (s : System) : System :=
  wwdgClockCmd false (utilsSysLockCnt (mcInterfaceReleaseMotor (mcInterfaceUnlock s)))

def left (s : System) : System := utilsSysUnlockCnt (wwdgClockCmd true s)

theorem entered_eq (s : System) :
    entered s =
      { s with
        kernelLocked := if s.sysLockCnt = 0 then true else s.kernelLocked
        sysLockCnt := s.sysLockCnt + 1
        wwdgClock := false
        mcLockEnabled := false } := by
  unfold entered mcInterfaceReleaseMotor
  rw [iterate_unlock_lock]
  by_cases h : s.sysLockCnt = 0 <;> simp [h, wwdgClockCmd, utilsSysLockCnt, mcInterfaceUnlock]

/-- Leaving after entering, with any change of the memory in between. -/
theorem left_putMem_entered (mem : Mem) (s : System) :
    left (putMem mem (entered s)) =
      { s with
        mem := mem
        kernelLocked := if s.sysLockCnt = 0 then false else s.kernelLocked
        wwdgClock := true
        mcLockEnabled := false } := by
  rw [entered_eq]
  unfold left utilsSysUnlockCnt wwdgClockCmd putMem
  by_cases h : s.sysLockCnt = 0 <;> simp [h]

variable {α : Type}

theorem exec_enter (next : SysProgram α) (answers : List (Answer Status)) (s : System) :
    device.exec (enter.bind fun _ => next) answers s = device.exec next answers (entered s) := rfl

/-- A new controller: the flash is erased, the variables are cleared. -/
def erasedMem : Mem := ⟨fun _ => 0xFF, [], 0⟩

/-- An idle system with the given memory. -/
def idle (mem : Mem) : System where
  mem := mem
  sysLockCnt := 0
  kernelLocked := false
  wwdgClock := true
  mcLockEnabled := false
  releasePairs := 0

theorem idle_mem (mem : Mem) : (idle mem).mem = mem := rfl

end Bldc.Sys
