import Bldc.Conf.Layout
import Bldc.Eeprom.PowerLoss
import Bldc.System.State

/-!
# Storing and reading configurations

A configuration is stored as one EEPROM variable per halfword, the byte at the
lower address in the upper half. Reading collects the variables again and falls
back to the compiled defaults when one is missing.
-/

namespace Bldc.Conf

open Foundation Foundation.Program Flash Eeprom Sys

/-- The bytes behind a pointer to a configuration. -/
abbrev Bytes := Nat → Byte

/-- The compiled defaults of both configurations. -/
abbrev Defaults := Kind → Bytes

/-- `conf_general_init`. -/
def confGeneralInit : EeProgram EeStatus := do
  modify fun mem => { mem with virtAddVarTab := virtAddVarTab }
  eeInit

/-- The variable that holds halfword `i`. -/
def halfword (conf : Bytes) (i : Nat) : Half := conf (2 * i) ++ conf (2 * i + 1)

/-- The loop of both store functions, from halfword `i` on. -/
def storeLoop (kind : Kind) (conf : Bytes) : (count i : Nat) → EeProgram Bool
  | 0, _ => pure true
  | count + 1, i => do
      let status ← eeWriteVariable (kind.virtAddress i) (halfword conf i)
      if status ≠ .complete then pure false else storeLoop kind conf count (i + 1)

/-- `conf_general_store_mc_configuration` and its sibling. -/
def confGeneralStore (kind : Kind) (conf : Bytes) : SysProgram Bool := do
  enter
  let isOk ← onMem (storeLoop kind conf kind.count 0)
  leave
  pure isOk

/-- `conf_general_store_mc_configuration`. -/
def confGeneralStoreMcConfiguration : Bytes → SysProgram Bool := confGeneralStore .mc

/-- `conf_general_store_app_configuration`. -/
def confGeneralStoreAppConfiguration : Bytes → SysProgram Bool := confGeneralStore .app

/-- The loop of both read functions, from halfword `i` on. -/
def readLoop (flash : Memory) (kind : Kind) : (count i : Nat) → Bytes → Option Bytes
  | 0, _, conf => some conf
  | count + 1, i, conf =>
      match eeReadVariable flash (kind.virtAddress i) 0 with
      | (.found, var) =>
          readLoop flash kind count (i + 1)
            (Function.update (Function.update conf (2 * i) (var.extractLsb' 8 8))
              (2 * i + 1) (var.extractLsb' 0 8))
      | _ => none

/-- `conf_general_read_mc_configuration` and its sibling, into the buffer
`conf`. -/
def confGeneralRead (defaults : Defaults) (kind : Kind) (flash : Memory) (conf : Bytes) : Bytes :=
  match readLoop flash kind kind.count 0 conf with
  | some conf => conf
  | none => fun i => if i < kind.size then defaults kind i else conf i

/-- `conf_general_read_mc_configuration`. -/
def confGeneralReadMcConfiguration (defaults : Defaults) : Memory → Bytes → Bytes :=
  confGeneralRead defaults .mc

/-- `conf_general_read_app_configuration`. -/
def confGeneralReadAppConfiguration (defaults : Defaults) : Memory → Bytes → Bytes :=
  confGeneralRead defaults .app

/-! ## Reading back -/

/-- The halfwords of a configuration as the flash has them. -/
def Present (flash : Memory) (kind : Kind) (conf : Bytes) : Prop :=
  ∀ i < kind.count, readBack flash (kind.virtAddress i) = some (halfword conf i)

theorem size_eq (kind : Kind) : kind.size = 2 * kind.count := by
  cases kind
  · rw [size_mc, count_mc]
  · rw [size_app, count_app]

theorem count_le (kind : Kind) : kind.count ≤ 154 := by
  cases kind
  · rw [count_mc]
  · rw [count_app]
    decide

theorem virtAddress_ne_erased (kind : Kind) {i : Nat} (hi : i < kind.count) :
    kind.virtAddress i ≠ erased :=
  kind.virtAddress_ne_ones (Nat.lt_of_lt_of_le hi (count_le kind))

theorem eeReadVariable_of_readBack {flash : Memory} {virtAddress value : Half}
    (h : readBack flash virtAddress = some value) :
    eeReadVariable flash virtAddress 0 = (.found, value) := by
  unfold readBack at h
  split at h
  next v hread => rw [hread, Option.some.inj h]
  next => cases h

theorem readLoop_some {flash : Memory} {kind : Kind} {stored : Bytes} (count : Nat) :
    ∀ (i : Nat) (conf : Bytes),
      (∀ j, i ≤ j → j < i + count →
        readBack flash (kind.virtAddress j) = some (halfword stored j)) →
      ∃ conf', readLoop flash kind count i conf = some conf' ∧
        (∀ j, 2 * i ≤ j → j < 2 * (i + count) → conf' j = stored j) ∧
        ∀ j < 2 * i, conf' j = conf j := by
  induction count with
  | zero =>
      intro i conf _
      exact ⟨conf, rfl, fun j h h' => by omega, fun _ _ => rfl⟩
  | succ count ih =>
      intro i conf h
      have hread := eeReadVariable_of_readBack (h i (Nat.le_refl i) (by omega))
      obtain ⟨conf', hloop, hnew, hold⟩ := ih (i + 1)
        (Function.update (Function.update conf (2 * i) ((halfword stored i).extractLsb' 8 8))
          (2 * i + 1) ((halfword stored i).extractLsb' 0 8))
        fun j hj hj' => h j (by omega) (by omega)
      refine ⟨conf', ?_, fun j hj hj' => ?_, fun j hj => ?_⟩
      · rw [readLoop, hread]
        exact hloop
      · rcases (by omega : j = 2 * i ∨ j = 2 * i + 1 ∨ 2 * (i + 1) ≤ j) with rfl | rfl | hlarge
        · rw [hold _ (by omega), Function.update_of_ne (by omega), Function.update_self]
          exact BitVec.extractLsb'_append_eq_left
        · rw [hold _ (by omega), Function.update_self]
          exact BitVec.extractLsb'_append_eq_right
        · exact hnew j hlarge (by omega)
      · rw [hold j (by omega), Function.update_of_ne (by omega), Function.update_of_ne (by omega)]

theorem readLoop_none {flash : Memory} {kind : Kind} (count : Nat) :
    ∀ {i : Nat} {conf : Bytes},
      (∃ j, i ≤ j ∧ j < i + count ∧ readBack flash (kind.virtAddress j) = none) →
      readLoop flash kind count i conf = none := by
  induction count with
  | zero =>
      rintro i conf ⟨j, hj, hj', -⟩
      omega
  | succ count ih =>
      rintro i conf ⟨j, hj, hj', hnone⟩
      rw [readLoop]
      split
      next var hread =>
          refine ih ⟨j, ?_, by omega, hnone⟩
          rcases Nat.eq_or_lt_of_le hj with rfl | hlt
          · rw [readBack, hread] at hnone
            cases hnone
          · exact hlt
      next => rfl

/-- A configuration whose halfwords are all present is read byte for byte. -/
theorem confGeneralRead_of_present (defaults : Defaults) {kind : Kind} {flash : Memory}
    {stored : Bytes} (h : Present flash kind stored) (conf : Bytes) {i : Nat}
    (hi : i < kind.size) : confGeneralRead defaults kind flash conf i = stored i := by
  obtain ⟨conf', hloop, hnew, -⟩ := readLoop_some kind.count 0 conf
    fun j _ hj => h j (by omega)
  rw [size_eq] at hi
  rw [confGeneralRead, hloop]
  exact hnew i (by omega) (by omega)

/-- A missing halfword means the defaults. -/
theorem confGeneralRead_of_missing (defaults : Defaults) {kind : Kind} {flash : Memory}
    {j : Nat} (hj : j < kind.count) (hnone : readBack flash (kind.virtAddress j) = none)
    (conf : Bytes) {i : Nat} (hi : i < kind.size) :
    confGeneralRead defaults kind flash conf i = defaults kind i := by
  rw [confGeneralRead, readLoop_none kind.count ⟨j, Nat.zero_le j, by omega, hnone⟩]
  exact if_pos hi

/-! ## The memory after a store -/

theorem exec_confGeneralStore (kind : Kind) (conf : Bytes) (answers : List (Answer Status))
    (s : System) :
    let out := Eeprom.device.exec (storeLoop kind conf kind.count 0) answers s.mem
    Sys.device.exec (confGeneralStore kind conf) answers s =
      match out.result with
      | some isOk => ⟨some isOk, left (putMem out.state (entered s)), out.rest⟩
      | none => ⟨none, putMem out.state (entered s), out.rest⟩ := by
  have hmem : (entered s).mem = s.mem := by rw [entered_eq]
  change Sys.device.exec ((onMem (storeLoop kind conf kind.count 0)).bind fun isOk =>
    leave.bind fun _ => ret isOk) answers (entered s) = _
  rw [Device.exec_bind, onMem, Device.exec_lift component, hmem]
  cases (Eeprom.device.exec (storeLoop kind conf kind.count 0) answers s.mem).result <;> rfl

end Bldc.Conf
