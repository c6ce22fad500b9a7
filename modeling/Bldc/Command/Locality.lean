import Mathlib.Tactic.FieldSimp
import Mathlib.Tactic.NormNum
import Bldc.Command.Process

/-!
# What a command depends on

A handler that finds its parameters inside the packet depends on the packet
alone. One that does not reads what an earlier packet left in the receive
buffer. For every command there is a least number of parameter bytes from which
on it is the packet that decides.
-/

namespace Bldc.Command

open Flash Link Conf

/-- Parameter bytes a command takes. -/
def needed (dev : Device) : CommPacketId → Nat
  | .eraseNewApp | .writeNewAppData => 4
  | .setDuty | .setCurrent | .setCurrentBrake | .setRpm | .setPos => 4
  | .setDetect => 1
  | .setMcconf => 281
  | .setAppconf => 125
  | .samplePrint => 4
  | .detectMotorParam => 12
  | .detectMotorFluxLinkage => 16
  | .detectEncoder => if dev.encoderIsConfigured then 4 else 0
  | .detectHallFoc => if dev.mcconf.mSensorPortMode = sensorPortModeHall then 4 else 0
  | .forwardCan => 1
  | .setChuckData => 10
  | _ => 0

section Local

variable {dev : Device} {data data' : Buffer} {len : Word}

/-- With enough parameter bytes a command depends on them alone. -/
theorem processCommand_congr (id : CommPacketId) (hneeded : needed dev id ≤ len.toNat)
    (h : Agree len.toNat data data') :
    processCommand dev data len id = processCommand dev data' len id := by
  cases id with
  | eraseNewApp => simp only [processCommand, bufferGetUint32_congr h hneeded]
  | writeNewAppData =>
      have hlen : (len - 4).toNat = len.toNat - 4 := by
        simp only [needed] at hneeded
        rw [BitVec.toNat_sub_of_le (by rw [BitVec.le_def]; simpa using hneeded)]
        rfl
      simp only [needed] at hneeded
      simp only [processCommand, bufferGetUint32_congr h hneeded, hlen,
        bytesOf_congr (h.shift 4 (by omega : 4 + (len.toNat - 4) ≤ len.toNat))]
  | setDuty => simp only [processCommand, bufferGetFloat32_congr _ h hneeded]
  | setCurrent => simp only [processCommand, bufferGetFloat32_congr _ h hneeded]
  | setCurrentBrake => simp only [processCommand, bufferGetFloat32_congr _ h hneeded]
  | setRpm => simp only [processCommand, bufferGetInt32_congr h hneeded]
  | setPos => simp only [processCommand, bufferGetFloat32_congr _ h hneeded]
  | setDetect => simp only [processCommand, h 0 hneeded]
  | setMcconf => simp only [processCommand, setMcconf_congr h hneeded]
  | setAppconf => simp only [processCommand, setAppconf_congr h hneeded]
  | samplePrint =>
      simp only [needed] at hneeded
      simp only [processCommand, h 0 (by omega), h 3 (by omega),
        bufferGetUint16_congr h (by omega : 1 + 2 ≤ len.toNat)]
  | terminalCmd => simp only [processCommand, bytesOf_congr h]
  | detectMotorParam =>
      simp only [needed] at hneeded
      simp only [processCommand, bufferGetFloat32_congr _ h (by omega : 0 + 4 ≤ len.toNat),
        bufferGetFloat32_congr _ h (by omega : 4 + 4 ≤ len.toNat),
        bufferGetFloat32_congr _ h (by omega : 8 + 4 ≤ len.toNat)]
  | detectMotorFluxLinkage =>
      simp only [needed] at hneeded
      simp only [processCommand, bufferGetFloat32_congr _ h (by omega : 0 + 4 ≤ len.toNat),
        bufferGetFloat32_congr _ h (by omega : 4 + 4 ≤ len.toNat),
        bufferGetFloat32_congr _ h (by omega : 8 + 4 ≤ len.toNat),
        bufferGetFloat32_congr _ h (by omega : 12 + 4 ≤ len.toNat)]
  | detectEncoder =>
      simp only [needed] at hneeded
      simp only [processCommand]
      split
      next hencoder =>
        rw [if_pos hencoder] at hneeded
        simp only [bufferGetFloat32_congr _ h hneeded]
      next => rfl
  | detectHallFoc =>
      simp only [needed] at hneeded
      simp only [processCommand]
      split
      next hhall =>
        rw [if_pos hhall] at hneeded
        simp only [bufferGetFloat32_congr _ h hneeded]
      next => rfl
  | forwardCan =>
      simp only [needed] at hneeded
      have hlen : (len - 1).toNat = len.toNat - 1 := by
        rw [BitVec.toNat_sub_of_le (by rw [BitVec.le_def]; simpa using hneeded)]
        rfl
      simp only [processCommand, h 0 hneeded, hlen, commCanSendBuffer_congr
        (h.shift 1 (by omega : 1 + (len.toNat - 1) ≤ len.toNat))]
  | setChuckData =>
      simp only [needed] at hneeded
      simp only [processCommand, h 0 (by omega), h 1 (by omega), h 2 (by omega), h 3 (by omega),
        bufferGetInt16_congr h (by omega : 4 + 2 ≤ len.toNat),
        bufferGetInt16_congr h (by omega : 6 + 2 ≤ len.toNat),
        bufferGetInt16_congr h (by omega : 8 + 2 ≤ len.toNat)]
  | customAppData => simp only [processCommand, bytesOf_congr h]
  | _ => rfl

end Local

/-! ## Short packets -/

/-- A stale byte behind the packet. -/
def stale (k : Nat) : Buffer := fun i => if i = k then 1 else 0

def clear : Buffer := fun _ => 0

theorem agree_stale {n k : Nat} (h : n ≤ k) : Agree n clear (stale k) :=
  fun i hi => (if_neg (by omega)).symm

theorem bufferGetInt32_clear (index : Nat) : bufferGetInt32 clear index = 0 := by
  have hzero : ∀ i, clear i = 0 := fun _ => rfl
  rw [bufferGetInt32, bufferGetUint32, bufferGetUint16, bufferGetUint16, hzero, hzero, hzero, hzero]
  decide

theorem bufferGetInt32_stale (index : Nat) : bufferGetInt32 (stale (index + 3)) index = 1 := by
  have h0 : stale (index + 3) index = 0 := if_neg (by omega)
  have h1 : stale (index + 3) (index + 1) = 0 := if_neg (by omega)
  have h2 : stale (index + 3) (index + 2) = 0 := if_neg (by omega)
  have h3 : stale (index + 3) (index + 2 + 1) = 1 := if_pos (by omega)
  rw [bufferGetInt32, bufferGetUint32, bufferGetUint16, bufferGetUint16, h0, h1, h2, h3]
  decide

theorem bufferGetFloat32_stale {scale : Rat} (hscale : scale ≠ 0) (index : Nat) :
    bufferGetFloat32 clear scale index ≠ bufferGetFloat32 (stale (index + 3)) scale index := by
  rw [bufferGetFloat32, bufferGetFloat32, bufferGetInt32_clear, bufferGetInt32_stale]
  intro h
  field_simp at h
  norm_num at h

/-- With fewer bytes than needed, the last one needed decides. -/
theorem processCommand_stale (dev : Device) (len : Word) (id : CommPacketId)
    (h : len.toNat < needed dev id) :
    processCommand dev clear len id ≠ processCommand dev (stale (needed dev id - 1)) len id := by
  intro heq
  cases id with
  | eraseNewApp =>
      have hsize : bufferGetUint32 clear 0 = bufferGetUint32 (stale 3) 0 :=
        Effect.eraseNewApp.inj (List.cons.inj heq).1
      exact absurd hsize (by decide)
  | writeNewAppData =>
      have hoffset : bufferGetUint32 clear 0 = bufferGetUint32 (stale 3) 0 :=
        (Effect.writeNewAppData.inj (List.cons.inj heq).1).1
      exact absurd hoffset (by decide)
  | setDuty =>
      exact bufferGetFloat32_stale (by norm_num) 0 (Effect.setDuty.inj (List.cons.inj heq).1)
  | setCurrent =>
      exact bufferGetFloat32_stale (by norm_num) 0 (Effect.setCurrent.inj (List.cons.inj heq).1)
  | setCurrentBrake =>
      exact bufferGetFloat32_stale (by norm_num) 0
        (Effect.setBrakeCurrent.inj (List.cons.inj heq).1)
  | setRpm =>
      have hrpm := Effect.setPidSpeed.inj (List.cons.inj heq).1
      rw [bufferGetInt32_clear, show stale (needed dev .setRpm - 1) = stale (0 + 3) from rfl,
        bufferGetInt32_stale] at hrpm
      norm_num at hrpm
  | setPos =>
      exact bufferGetFloat32_stale (by norm_num) 0 (Effect.setPidPos.inj (List.cons.inj heq).1)
  | setDetect =>
      have hmode : clear 0 = stale 0 0 :=
        Effect.setDisplayPositionMode.inj (List.cons.inj heq).1
      exact absurd hmode (by decide)
  | setMcconf =>
      have hconf := Effect.storeMcConfiguration.inj (List.cons.inj heq).1
      have hmode : clear 280 = stale 280 280 := congrArg McConfiguration.mSensorPortMode hconf
      exact absurd hmode (by decide)
  | setAppconf =>
      have hconf := Effect.storeAppConfiguration.inj (List.cons.inj heq).1
      have hack : (clear 124 != 0) = (stale 124 124 != 0) :=
        congrArg (fun conf => conf.appNrfConf.sendCrcAck) hconf
      exact absurd hack (by decide)
  | samplePrint =>
      have hdecimation : clear 3 = stale 3 3 :=
        (Effect.samplePrintData.inj (List.cons.inj heq).1).2.2
      exact absurd hdecimation (by decide)
  | detectMotorParam =>
      exact bufferGetFloat32_stale (by norm_num) 8
        (Effect.detectMotorParam.inj (List.cons.inj heq).1).2.2
  | detectMotorFluxLinkage =>
      exact bufferGetFloat32_stale (by norm_num) 12
        (Effect.measureFluxLinkage.inj (List.cons.inj heq).1).2.2.2
  | detectEncoder =>
      simp only [needed] at h heq
      split at h
      next hencoder =>
        simp only [processCommand, hencoder, if_true] at heq
        exact bufferGetFloat32_stale (by norm_num) 0
          (Effect.encoderDetect.inj (List.cons.inj (List.cons.inj heq).2).1)
      next => omega
  | detectHallFoc =>
      simp only [needed] at h heq
      split at h
      next hhall =>
        simp only [processCommand, hhall, if_true] at heq
        exact bufferGetFloat32_stale (by norm_num) 0
          (Effect.hallDetect.inj (List.cons.inj (List.cons.inj heq).2).1)
      next => omega
  | forwardCan =>
      -- there are no parameters, so the length of the buffer to send wraps
      have hlen : len = 0 := by
        simp only [needed] at h
        exact BitVec.eq_of_toNat_eq (by simpa using h)
      have hframes := congrArg List.head? (Effect.canTransmit.inj (List.cons.inj heq).1)
      rw [hlen, commCanSendBuffer_head _ _ _ _ (by decide),
        commCanSendBuffer_head _ _ _ _ (by decide)] at hframes
      have heid : (canId 0 .fillRxBuffer).setWidth 29 = (canId 1 .fillRxBuffer).setWidth 29 :=
        congrArg CanTxFrame.eid (Option.some.inj hframes)
      exact absurd heid (by decide)
  | setChuckData =>
      have hacc := congrArg ChuckData.accZ
        (Effect.nunchukUpdateOutput.inj (List.cons.inj heq).1)
      rw [show needed dev .setChuckData - 1 = 9 from rfl] at hacc
      exact absurd hacc (by decide)
  | _ => simp [needed] at h

/-! ## Packets -/

/-- Two buffers that hold the same packet cause the same effects. -/
def Local (dev : Device) (id : Byte) (len : Word) : Prop :=
  ∀ data data' : Buffer, data 0 = id → Agree len.toNat data data' →
    commandsProcessPacket dev data len = commandsProcessPacket dev data' len

/-- A packet with this id in front of the parameters. -/
def withId (id : Byte) (data : Buffer) : Buffer
  | 0 => id
  | i + 1 => data i

theorem agree_withId (id : Byte) {n : Nat} {data data' : Buffer} (h : Agree (n - 1) data data') :
    Agree n (withId id data) (withId id data') := by
  intro i hi
  cases i with
  | zero => rfl
  | succ i => exact h i (by omega)

theorem payload_toNat {len : Word} (hlen : 1 ≤ len) : (len - 1).toNat = len.toNat - 1 := by
  rw [BitVec.toNat_sub_of_le hlen]
  rfl

theorem processPacket_withId {dev : Device} {len : Word} {id : Byte} {command : CommPacketId}
    (hlen : 1 ≤ len) (hcommand : CommPacketId.ofCode id = some command) (data : Buffer) :
    commandsProcessPacket dev (withId id data) len = processCommand dev data (len - 1) command := by
  have hne : len ≠ 0 := by
    rintro rfl
    exact absurd hlen (by decide)
  have hdata : (fun k => withId id data (1 + k)) = data := by
    funext k
    rw [Nat.add_comm]
    rfl
  rw [commandsProcessPacket, if_neg hne, show withId id data 0 = id from rfl, hcommand]
  simp only [hdata]

theorem not_local_of_short {dev : Device} {len : Word} {id : Byte} {command : CommPacketId}
    (hlen : 1 ≤ len) (hcommand : CommPacketId.ofCode id = some command)
    (hshort : len.toNat ≤ needed dev command) : ¬Local dev id len := by
  intro hlocal
  have hpos : 1 ≤ len.toNat := by rwa [BitVec.le_def] at hlen
  have hsame := hlocal (withId id clear) (withId id (stale (needed dev command - 1))) rfl
    (agree_withId id (agree_stale (by omega)))
  rw [processPacket_withId hlen hcommand, processPacket_withId hlen hcommand] at hsame
  refine processCommand_stale dev (len - 1) command ?_ hsame
  rw [payload_toNat hlen]
  omega

/-- A packet decides its effect exactly when it holds all parameter bytes of its
command. -/
theorem local_iff_needed (dev : Device) (id : Byte) (len : Word) (hlen : 1 ≤ len) :
    Local dev id len ↔
      ∀ command, CommPacketId.ofCode id = some command → needed dev command < len.toNat := by
  have hpos : 1 ≤ len.toNat := by rwa [BitVec.le_def] at hlen
  constructor
  · intro hlocal command hcommand
    by_contra hshort
    exact not_local_of_short hlen hcommand (by omega) hlocal
  · intro hneeded data data' hid hagree
    have hne : len ≠ 0 := by
      rintro rfl
      exact absurd hpos (by decide)
    rw [commandsProcessPacket, commandsProcessPacket, if_neg hne, if_neg hne,
      ← hagree 0 (by omega), hid]
    split
    next command hcommand =>
      have hlength := payload_toNat hlen
      have hcount := hneeded command hcommand
      refine processCommand_congr command (by omega) ?_
      rw [hlength]
      exact hagree.shift 1 (by omega)
    next => rfl

/-- A device whose routines all succeed. -/
def plainDevice : Device where
  mcconf := default
  mcconfDefault := default
  appconf := default
  appconfDefault := default
  readings := default
  encoderIsConfigured := false
  appdataFunc := false
  eraseNewApp _ := .complete
  writeNewAppData _ _ := .complete
  measureResInd := some (0, 0)
  measureFluxLinkage _ _ _ _ := some 0
  encoderDetect _ := (0, 0, false)
  hallDetect _ := (fun _ => 0, true)

/-- `COMM_SET_DUTY` with its four bytes. -/
theorem local_iff_needed_setDuty : Local plainDevice 5 5 := by
  refine (local_iff_needed plainDevice 5 5 (by decide)).2 fun command hcommand => ?_
  obtain rfl : CommPacketId.setDuty = command := Option.some.inj hcommand
  decide

/-- `COMM_SET_DUTY` alone. -/
theorem not_local_setDuty : ¬Local plainDevice 5 1 := by
  have hcommand : CommPacketId.ofCode 5 = some .setDuty := rfl
  exact not_local_of_short (by decide) hcommand (by decide)

end Bldc.Command
