import Bldc.Command.Locality

/-!
# Which requests are answered

The handlers build their replies by hand, several of them in two or three branches. A
request with a reply should get one, under its own id, and of the same length whether it
succeeds or fails.
-/

namespace Bldc.Command

open Flash Link Conf

/-- The packets that are handed to `commands_send_packet`. -/
def replies (effects : List Effect) : List (List Byte) :=
  effects.filterMap fun
    | .reply bytes => some bytes
    | _ => none

/-- The requests with a reply, and how long it is. -/
def CommPacketId.replyLength : CommPacketId → Option Nat
  | fwVersion => some 3
  | eraseNewApp | writeNewAppData => some 2
  | getValues => some 56
  | setMcconf | setAppconf => some 1
  | getMcconf | getMcconfDefault => some 282
  | getAppconf | getAppconfDefault => some 126
  | detectMotorRL => some 9
  | detectMotorFluxLinkage => some 5
  | detectEncoder | detectHallFoc => some 10
  | getDecodedPpm => some 9
  | getDecodedAdc => some 17
  | getDecodedChuk => some 5
  | _ => none

/-- The request gets one reply, which begins with its id and has the length. -/
def Answers (id : CommPacketId) (length : Nat) (effects : List Effect) : Prop :=
  ∃ bytes, replies effects = [bytes] ∧ bytes.head? = some id.code ∧ bytes.length = length

@[simp] theorem bufferAppendInt32_length (number : Int) :
    (bufferAppendInt32 number).length = 4 := rfl

@[simp] theorem bufferAppendFloat16_length (number scale : Rat) :
    (bufferAppendFloat16 number scale).length = 2 := rfl

@[simp] theorem bufferAppendFloat32_length (number scale : Rat) :
    (bufferAppendFloat32 number scale).length = 4 := rfl

-- `simp` is slow on the long chain of appended fields, so it is taken apart by `rw`
theorem valuesReply_length (r : Readings) : (valuesReply r).length = 56 := by
  delta valuesReply
  repeat rw [List.length_append]
  simp only [bufferAppendInt32_length, bufferAppendFloat16_length, bufferAppendFloat32_length]
  rfl

theorem valuesReply_head (r : Readings) :
    (valuesReply r).head? = some CommPacketId.getValues.code := by
  delta valuesReply
  repeat rw [List.append_assoc]
  rfl

theorem encode_mcconf_length (c : McConfiguration) :
    (WireField.encode c mcconfFields).length = 281 := by
  have hend := WireField.decodeEnd_eq 0 c mcconfFields
  rw [Nat.zero_add] at hend
  rw [← hend]
  rfl

theorem encode_appconf_length (c : AppConfiguration) :
    (WireField.encode c appconfFields).length = 125 := by
  have hend := WireField.decodeEnd_eq 0 c appconfFields
  rw [Nat.zero_add] at hend
  rw [← hend]
  rfl

/-- Nothing is sent to a request for the hall sensors while the port is in another mode. -/
def Unanswered (dev : Device) (id : CommPacketId) : Prop :=
  id = .detectHallFoc ∧ dev.mcconf.mSensorPortMode ≠ sensorPortModeHall

/-- Every other request is answered, on all branches with the same length. -/
theorem processCommand_answers (dev : Device) (data : Buffer) (len : Word) {id : CommPacketId}
    {length : Nat} (hid : id.replyLength = some length) (hanswered : ¬Unanswered dev id) :
    Answers id length (processCommand dev data len id) := by
  cases id with
  | getMcconf | getMcconfDefault =>
      cases hid
      refine ⟨_, rfl, rfl, ?_⟩
      rw [List.length_cons, encode_mcconf_length]
  | getAppconf | getAppconfDefault =>
      cases hid
      refine ⟨_, rfl, rfl, ?_⟩
      rw [List.length_cons, encode_appconf_length]
  | detectEncoder =>
      cases hid
      by_cases hencoder : dev.encoderIsConfigured
      · simp only [processCommand, if_pos hencoder]
        exact ⟨_, rfl, rfl, by simp⟩
      · simp only [processCommand, if_neg hencoder]
        exact ⟨_, rfl, rfl, by simp⟩
  | detectHallFoc =>
      cases hid
      have hmode : dev.mcconf.mSensorPortMode = sensorPortModeHall := by
        by_contra hmode
        exact hanswered ⟨rfl, hmode⟩
      simp only [processCommand, if_pos hmode]
      exact ⟨_, rfl, rfl, by simp⟩
  | getValues =>
      cases hid
      exact ⟨_, rfl, valuesReply_head _, valuesReply_length _⟩
  | fwVersion | eraseNewApp | writeNewAppData | setMcconf | setAppconf =>
      cases hid
      exact ⟨_, rfl, rfl, rfl⟩
  | detectMotorRL | detectMotorFluxLinkage | getDecodedPpm | getDecodedAdc | getDecodedChuk =>
      cases hid
      exact ⟨_, rfl, rfl, by simp⟩
  | _ => cases hid

/-- A request with a reply is answered exactly if it is not one for the hall sensors while
the sensor port is in another mode. -/
theorem answers_iff (dev : Device) (data : Buffer) (len : Word) (id : CommPacketId) (length : Nat)
    (hid : id.replyLength = some length) (hlen : len ≠ 0) (hdata : data 0 = id.code) :
    Answers id length (commandsProcessPacket dev data len) ↔ ¬Unanswered dev id := by
  have hcode : CommPacketId.ofCode id.code = some id := by cases id <;> rfl
  rw [commandsProcessPacket, if_neg hlen, hdata, hcode]
  refine ⟨?_, processCommand_answers dev _ _ hid⟩
  rintro ⟨bytes, hone, -⟩ ⟨rfl, hmode⟩
  simp only [processCommand, if_neg hmode] at hone
  cases hone

/-- The version is asked for with one byte. -/
theorem answers_iff_fwVersion :
    Answers .fwVersion 3 (commandsProcessPacket plainDevice (fun _ => 0) 1) :=
  (answers_iff plainDevice (fun _ => 0) 1 .fwVersion 3 rfl (by decide) rfl).2 nofun

/-- A device with an encoder at the sensor port. -/
def encoderDevice : Device :=
  { plainDevice with mcconf := { plainDevice.mcconf with mSensorPortMode := 1 } }

/-- `COMM_DETECT_HALL_FOC` with its current is not answered there. -/
theorem not_answers_detectHallFoc :
    ¬Answers .detectHallFoc 10 (commandsProcessPacket encoderDevice (fun _ => 27) 5) := by
  rintro ⟨bytes, hone, -⟩
  cases hone

end Bldc.Command
