import Bldc.Foundation.Bus
import Bldc.Foundation.Limiter
import Bldc.Link.CanStatus
import Mathlib.Data.Rat.Floor
import Mathlib.Tactic.Linarith

/-!
# Controllers on the CAN bus

One controller sets the duty cycle, the current or the speed of others, and each sends its
status to all. The commands are carried out once and in their order by those that they are
for, and the status tables hold what was handled last, both up to the resolution of the frames.
The queue of a controller is its ring of frames, as long as that is not overrun.
-/

namespace Bldc.Link

open Foundation Flash

/-! ## What is sent -/

/-- The frame of `comm_can_set_duty` and its siblings. -/
def CanControl.packetId : CanControl → CanPacketId
  | duty => .setDuty
  | current => .setCurrent
  | currentBrake => .setCurrentBrake
  | rpm => .setRpm
  | pos => .setPos

/-- The factor with which they send a value. -/
def CanControl.scale : CanControl → Rat
  | duty => 100000
  | current => 1000
  | currentBrake => 1000
  | rpm => 1
  | pos => 1000000

/-- What `comm_can_set_duty` and its siblings do. -/
def commCanSet (command : CanControl) (controllerId : Byte) (value : Rat) : CanTxFrame :=
  commCanTransmit (canId controllerId command.packetId)
    (bufferAppendInt32 (truncate (value * command.scale)))

/-- `comm_can_set_duty`. -/
def commCanSetDuty : Byte → Rat → CanTxFrame := commCanSet .duty

/-- `comm_can_set_current`. -/
def commCanSetCurrent : Byte → Rat → CanTxFrame := commCanSet .current

/-- `comm_can_set_current_brake`. -/
def commCanSetCurrentBrake : Byte → Rat → CanTxFrame := commCanSet .currentBrake

/-- `comm_can_set_rpm`. -/
def commCanSetRpm : Byte → Rat → CanTxFrame := commCanSet .rpm

/-- `comm_can_set_pos`. -/
def commCanSetPos : Byte → Rat → CanTxFrame := commCanSet .pos

/-- What the motor controller tells of itself. -/
structure MotorStatus where
  rpm : Rat
  totCurrent : Rat
  dutyCycleNow : Rat

/-- The buffer of `cancom_status_thread`. -/
def MotorStatus.bytes (status : MotorStatus) : List Byte :=
  bufferAppendInt32 (truncate status.rpm) ++
    (bufferAppendInt16 (truncate (status.totCurrent * 10)) ++
      bufferAppendInt16 (truncate (status.dutyCycleNow * 1000)))

/-- The frame of `cancom_status_thread`. -/
def statusTx (ownId : Byte) (status : MotorStatus) : CanTxFrame :=
  commCanTransmit (canId ownId .status) status.bytes

/-- What a controller puts on the bus: a command, its status, or a frame of a buffer. -/
inductive CanMessage where
  | set (command : CanControl) (controllerId : Byte) (value : Rat)
  | status (own : MotorStatus)
  | buffer (cmd : CanPacketId) (controllerId : Byte) (payload : List Byte)

def CanMessage.frame (ownId : Byte) : CanMessage → CanTxFrame
  | set command controllerId value => commCanSet command controllerId value
  | status own => statusTx ownId own
  | buffer cmd controllerId payload => commCanTransmit (canId controllerId cmd) payload

/-! ## What is received -/

/-- When a frame is processed, and what is in the data registers behind its bytes. -/
structure CanContext where
  rxTime : Nat
  behind : Buffer

/-- The frame as it comes in. -/
def CanTxFrame.arrival (tx : CanTxFrame) (context : CanContext) : Arrival where
  rxTime := context.rxTime
  rxmsg :=
    { ide := true
      eid := tx.eid
      dlc := BitVec.ofNat 4 tx.data.length
      data8 := fun i => tx.data.getD i (context.behind i) }

/-- A controller on the bus. A message comes with the id of its sender. -/
def canNode : Machine CanState (CanContext × Byte × CanMessage) CanEffect where
  step s input := cancomProcess.step s ((input.2.2.frame input.2.1).arrival input.1)

/-! ## What is meant -/

/-- The commands among the effects. -/
def CanEffect.order? : CanEffect → Option (CanControl × Rat)
  | control command value => some (command, value)
  | _ => none

/-- What the message asks of the controller with this id. -/
def CanMessage.askedOf (id : Byte) : CanMessage → Option (CanControl × Rat)
  | set command controllerId value =>
      if controllerId = 255 ∨ controllerId = id then some (command, value) else none
  | _ => none

/-- The command as it comes out of a frame. -/
def coded (asked : CanControl × Rat) : CanControl × Rat :=
  (asked.1, toScale asked.1.scale asked.2)

/-- The same command, with a value that is less than one unit of the frame nearer to zero. -/
def Honours (order asked : CanControl × Rat) : Prop :=
  order.1 = asked.1 ∧ Shrinks order.2 asked.2 ∧ |order.2 - asked.2| < 1 / asked.1.scale

/-- A status with the id of its sender and the time at which it is handled. -/
structure Report where
  rxTime : Nat
  ownId : Byte
  own : MotorStatus

def Report.id (report : Report) : Int := report.ownId.toNat

/-- The report as it comes out of a frame. -/
def Report.coded (report : Report) : CanStatusMsg where
  id := report.id
  rxTime := report.rxTime
  rpm := toScale 1 report.own.rpm
  current := toScale 10 report.own.totCurrent
  duty := toScale 1000 report.own.dutyCycleNow

/-- The slot holds the report, each number less than one unit of the frame nearer to zero. -/
structure Tells (slot : CanStatusMsg) (report : Report) : Prop where
  id : slot.id = report.id
  rxTime : slot.rxTime = report.rxTime
  rpm : Shrinks slot.rpm report.own.rpm ∧ |slot.rpm - report.own.rpm| < 1
  current : Shrinks slot.current report.own.totCurrent ∧
    |slot.current - report.own.totCurrent| < 1 / 10
  duty : Shrinks slot.duty report.own.dutyCycleNow ∧
    |slot.duty - report.own.dutyCycleNow| < 1 / 1000

/-- The report of a message that is handled. -/
def report? (handled : CanContext × Byte × CanMessage) : Option Report :=
  match handled.2.2 with
  | .status own => some ⟨handled.1.rxTime, handled.2.1, own⟩
  | _ => none

/-- The numbers of an `int16_t`. -/
def InInt16 (number : Int) : Prop := -32768 ≤ number ∧ number ≤ 32767

/-- The frames of buffers. -/
def CanPacketId.carriesBuffer : CanPacketId → Bool
  | fillRxBuffer | fillRxBufferLong | processRxBuffer | processShortBuffer => true
  | _ => false

/-- The numbers have their places in the frame. -/
def CanMessage.Fits : CanMessage → Prop
  | set command _ value => InInt32 (truncate (value * command.scale))
  | status own => InInt32 (truncate own.rpm) ∧ InInt16 (truncate (own.totCurrent * 10)) ∧
      InInt16 (truncate (own.dutyCycleNow * 1000))
  | buffer cmd _ payload => cmd.carriesBuffer ∧ payload.length ≤ 8

/-! ## One frame -/

theorem bufferAppendInt32_length_le (number : Int) : (bufferAppendInt32 number).length ≤ 8 :=
  Nat.le_of_ble_eq_true rfl

theorem MotorStatus.bytes_length (status : MotorStatus) : status.bytes.length = 8 := rfl

theorem carries_arrival {tx : CanTxFrame} (hlength : tx.data.length ≤ 8) (context : CanContext) :
    (tx.arrival context).rxmsg.Carries tx := by
  have hdlc : (BitVec.ofNat 4 tx.data.length).toNat = tx.data.length := by
    rw [BitVec.toNat_ofNat]
    omega
  refine ⟨rfl, rfl, ?_⟩
  unfold CanTxFrame.arrival
  dsimp only
  rw [hdlc]
  apply List.ext_getElem
  · simp
  · intro i _ hi
    simp [bytesOf, hi]

theorem bufferGetInt16_of_holds {buffer : Buffer} {index : Nat} {number : Int}
    (h : Holds buffer index (bufferAppendInt16 number)) (hnumber : InInt16 number) :
    bufferGetInt16 buffer index = number := by
  rw [bufferGetInt16, bufferGetUint16_of_holds h, BitVec.toInt_ofInt]
  obtain ⟨hmin, hmax⟩ := hnumber
  exact Int.bmod_eq_of_le (by omega) (by omega)

theorem holds_of_carries {rxmsg : CanRxFrame} {tx : CanTxFrame} (h : rxmsg.Carries tx) :
    Holds rxmsg.data8 0 tx.data := by
  have hdlc : rxmsg.dlc.toNat = tx.data.length := by rw [← h.2.2, bytesOf_length]
  rw [Holds, ← hdlc]
  simp only [Nat.zero_add]
  exact h.2.2

/-- The identifier and the bytes of a frame that has come in. -/
theorem CanTxFrame.arrival_of (controllerId : Byte) (cmd : CanPacketId) {payload : List Byte}
    (hlength : payload.length ≤ 8) (context : CanContext) :
    let rxmsg := ((commCanTransmit (canId controllerId cmd) payload).arrival context).rxmsg
    rxmsg.ide = true ∧ rxmsg.id = controllerId ∧ rxmsg.cmd = some cmd ∧
      Holds rxmsg.data8 0 payload := by
  have hcarries : ((commCanTransmit (canId controllerId cmd) payload).arrival context).rxmsg.Carries
      (commCanTransmit (canId controllerId cmd) payload) := carries_arrival hlength context
  exact ⟨hcarries.1, hcarries.id_eq, hcarries.cmd_eq, holds_of_carries hcarries⟩

theorem controllerId_step (s : CanState) (arrival : Arrival) :
    (cancomProcess.step s arrival).1.controllerId = s.controllerId := by
  have haddressed : ∀ rxmsg, (s.processAddressed rxmsg).1.controllerId = s.controllerId := by
    intro rxmsg
    unfold CanState.processAddressed motorCommand CanState.processRxBuffer
      CanState.processShortBuffer CanState.hand
    dsimp only
    repeat' split
    all_goals rfl
  have hstatus : ∀ t : CanState, (t.processStatus arrival.rxTime arrival.rxmsg).controllerId =
      t.controllerId := by
    intro t
    unfold CanState.processStatus
    split <;> rfl
  simp only [cancomProcess]
  split
  next =>
    rw [hstatus]
    split
    next => exact haddressed _
    next => rfl
  next => rfl

/-- Frames of buffers are no commands. -/
theorem orders_processAddressed {s : CanState} {rxmsg : CanRxFrame} {cmd : CanPacketId}
    (hcmd : rxmsg.cmd = some cmd) (hbuffer : cmd.carriesBuffer) :
    (s.processAddressed rxmsg).2.filterMap CanEffect.order? = [] := by
  unfold CanState.processAddressed CanState.processRxBuffer CanState.processShortBuffer
    CanState.hand
  rw [hcmd]
  cases cmd <;> simp only [CanPacketId.carriesBuffer, Bool.false_eq_true] at hbuffer <;> dsimp only
  all_goals repeat' split
  all_goals rfl

theorem motorCommand_orders (s : CanState) (command : CanControl) (rxmsg : CanRxFrame)
    (hcmd : rxmsg.cmd = some command.packetId) :
    s.processAddressed rxmsg = motorCommand s command command.scale rxmsg := by
  unfold CanState.processAddressed
  rw [hcmd]
  cases command <;> rfl

/-- A message makes the controllers that it is for do what it asks, and no others. -/
theorem orders_step (s : CanState) (context : CanContext) (ownId : Byte) {message : CanMessage}
    (hfits : message.Fits) :
    (canNode.step s (context, ownId, message)).2.filterMap CanEffect.order? =
      ((message.askedOf s.controllerId).map coded).toList := by
  have heffects : ∀ arrival : Arrival, arrival.rxmsg.ide = true →
      (cancomProcess.step s arrival).2 =
        if arrival.rxmsg.id = 255 ∨ arrival.rxmsg.id = s.controllerId then
          (s.processAddressed arrival.rxmsg).2 else [] := by
    intro arrival hide
    simp only [cancomProcess, hide, if_true]
    split <;> rfl
  simp only [canNode]
  cases message with
  | set command controllerId value =>
      obtain ⟨hide, hid, hcmd, hholds⟩ := CanTxFrame.arrival_of controllerId command.packetId
        (bufferAppendInt32_length_le (truncate (value * command.scale))) context
      rw [CanMessage.frame, commCanSet, heffects _ hide, hid, CanMessage.askedOf]
      split
      next =>
        rw [motorCommand_orders s command _ hcmd, motorCommand,
          bufferGetFloat32_of_holds hholds hfits]
        rfl
      next => rfl
  | status own =>
      obtain ⟨hide, -, hcmd, -⟩ := CanTxFrame.arrival_of ownId .status own.bytes_length.le context
      rw [CanMessage.frame, statusTx, heffects _ hide, CanState.processAddressed, hcmd]
      split <;> rfl
  | buffer cmd controllerId payload =>
      obtain ⟨hbuffer, hlength⟩ := hfits
      obtain ⟨hide, -, hcmd, -⟩ := CanTxFrame.arrival_of controllerId cmd hlength context
      rw [CanMessage.frame, heffects _ hide]
      split
      next => exact orders_processAddressed hcmd hbuffer
      next => rfl

/-- The status of the sender as it arrives. -/
theorem statusMsg_arrival (context : CanContext) (ownId : Byte) {message : CanMessage}
    (hfits : message.Fits) :
    ((message.frame ownId).arrival context).statusMsg =
      (report? (context, ownId, message)).map Report.coded := by
  unfold Arrival.statusMsg
  cases message with
  | set command controllerId value =>
      obtain ⟨-, -, hcmd, -⟩ := CanTxFrame.arrival_of controllerId command.packetId
        (bufferAppendInt32_length_le (truncate (value * command.scale))) context
      rw [CanMessage.frame, commCanSet, hcmd, if_neg]
      · rfl
      · rintro ⟨-, heq⟩
        cases command <;> cases heq
  | status own =>
      obtain ⟨hide, hid, hcmd, hholds⟩ := CanTxFrame.arrival_of ownId .status own.bytes_length.le context
      obtain ⟨hrpm, hrest⟩ := holds_append.1 hholds
      obtain ⟨hcurrent, hduty⟩ := holds_append.1 hrest
      obtain ⟨hrpmFits, hcurrentFits, hdutyFits⟩ := hfits
      generalize hrx : ((commCanTransmit (canId ownId .status) own.bytes).arrival context).rxmsg =
        rxmsg at hide hid hcmd hrpm hcurrent hduty
      have hrpmGet : bufferGetInt32 rxmsg.data8 0 = truncate own.rpm :=
        bufferGetInt32_of_holds hrpm hrpmFits
      have hcurrentGet : bufferGetInt16 rxmsg.data8 4 = truncate (own.totCurrent * 10) :=
        bufferGetInt16_of_holds hcurrent hcurrentFits
      have hdutyGet : bufferGetInt16 rxmsg.data8 6 = truncate (own.dutyCycleNow * 1000) :=
        bufferGetInt16_of_holds hduty hdutyFits
      have hscale : toScale 1 own.rpm = truncate own.rpm := by rw [toScale, mul_one, div_one]
      rw [CanMessage.frame, statusTx, hrx, if_pos ⟨hide, hcmd⟩, hid, hrpmGet, hcurrentGet, hdutyGet,
        report?, Option.map_some, Report.coded, hscale]
      rfl
  | buffer cmd controllerId payload =>
      obtain ⟨hbuffer, hlength⟩ := hfits
      obtain ⟨-, -, hcmd, -⟩ := CanTxFrame.arrival_of controllerId cmd hlength context
      rw [CanMessage.frame, hcmd, if_neg]
      · rfl
      · rintro ⟨-, heq⟩
        obtain rfl := Option.some.inj heq
        cases hbuffer

/-! ## The resolution of the frames -/

theorem truncate_neg (x : Rat) : truncate (-x) = -truncate x := by
  rw [truncate, truncate, Rat.neg_num, Rat.neg_den, Int.neg_tdiv]

theorem truncate_of_nonneg {x : Rat} (h : 0 ≤ x) : truncate x = ⌊x⌋ := by
  rw [truncate, Rat.floor_def', Int.tdiv_eq_ediv_of_nonneg (Rat.num_nonneg.2 h)]

/-- What is sent is less than one unit nearer to zero than the value. -/
theorem toScale_close {scale : Rat} (hscale : 0 < scale) (value : Rat) :
    Shrinks (toScale scale value) value ∧ |toScale scale value - value| < 1 / scale := by
  have hforward : ∀ value : Rat, 0 ≤ value → 0 ≤ toScale scale value ∧
      toScale scale value ≤ value ∧ value - toScale scale value < 1 / scale := by
    intro value hvalue
    have hscaled := mul_nonneg hvalue hscale.le
    have hfloor : (0 : Rat) ≤ ⌊value * scale⌋ := by exact_mod_cast Int.floor_nonneg.2 hscaled
    have hle := Int.floor_le (value * scale)
    have hlt := Int.lt_floor_add_one (value * scale)
    rw [toScale, truncate_of_nonneg hscaled]
    refine ⟨div_nonneg hfloor hscale.le, (div_le_iff₀ hscale).2 hle, ?_⟩
    rw [sub_lt_iff_lt_add, ← add_div, lt_div_iff₀ hscale, add_comm]
    exact hlt
  obtain hvalue | hvalue := le_total 0 value
  · obtain ⟨hnonneg, hle, hlt⟩ := hforward value hvalue
    refine ⟨.inl ⟨hnonneg, hle⟩, ?_⟩
    rw [abs_sub_comm, abs_of_nonneg (sub_nonneg.2 hle)]
    exact hlt
  · obtain ⟨hnonneg, hle, hlt⟩ := hforward (-value) (neg_nonneg.2 hvalue)
    have hneg : toScale scale (-value) = -toScale scale value := by
      rw [toScale, toScale, neg_mul, truncate_neg, Int.cast_neg, neg_div]
    rw [hneg] at hnonneg hle hlt
    refine ⟨.inr ⟨neg_le_neg_iff.1 hle, neg_nonneg.1 hnonneg⟩, ?_⟩
    rw [abs_of_nonneg (sub_nonneg.2 (neg_le_neg_iff.1 hle))]
    linarith

theorem CanControl.scale_pos (command : CanControl) : 0 < command.scale := by
  cases command <;> decide +kernel

theorem honours_coded (asked : CanControl × Rat) : Honours (coded asked) asked :=
  ⟨rfl, toScale_close asked.1.scale_pos asked.2⟩

theorem Report.tells_coded (report : Report) : Tells report.coded report where
  id := rfl
  rxTime := rfl
  rpm := by
    have hclose := toScale_close one_pos report.own.rpm
    rw [div_one] at hclose
    exact hclose
  current := toScale_close (by norm_num) report.own.totCurrent
  duty := toScale_close (by norm_num) report.own.dutyCycleNow

/-! ## One controller -/

/-- What comes of the messages that a controller handles, in its orders and in its table. -/
theorem canNode_run {s : CanState} {handled : List (CanContext × Byte × CanMessage)}
    (hfits : ∀ h ∈ handled, h.2.2.Fits) :
    (canNode.run s handled).2.filterMap CanEffect.order? =
        (handled.filterMap fun h => h.2.2.askedOf s.controllerId).map coded ∧
      (canNode.run s handled).1.statMsgs =
        ((handled.filterMap report?).map Report.coded).foldl
          (fun table msg => scanSlots CanStatusMsg.id (-1) msg table) s.statMsgs := by
  induction handled generalizing s with
  | nil => exact ⟨rfl, rfl⟩
  | cons head handled ih =>
      obtain ⟨context, ownId, message⟩ := head
      obtain ⟨hhead, hrest⟩ := List.forall_mem_cons.1 hfits
      obtain ⟨horders, hstatus⟩ := ih (s := (canNode.step s (context, ownId, message)).1) hrest
      have hid : (canNode.step s (context, ownId, message)).1.controllerId = s.controllerId :=
        controllerId_step s _
      have htable : (canNode.step s (context, ownId, message)).1.statMsgs =
          (((report? (context, ownId, message)).map Report.coded).elim s.statMsgs fun msg =>
            recordStatus msg s.statMsgs) := by
        rw [← statusMsg_arrival context ownId hhead]
        exact step_statMsgs s _
      rw [Machine.run_cons]
      constructor
      · rw [List.filterMap_append, orders_step s context ownId hhead, horders, hid,
          List.filterMap_cons]
        cases message.askedOf s.controllerId <;> rfl
      · rw [hstatus, htable, List.filterMap_cons]
        cases report? (context, ownId, message) with
        | none => rfl
        | some report =>
            rw [Option.map_some, Option.elim_some, recordStatus_eq, List.map_cons, List.foldl_cons]

/-- The latest report of an id, as it comes out of the frames. -/
theorem latestItem_coded (reports : List Report) (id : Int) :
    latestItem CanStatusMsg.id (reports.map Report.coded) id =
      (latestItem Report.id reports id).map Report.coded := by
  unfold latestItem
  rw [← List.map_reverse, List.find?_map]
  rfl

theorem firstKeys_coded (reports : List Report) :
    firstKeys CanStatusMsg.id (reports.map Report.coded) = firstKeys Report.id reports := by
  rw [firstKeys, firstKeys, List.map_map]
  rfl

/-! ## The bus -/

section Network

variable {ν : Type} [DecidableEq ν]

/-- The controllers after these steps, from empty queues on, and all that they have done. -/
def canNetwork (controllers : ν → CanState)
    (steps : List (BusStep ν CanContext (Byte × CanMessage))) :
    Bus ν CanState (Byte × CanMessage) × List (ν × CanEffect) :=
  (bus canNode).run ⟨controllers, fun _ => []⟩ steps

variable (controllers : ν → CanState) (steps : List (BusStep ν CanContext (Byte × CanMessage)))

/-- What a controller has handled of the messages of the others, and what it still has to. -/
theorem canNetwork_delivers (receiver : ν) :
    ∃ handled : List (CanContext × Byte × CanMessage),
      sentTo receiver steps =
          handled.map Prod.snd ++ (canNetwork controllers steps).1.inbox receiver ∧
        (canNetwork controllers steps).1.node receiver =
          (canNode.run (controllers receiver) handled).1 ∧
        emittedBy receiver (canNetwork controllers steps).2 =
          (canNode.run (controllers receiver) handled).2 :=
  bus_delivers canNode ⟨controllers, fun _ => []⟩ steps receiver

theorem fits_of_sentTo {receiver : ν} {handled : List (CanContext × Byte × CanMessage)}
    {waiting : List (Byte × CanMessage)}
    (hsent : sentTo receiver steps = handled.map Prod.snd ++ waiting)
    (hfits : ∀ message ∈ sentTo receiver steps, message.2.Fits) : ∀ h ∈ handled, h.2.2.Fits := by
  intro h hmem
  refine hfits h.2 ?_
  rw [hsent]
  exact List.mem_append_left _ (List.mem_map_of_mem hmem)

/-- In every order of sending and handling, each controller carries out once and in their order
the commands that it is asked for, those excepted that are still in its queue. -/
theorem canNetwork_orders (receiver : ν)
    (hfits : ∀ message ∈ sentTo receiver steps, message.2.Fits) :
    ∃ handled : List (Byte × CanMessage),
      sentTo receiver steps = handled ++ (canNetwork controllers steps).1.inbox receiver ∧
        List.Forall₂ Honours
          ((emittedBy receiver (canNetwork controllers steps).2).filterMap CanEffect.order?)
          (handled.filterMap fun message =>
            message.2.askedOf (controllers receiver).controllerId) := by
  obtain ⟨handled, hsent, -, heffects⟩ := canNetwork_delivers controllers steps receiver
  obtain ⟨horders, -⟩ := canNode_run (s := controllers receiver)
    (fits_of_sentTo steps hsent hfits)
  refine ⟨handled.map Prod.snd, hsent, ?_⟩
  rw [heffects, horders, List.filterMap_map, List.forall₂_map_left_iff]
  exact List.forall₂_same.2 fun asked _ => honours_coded asked

/-- One controller sets the duty cycle of another one, and then tells it its status. -/
def dutyThenStatus : List (BusStep Bool CanContext (Byte × CanMessage)) :=
  [.send true (3, .set .duty 5 (1 / 2)), .send true (3, .status ⟨-2500, 31 / 2, -1 / 3⟩),
    .handle false ⟨7, fun _ => 0⟩, .handle false ⟨8, fun _ => 0⟩]

theorem fits_dutyThenStatus : ∀ message ∈ sentTo false dutyThenStatus, message.2.Fits := by
  intro message hmessage
  obtain rfl | hmessage := List.mem_cons.1 hmessage
  · exact (by decide +kernel : -2147483648 ≤ truncate (1 / 2 * 100000) ∧
      truncate (1 / 2 * 100000) ≤ 2147483647)
  · obtain rfl := List.mem_singleton.1 hmessage
    exact ⟨(by decide +kernel : -2147483648 ≤ truncate (-2500) ∧ truncate (-2500) ≤ 2147483647),
      (by decide +kernel : -32768 ≤ truncate (31 / 2 * 10) ∧ truncate (31 / 2 * 10) ≤ 32767),
      (by decide +kernel : -32768 ≤ truncate (-1 / 3 * 1000) ∧ truncate (-1 / 3 * 1000) ≤ 32767)⟩

theorem canNetwork_orders_duty :
    (canNetwork (fun _ => bootedCan) dutyThenStatus).1.inbox false = [] ∧
      ∃ handled : List (Byte × CanMessage),
        sentTo false dutyThenStatus =
            handled ++ (canNetwork (fun _ => bootedCan) dutyThenStatus).1.inbox false ∧
          List.Forall₂ Honours
            ((emittedBy false (canNetwork (fun _ => bootedCan) dutyThenStatus).2).filterMap
              CanEffect.order?)
            (handled.filterMap fun message => message.2.askedOf 5) :=
  ⟨rfl, canNetwork_orders (fun _ => bootedCan) dutyThenStatus false fits_dutyThenStatus⟩

/-- The table of each controller holds the latest report of the ids that it has heard first, of
all reports that it has handled. -/
theorem canNetwork_status (receiver : ν)
    (hfits : ∀ message ∈ sentTo receiver steps, message.2.Fits)
    (hfree : ∀ slot ∈ (controllers receiver).statMsgs, slot.id = -1) :
    ∃ handled : List (CanContext × Byte × CanMessage),
      sentTo receiver steps =
          handled.map Prod.snd ++ (canNetwork controllers steps).1.inbox receiver ∧
        (∀ slot ∈ ((canNetwork controllers steps).1.node receiver).statMsgs, slot.id ≠ -1 →
          ∃ report, latestItem Report.id (handled.filterMap report?) slot.id = some report ∧
            Tells slot report) ∧
        ∀ id ∈ (firstKeys Report.id (handled.filterMap report?)).take
            (controllers receiver).statMsgs.length,
          ∃ slot ∈ ((canNetwork controllers steps).1.node receiver).statMsgs, slot.id = id := by
  obtain ⟨handled, hsent, hnode, -⟩ := canNetwork_delivers controllers steps receiver
  obtain ⟨-, htable⟩ := canNode_run (s := controllers receiver)
    (fits_of_sentTo steps hsent hfits)
  have hids : ∀ msg ∈ (handled.filterMap report?).map Report.coded, msg.id ≠ -1 := by
    intro msg hmsg
    obtain ⟨report, -, rfl⟩ := List.mem_map.1 hmsg
    simp only [Report.coded, Report.id]
    omega
  obtain ⟨⟨unused, hused, hunused⟩, -, -⟩ := filled_foldl CanStatusMsg.id hfree hids
  rw [← htable] at hused
  rw [hnode, hused]
  refine ⟨handled, hsent, ?_, ?_⟩
  · intro slot hslot hbusy
    have hkept := (List.mem_append.1 hslot).resolve_right fun h => hbusy (hunused slot h)
    have hlatest := latestItem_of_mem_kept _ hkept
    rw [latestItem_coded, Option.map_eq_some_iff] at hlatest
    obtain ⟨report, hreport, rfl⟩ := hlatest
    exact ⟨report, hreport, report.tells_coded⟩
  · intro id hid
    rw [← firstKeys_coded, ← kept_map_key] at hid
    obtain ⟨slot, hslot, rfl⟩ := List.mem_map.1 hid
    exact ⟨slot, List.mem_append_left _ hslot, rfl⟩

theorem canNetwork_status_duty :
    ((canNetwork (fun _ => bootedCan) dutyThenStatus).1.node false).statMsgs.map CanStatusMsg.id =
        3 :: List.replicate 9 (-1) ∧
      ∃ handled : List (CanContext × Byte × CanMessage),
        sentTo false dutyThenStatus = handled.map Prod.snd ++
            (canNetwork (fun _ => bootedCan) dutyThenStatus).1.inbox false ∧
          (∀ slot ∈ ((canNetwork (fun _ => bootedCan) dutyThenStatus).1.node false).statMsgs,
            slot.id ≠ -1 →
            ∃ report, latestItem Report.id (handled.filterMap report?) slot.id = some report ∧
              Tells slot report) ∧
          ∀ id ∈ (firstKeys Report.id (handled.filterMap report?)).take bootedCan.statMsgs.length,
            ∃ slot ∈ ((canNetwork (fun _ => bootedCan) dutyThenStatus).1.node false).statMsgs,
              slot.id = id :=
  ⟨by decide +kernel,
    canNetwork_status (fun _ => bootedCan) dutyThenStatus false fits_dutyThenStatus
      (by decide +kernel)⟩

end Network

end Bldc.Link
