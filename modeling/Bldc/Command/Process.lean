import Bldc.Conf.Codec
import Bldc.Link.Can

/-!
# Command packets

`commands_process_packet` acts on the first byte of a packet and takes the rest
as its parameters. Its handlers read their parameters at fixed offsets and none
of them looks at the length of the packet first.
-/

namespace Bldc.Command

open Flash Link Conf

/-- `COMM_PACKET_ID`. -/
inductive CommPacketId where
  | fwVersion
  | jumpToBootloader
  | eraseNewApp
  | writeNewAppData
  | getValues
  | setDuty
  | setCurrent
  | setCurrentBrake
  | setRpm
  | setPos
  | setDetect
  | setServoPos
  | setMcconf
  | getMcconf
  | getMcconfDefault
  | setAppconf
  | getAppconf
  | getAppconfDefault
  | samplePrint
  | terminalCmd
  | print
  | rotorPosition
  | experimentSample
  | detectMotorParam
  | detectMotorRL
  | detectMotorFluxLinkage
  | detectEncoder
  | detectHallFoc
  | reboot
  | alive
  | getDecodedPpm
  | getDecodedAdc
  | getDecodedChuk
  | forwardCan
  | setChuckData
  | customAppData
  deriving DecidableEq, Repr

namespace CommPacketId

/-- In the order of their codes. -/
def all : List CommPacketId :=
  [fwVersion, jumpToBootloader, eraseNewApp, writeNewAppData, getValues, setDuty, setCurrent,
    setCurrentBrake, setRpm, setPos, setDetect, setServoPos, setMcconf, getMcconf,
    getMcconfDefault, setAppconf, getAppconf, getAppconfDefault, samplePrint, terminalCmd, print,
    rotorPosition, experimentSample, detectMotorParam, detectMotorRL, detectMotorFluxLinkage,
    detectEncoder, detectHallFoc, reboot, alive, getDecodedPpm, getDecodedAdc, getDecodedChuk,
    forwardCan, setChuckData, customAppData]

def code (id : CommPacketId) : Byte := BitVec.ofNat 8 (all.idxOf id)

def ofCode (code : Byte) : Option CommPacketId := all[code.toNat]?

end CommPacketId

/-- `chuck_data`. -/
structure ChuckData where
  jsX : Int
  jsY : Int
  accX : Int
  accY : Int
  accZ : Int
  btC : Bool
  btZ : Bool
  deriving DecidableEq, Repr

/-- What the handlers read of the rest of the firmware. -/
structure Readings where
  ntcTempMos1 : Rat
  ntcTempMos2 : Rat
  ntcTempMos3 : Rat
  ntcTempMos4 : Rat
  ntcTempMos5 : Rat
  ntcTempMos6 : Rat
  ntcTempPcb : Rat
  avgMotorCurrent : Rat
  avgInputCurrent : Rat
  dutyCycleNow : Rat
  rpm : Rat
  inputVoltage : Rat
  ampHours : Rat
  ampHoursCharged : Rat
  wattHours : Rat
  wattHoursCharged : Rat
  tachometerValue : Int
  tachometerAbsValue : Int
  fault : Byte
  servo : Rat
  lastPulseLen : Rat
  adcDecodedLevel : Rat
  adcVoltage : Rat
  adcDecodedLevel2 : Rat
  adcVoltage2 : Rat
  decodedChuk : Rat
  deriving Inhabited

/-- A state of the device, as the handlers see it: the configurations, the
readings, and what the routines they call return in this state. -/
structure Device where
  mcconf : McConfiguration
  mcconfDefault : McConfiguration
  appconf : AppConfiguration
  appconfDefault : AppConfiguration
  readings : Readings
  encoderIsConfigured : Bool
  appdataFunc : Bool
  eraseNewApp : Word → Status
  writeNewAppData : Word → List Byte → Status
  measureResInd : Option (Rat × Rat)
  measureFluxLinkage : (current duty minRpm resistance : Rat) → Option Rat
  encoderDetect : (current : Rat) → Rat × Rat × Bool
  hallDetect : (current : Rat) → (Fin 8 → Byte) × Bool

/-- The replies and the calls into the rest of the firmware. -/
inductive Effect where
  | reply (bytes : List Byte)
  | jumpToBootloader
  | eraseNewApp (newAppSize : Word)
  | writeNewAppData (offset : Word) (data : List Byte)
  | readResetAvgMotorCurrent
  | readResetAvgInputCurrent
  | setDuty (dutyCycle : Rat)
  | setCurrent (current : Rat)
  | setBrakeCurrent (current : Rat)
  | setPidSpeed (rpm : Rat)
  | setPidPos (pos : Rat)
  | timeoutReset
  | setDisplayPositionMode (mode : Byte)
  | releaseMotor
  | setDetect
  | storeMcConfiguration (mcconf : McConfiguration)
  | setMcConfiguration (mcconf : McConfiguration)
  | storeAppConfiguration (appconf : AppConfiguration)
  | setAppConfiguration (appconf : AppConfiguration)
  | timeoutConfigure (timeoutMsec : Word) (brakeCurrent : Rat)
  | samplePrintData (atStart : Bool) (sampleLen : Half) (decimation : Byte)
  | terminalProcessString (str : List Byte)
  | detectMotorParam (current minRpm lowDuty : Rat)
  | measureResInd
  | measureFluxLinkage (current duty minRpm resistance : Rat)
  | encoderDetect (current : Rat)
  | hallDetect (current : Rat)
  | reboot
  | canTransmit (frames : List CanTxFrame)
  | nunchukUpdateOutput (chuck : ChuckData)
  | appData (data : List Byte)

/-- `MOTOR_TYPE_BLDC` and `MOTOR_TYPE_FOC`. -/
def motorTypeBldc : Byte := 0

def motorTypeFoc : Byte := 2

/-- `DISP_POS_MODE_NONE` and `DISP_POS_MODE_INDUCTANCE`. -/
def dispPosModeNone : Byte := 0

def dispPosModeInductance : Byte := 1

/-- `SENSOR_PORT_MODE_HALL`. -/
def sensorPortModeHall : Byte := 0

/-- `FW_VERSION_MAJOR` and `FW_VERSION_MINOR`. -/
def fwVersionMajor : Byte := 2

def fwVersionMinor : Byte := 18

/-- The reply to a flash request. -/
def flashReply (id : CommPacketId) (flashRes : Status) : Effect :=
  .reply [id.code, if flashRes = .complete then 1 else 0]

/-- The reply to `COMM_GET_VALUES`. -/
def valuesReply (r : Readings) : List Byte :=
  [CommPacketId.getValues.code] ++
    bufferAppendFloat16 r.ntcTempMos1 10 ++ bufferAppendFloat16 r.ntcTempMos2 10 ++
    bufferAppendFloat16 r.ntcTempMos3 10 ++ bufferAppendFloat16 r.ntcTempMos4 10 ++
    bufferAppendFloat16 r.ntcTempMos5 10 ++ bufferAppendFloat16 r.ntcTempMos6 10 ++
    bufferAppendFloat16 r.ntcTempPcb 10 ++
    bufferAppendFloat32 r.avgMotorCurrent 100 ++ bufferAppendFloat32 r.avgInputCurrent 100 ++
    bufferAppendFloat16 r.dutyCycleNow 1000 ++ bufferAppendFloat32 r.rpm 1 ++
    bufferAppendFloat16 r.inputVoltage 10 ++
    bufferAppendFloat32 r.ampHours 10000 ++ bufferAppendFloat32 r.ampHoursCharged 10000 ++
    bufferAppendFloat32 r.wattHours 10000 ++ bufferAppendFloat32 r.wattHoursCharged 10000 ++
    bufferAppendInt32 r.tachometerValue ++ bufferAppendInt32 r.tachometerAbsValue ++ [r.fault]

/-- The configuration under which the encoder and the hall sensors are detected. -/
def detectConfiguration (mcconf : McConfiguration) : McConfiguration :=
  { mcconf with
    motorType := motorTypeFoc
    focFSw := 10000
    focCurrentKp := 1 / 100
    focCurrentKi := 10 }

/-- The cases of `commands_process_packet`, with the id split off. -/
def processCommand (dev : Device) (data : Buffer) (len : Word) : CommPacketId → List Effect
  | .fwVersion => [.reply [CommPacketId.fwVersion.code, fwVersionMajor, fwVersionMinor]]
  | .jumpToBootloader => [.jumpToBootloader]
  | .eraseNewApp =>
      let newAppSize := bufferGetUint32 data 0
      [.eraseNewApp newAppSize, flashReply .eraseNewApp (dev.eraseNewApp newAppSize)]
  | .writeNewAppData =>
      let offset := bufferGetUint32 data 0
      let chunk := bytesOf (fun k => data (4 + k)) (len - 4).toNat
      [.writeNewAppData offset chunk,
        flashReply .writeNewAppData (dev.writeNewAppData offset chunk)]
  | .getValues =>
      [.readResetAvgMotorCurrent, .readResetAvgInputCurrent, .reply (valuesReply dev.readings)]
  | .setDuty => [.setDuty (bufferGetFloat32 data 100000 0), .timeoutReset]
  | .setCurrent => [.setCurrent (bufferGetFloat32 data 1000 0), .timeoutReset]
  | .setCurrentBrake => [.setBrakeCurrent (bufferGetFloat32 data 1000 0), .timeoutReset]
  | .setRpm => [.setPidSpeed (bufferGetInt32 data 0), .timeoutReset]
  | .setPos => [.setPidPos (bufferGetFloat32 data 1000000 0), .timeoutReset]
  | .setDetect =>
      let mode := data 0
      [.setDisplayPositionMode mode] ++
        (if dev.mcconf.motorType = motorTypeBldc then
          if mode = dispPosModeNone then [.releaseMotor]
          else if mode = dispPosModeInductance then [.setDetect] else []
        else []) ++ [.timeoutReset]
  -- the servo output is not compiled in
  | .setServoPos => []
  | .setMcconf =>
      let mcconf := setMcconf data dev.mcconf
      [.storeMcConfiguration mcconf, .setMcConfiguration mcconf,
        .reply [CommPacketId.setMcconf.code]]
  | .getMcconf => [.reply (CommPacketId.getMcconf.code :: WireField.encode dev.mcconf mcconfFields)]
  | .getMcconfDefault =>
      [.reply (CommPacketId.getMcconfDefault.code ::
        WireField.encode dev.mcconfDefault mcconfFields)]
  | .setAppconf =>
      let appconf := setAppconf data dev.appconf
      [.storeAppConfiguration appconf, .setAppConfiguration appconf,
        .timeoutConfigure appconf.timeoutMsec appconf.timeoutBrakeCurrent,
        .reply [CommPacketId.setAppconf.code]]
  | .getAppconf =>
      [.reply (CommPacketId.getAppconf.code :: WireField.encode dev.appconf appconfFields)]
  | .getAppconfDefault =>
      [.reply (CommPacketId.getAppconfDefault.code ::
        WireField.encode dev.appconfDefault appconfFields)]
  | .samplePrint => [.samplePrintData (data 0 != 0) (bufferGetUint16 data 1) (data 3)]
  -- the handler puts a zero behind the packet and passes the packet as a string
  | .terminalCmd => [.terminalProcessString ((bytesOf data len.toNat).takeWhile (· != 0))]
  | .detectMotorParam =>
      [.detectMotorParam (bufferGetFloat32 data 1000 0) (bufferGetFloat32 data 1000 4)
        (bufferGetFloat32 data 1000 8)]
  | .detectMotorRL =>
      let (r, l) := dev.measureResInd.getD (0, 0)
      [.setMcConfiguration { dev.mcconf with motorType := motorTypeFoc }, .measureResInd,
        .setMcConfiguration dev.mcconf,
        .reply (CommPacketId.detectMotorRL.code ::
          (bufferAppendFloat32 r 1000000 ++ bufferAppendFloat32 l 1000))]
  | .detectMotorFluxLinkage =>
      let current := bufferGetFloat32 data 1000 0
      let minRpm := bufferGetFloat32 data 1000 4
      let duty := bufferGetFloat32 data 1000 8
      let resistance := bufferGetFloat32 data 1000000 12
      let linkage := (dev.measureFluxLinkage current duty minRpm resistance).getD 0
      [.measureFluxLinkage current duty minRpm resistance,
        .reply (CommPacketId.detectMotorFluxLinkage.code ::
          bufferAppendFloat32 linkage 10000000)]
  | .detectEncoder =>
      if dev.encoderIsConfigured then
        let current := bufferGetFloat32 data 1000 0
        let (offset, ratio, inverted) := dev.encoderDetect current
        [.setMcConfiguration (detectConfiguration dev.mcconf), .encoderDetect current,
          .setMcConfiguration dev.mcconf,
          .reply (CommPacketId.detectEncoder.code :: (bufferAppendFloat32 offset 1000000 ++
            bufferAppendFloat32 ratio 1000000 ++ [if inverted then 1 else 0]))]
      else
        [.reply (CommPacketId.detectEncoder.code :: (bufferAppendFloat32 1001 1000000 ++
          bufferAppendFloat32 0 1000000 ++ [0]))]
  | .detectHallFoc =>
      if dev.mcconf.mSensorPortMode = sensorPortModeHall then
        let current := bufferGetFloat32 data 1000 0
        let (hallTab, res) := dev.hallDetect current
        [.setMcConfiguration (detectConfiguration dev.mcconf), .hallDetect current,
          .setMcConfiguration dev.mcconf,
          .reply (CommPacketId.detectHallFoc.code ::
            (List.ofFn hallTab ++ [if res then 0 else 1]))]
      -- a reply is prepared here and not sent
      else []
  | .reboot => [.reboot]
  | .alive => [.timeoutReset]
  | .getDecodedPpm =>
      [.reply (CommPacketId.getDecodedPpm.code ::
        (bufferAppendFloat32 dev.readings.servo 1000000 ++
          bufferAppendFloat32 dev.readings.lastPulseLen 1000000))]
  | .getDecodedAdc =>
      [.reply (CommPacketId.getDecodedAdc.code ::
        (bufferAppendFloat32 dev.readings.adcDecodedLevel 1000000 ++
          bufferAppendFloat32 dev.readings.adcVoltage 1000000 ++
          bufferAppendFloat32 dev.readings.adcDecodedLevel2 1000000 ++
          bufferAppendFloat32 dev.readings.adcVoltage2 1000000))]
  | .getDecodedChuk =>
      [.reply (CommPacketId.getDecodedChuk.code ::
        bufferAppendFloat32 dev.readings.decodedChuk 1000000)]
  | .forwardCan =>
      [.canTransmit (commCanSendBuffer dev.appconf.controllerId (data 0) (fun k => data (1 + k))
        (len - 1).toNat false)]
  | .setChuckData =>
      [.nunchukUpdateOutput
        { jsX := (data 0).toNat
          jsY := (data 1).toNat
          btC := data 2 != 0
          btZ := data 3 != 0
          accX := bufferGetInt16 data 4
          accY := bufferGetInt16 data 6
          accZ := bufferGetInt16 data 8 }]
  | .customAppData => if dev.appdataFunc then [.appData (bytesOf data len.toNat)] else []
  | .print | .rotorPosition | .experimentSample => []

/-- `commands_process_packet`. -/
def commandsProcessPacket (dev : Device) (data : Buffer) (len : Word) : List Effect :=
  if len = 0 then []
  else
    match CommPacketId.ofCode (data 0) with
    | some id => processCommand dev (fun k => data (1 + k)) (len - 1) id
    | none => []

/-- The configuration replies hold the bytes that the source lists. -/
theorem processCommand_getMcconf (dev : Device) (data : Buffer) (len : Word) :
    processCommand dev data len .getMcconf =
      [.reply (CommPacketId.getMcconf.code :: getMcconf dev.mcconf)] := rfl

theorem processCommand_getAppconf (dev : Device) (data : Buffer) (len : Word) :
    processCommand dev data len .getAppconf =
      [.reply (CommPacketId.getAppconf.code :: getAppconf dev.appconf)] := rfl

end Bldc.Command
