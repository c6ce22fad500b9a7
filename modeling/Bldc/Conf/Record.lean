import Bldc.Link.Wire

/-!
# The configurations as records

The two configuration structs with their fields, and the tables in whose order
and scaling `COMM_SET_MCCONF` and `COMM_SET_APPCONF` read them and the
`COMM_GET_` replies write them.
-/

namespace Bldc.Conf

open Flash Link

/-- `mc_configuration`. An enumeration is the byte that was received for it,
whether or not it is one of the named values. -/
structure McConfiguration where
  pwmMode : Byte
  commMode : Byte
  motorType : Byte
  sensorMode : Byte
  lCurrentMax : Rat
  lCurrentMin : Rat
  lInCurrentMax : Rat
  lInCurrentMin : Rat
  lAbsCurrentMax : Rat
  lMinErpm : Rat
  lMaxErpm : Rat
  lMaxErpmFbrake : Rat
  lMaxErpmFbrakeCc : Rat
  lMinVin : Rat
  lMaxVin : Rat
  lBatteryCutStart : Rat
  lBatteryCutEnd : Rat
  lSlowAbsCurrent : Bool
  lRpmLimNegTorque : Bool
  lTempFetStart : Rat
  lTempFetEnd : Rat
  lTempMotorStart : Rat
  lTempMotorEnd : Rat
  lMinDuty : Rat
  lMaxDuty : Rat
  loCurrentMax : Rat
  loCurrentMin : Rat
  loInCurrentMax : Rat
  loInCurrentMin : Rat
  slMinErpm : Rat
  slMinErpmCycleIntLimit : Rat
  slMaxFullbreakCurrentDirChange : Rat
  slCycleIntLimit : Rat
  slPhaseAdvanceAtBr : Rat
  slCycleIntRpmBr : Rat
  slBemfCouplingK : Rat
  hallTable : Fin 8 → Byte
  hallSlErpm : Rat
  focCurrentKp : Rat
  focCurrentKi : Rat
  focFSw : Rat
  focDtUs : Rat
  focEncoderOffset : Rat
  focEncoderInverted : Bool
  focEncoderRatio : Rat
  focMotorL : Rat
  focMotorR : Rat
  focMotorFluxLinkage : Rat
  focObserverGain : Rat
  focPllKp : Rat
  focPllKi : Rat
  focDutyDowmrampKp : Rat
  focDutyDowmrampKi : Rat
  focOpenloopRpm : Rat
  focSlOpenloopHyst : Rat
  focSlOpenloopTime : Rat
  focSlDCurrentDuty : Rat
  focSlDCurrentFactor : Rat
  focSensorMode : Byte
  focHallTable : Fin 8 → Byte
  focSlErpm : Rat
  sPidKp : Rat
  sPidKi : Rat
  sPidKd : Rat
  sPidMinErpm : Rat
  pPidKp : Rat
  pPidKi : Rat
  pPidKd : Rat
  pPidAngDiv : Rat
  ccStartupBoostDuty : Rat
  ccMinCurrent : Rat
  ccGain : Rat
  ccRampStepMax : Rat
  mFaultStopTimeMs : Int
  mDutyRampStep : Rat
  mDutyRampStepRpmLim : Rat
  mCurrentBackoffGain : Rat
  mEncoderCounts : Word
  mSensorPortMode : Byte
  deriving Inhabited

/-- `ppm_config`. -/
structure PpmConfig where
  ctrlType : Byte
  pidMaxErpm : Rat
  hyst : Rat
  pulseStart : Rat
  pulseEnd : Rat
  medianFilter : Bool
  safeStart : Bool
  rpmLimStart : Rat
  rpmLimEnd : Rat
  multiEsc : Bool
  tc : Bool
  tcMaxDiff : Rat
  deriving Inhabited

/-- `adc_config`. -/
structure AdcConfig where
  ctrlType : Byte
  hyst : Rat
  voltageStart : Rat
  voltageEnd : Rat
  useFilter : Bool
  safeStart : Bool
  ccButtonInverted : Bool
  revButtonInverted : Bool
  voltageInverted : Bool
  rpmLimStart : Rat
  rpmLimEnd : Rat
  multiEsc : Bool
  tc : Bool
  tcMaxDiff : Rat
  updateRateHz : Word
  deriving Inhabited

/-- `chuk_config`. -/
structure ChukConfig where
  ctrlType : Byte
  hyst : Rat
  rpmLimStart : Rat
  rpmLimEnd : Rat
  rampTimePos : Rat
  rampTimeNeg : Rat
  stickErpmPerSInCc : Rat
  multiEsc : Bool
  tc : Bool
  tcMaxDiff : Rat
  deriving Inhabited

/-- `nrf_config`. -/
structure NrfConfig where
  speed : Byte
  power : Byte
  crcType : Byte
  retryDelay : Byte
  retries : Byte
  channel : Byte
  address : Fin 3 → Byte
  sendCrcAck : Bool
  deriving Inhabited

/-- `app_configuration`. -/
structure AppConfiguration where
  controllerId : Byte
  timeoutMsec : Word
  timeoutBrakeCurrent : Rat
  sendCanStatus : Bool
  sendCanStatusRateHz : Word
  appToUse : Byte
  appPpmConf : PpmConfig
  appAdcConf : AdcConfig
  appUartBaudrate : Word
  appChukConf : ChukConfig
  appNrfConf : NrfConfig
  deriving Inhabited

open WireField

/-- The fields of a motor configuration in a packet. -/
def mcconfFields : List (WireField McConfiguration) := [
  .byte (·.pwmMode) fun x c => { c with pwmMode := x },
  .byte (·.commMode) fun x c => { c with commMode := x },
  .byte (·.motorType) fun x c => { c with motorType := x },
  .byte (·.sensorMode) fun x c => { c with sensorMode := x },
  .float 1000 (·.lCurrentMax) fun x c => { c with lCurrentMax := x },
  .float 1000 (·.lCurrentMin) fun x c => { c with lCurrentMin := x },
  .float 1000 (·.lInCurrentMax) fun x c => { c with lInCurrentMax := x },
  .float 1000 (·.lInCurrentMin) fun x c => { c with lInCurrentMin := x },
  .float 1000 (·.lAbsCurrentMax) fun x c => { c with lAbsCurrentMax := x },
  .float 1000 (·.lMinErpm) fun x c => { c with lMinErpm := x },
  .float 1000 (·.lMaxErpm) fun x c => { c with lMaxErpm := x },
  .float 1000 (·.lMaxErpmFbrake) fun x c => { c with lMaxErpmFbrake := x },
  .float 1000 (·.lMaxErpmFbrakeCc) fun x c => { c with lMaxErpmFbrakeCc := x },
  .float 1000 (·.lMinVin) fun x c => { c with lMinVin := x },
  .float 1000 (·.lMaxVin) fun x c => { c with lMaxVin := x },
  .float 1000 (·.lBatteryCutStart) fun x c => { c with lBatteryCutStart := x },
  .float 1000 (·.lBatteryCutEnd) fun x c => { c with lBatteryCutEnd := x },
  .flag (·.lSlowAbsCurrent) fun x c => { c with lSlowAbsCurrent := x },
  .flag (·.lRpmLimNegTorque) fun x c => { c with lRpmLimNegTorque := x },
  .float 1000 (·.lTempFetStart) fun x c => { c with lTempFetStart := x },
  .float 1000 (·.lTempFetEnd) fun x c => { c with lTempFetEnd := x },
  .float 1000 (·.lTempMotorStart) fun x c => { c with lTempMotorStart := x },
  .float 1000 (·.lTempMotorEnd) fun x c => { c with lTempMotorEnd := x },
  .float 1000000 (·.lMinDuty) fun x c => { c with lMinDuty := x },
  .float 1000000 (·.lMaxDuty) fun x c => { c with lMaxDuty := x },
  .float 1000 (·.slMinErpm) fun x c => { c with slMinErpm := x },
  .float 1000 (·.slMinErpmCycleIntLimit) fun x c => { c with slMinErpmCycleIntLimit := x },
  .float 1000 (·.slMaxFullbreakCurrentDirChange)
    fun x c => { c with slMaxFullbreakCurrentDirChange := x },
  .float 1000 (·.slCycleIntLimit) fun x c => { c with slCycleIntLimit := x },
  .float 1000 (·.slPhaseAdvanceAtBr) fun x c => { c with slPhaseAdvanceAtBr := x },
  .float 1000 (·.slCycleIntRpmBr) fun x c => { c with slCycleIntRpmBr := x },
  .float 1000 (·.slBemfCouplingK) fun x c => { c with slBemfCouplingK := x },
  .bytes 8 (·.hallTable) fun x c => { c with hallTable := x },
  .float 1000 (·.hallSlErpm) fun x c => { c with hallSlErpm := x },
  .float 100000 (·.focCurrentKp) fun x c => { c with focCurrentKp := x },
  .float 100000 (·.focCurrentKi) fun x c => { c with focCurrentKi := x },
  .float 1000 (·.focFSw) fun x c => { c with focFSw := x },
  .float 1000000 (·.focDtUs) fun x c => { c with focDtUs := x },
  .flag (·.focEncoderInverted) fun x c => { c with focEncoderInverted := x },
  .float 1000 (·.focEncoderOffset) fun x c => { c with focEncoderOffset := x },
  .float 1000 (·.focEncoderRatio) fun x c => { c with focEncoderRatio := x },
  .byte (·.focSensorMode) fun x c => { c with focSensorMode := x },
  .float 1000 (·.focPllKp) fun x c => { c with focPllKp := x },
  .float 1000 (·.focPllKi) fun x c => { c with focPllKi := x },
  .float 100000000 (·.focMotorL) fun x c => { c with focMotorL := x },
  .float 100000 (·.focMotorR) fun x c => { c with focMotorR := x },
  .float 100000 (·.focMotorFluxLinkage) fun x c => { c with focMotorFluxLinkage := x },
  .float 1 (·.focObserverGain) fun x c => { c with focObserverGain := x },
  .float 1000 (·.focDutyDowmrampKp) fun x c => { c with focDutyDowmrampKp := x },
  .float 1000 (·.focDutyDowmrampKi) fun x c => { c with focDutyDowmrampKi := x },
  .float 1000 (·.focOpenloopRpm) fun x c => { c with focOpenloopRpm := x },
  .float 1000 (·.focSlOpenloopHyst) fun x c => { c with focSlOpenloopHyst := x },
  .float 1000 (·.focSlOpenloopTime) fun x c => { c with focSlOpenloopTime := x },
  .float 1000 (·.focSlDCurrentDuty) fun x c => { c with focSlDCurrentDuty := x },
  .float 1000 (·.focSlDCurrentFactor) fun x c => { c with focSlDCurrentFactor := x },
  .bytes 8 (·.focHallTable) fun x c => { c with focHallTable := x },
  .float 1000 (·.focSlErpm) fun x c => { c with focSlErpm := x },
  .float 1000000 (·.sPidKp) fun x c => { c with sPidKp := x },
  .float 1000000 (·.sPidKi) fun x c => { c with sPidKi := x },
  .float 1000000 (·.sPidKd) fun x c => { c with sPidKd := x },
  .float 1000 (·.sPidMinErpm) fun x c => { c with sPidMinErpm := x },
  .float 1000000 (·.pPidKp) fun x c => { c with pPidKp := x },
  .float 1000000 (·.pPidKi) fun x c => { c with pPidKi := x },
  .float 1000000 (·.pPidKd) fun x c => { c with pPidKd := x },
  .float 100000 (·.pPidAngDiv) fun x c => { c with pPidAngDiv := x },
  .float 1000000 (·.ccStartupBoostDuty) fun x c => { c with ccStartupBoostDuty := x },
  .float 1000 (·.ccMinCurrent) fun x c => { c with ccMinCurrent := x },
  .float 1000000 (·.ccGain) fun x c => { c with ccGain := x },
  .float 1000000 (·.ccRampStepMax) fun x c => { c with ccRampStepMax := x },
  .int32 (·.mFaultStopTimeMs) fun x c => { c with mFaultStopTimeMs := x },
  .float 1000000 (·.mDutyRampStep) fun x c => { c with mDutyRampStep := x },
  .float 1000000 (·.mDutyRampStepRpmLim) fun x c => { c with mDutyRampStepRpmLim := x },
  .float 1000000 (·.mCurrentBackoffGain) fun x c => { c with mCurrentBackoffGain := x },
  .uint32 (·.mEncoderCounts) fun x c => { c with mEncoderCounts := x },
  .byte (·.mSensorPortMode) fun x c => { c with mSensorPortMode := x }]

/-- The fields of an app configuration in a packet. -/
def appconfFields : List (WireField AppConfiguration) := [
  .byte (·.controllerId) fun x c => { c with controllerId := x },
  .uint32 (·.timeoutMsec) fun x c => { c with timeoutMsec := x },
  .float 1000 (·.timeoutBrakeCurrent) fun x c => { c with timeoutBrakeCurrent := x },
  .flag (·.sendCanStatus) fun x c => { c with sendCanStatus := x },
  .uint16 (·.sendCanStatusRateHz) fun x c => { c with sendCanStatusRateHz := x },
  .byte (·.appToUse) fun x c => { c with appToUse := x },
  .byte (·.appPpmConf.ctrlType) fun x c => { c with appPpmConf.ctrlType := x },
  .float 1000 (·.appPpmConf.pidMaxErpm) fun x c => { c with appPpmConf.pidMaxErpm := x },
  .float 1000 (·.appPpmConf.hyst) fun x c => { c with appPpmConf.hyst := x },
  .float 1000 (·.appPpmConf.pulseStart) fun x c => { c with appPpmConf.pulseStart := x },
  .float 1000 (·.appPpmConf.pulseEnd) fun x c => { c with appPpmConf.pulseEnd := x },
  .flag (·.appPpmConf.medianFilter) fun x c => { c with appPpmConf.medianFilter := x },
  .flag (·.appPpmConf.safeStart) fun x c => { c with appPpmConf.safeStart := x },
  .float 1000 (·.appPpmConf.rpmLimStart) fun x c => { c with appPpmConf.rpmLimStart := x },
  .float 1000 (·.appPpmConf.rpmLimEnd) fun x c => { c with appPpmConf.rpmLimEnd := x },
  .flag (·.appPpmConf.multiEsc) fun x c => { c with appPpmConf.multiEsc := x },
  .flag (·.appPpmConf.tc) fun x c => { c with appPpmConf.tc := x },
  .float 1000 (·.appPpmConf.tcMaxDiff) fun x c => { c with appPpmConf.tcMaxDiff := x },
  .byte (·.appAdcConf.ctrlType) fun x c => { c with appAdcConf.ctrlType := x },
  .float 1000 (·.appAdcConf.hyst) fun x c => { c with appAdcConf.hyst := x },
  .float 1000 (·.appAdcConf.voltageStart) fun x c => { c with appAdcConf.voltageStart := x },
  .float 1000 (·.appAdcConf.voltageEnd) fun x c => { c with appAdcConf.voltageEnd := x },
  .flag (·.appAdcConf.useFilter) fun x c => { c with appAdcConf.useFilter := x },
  .flag (·.appAdcConf.safeStart) fun x c => { c with appAdcConf.safeStart := x },
  .flag (·.appAdcConf.ccButtonInverted) fun x c => { c with appAdcConf.ccButtonInverted := x },
  .flag (·.appAdcConf.revButtonInverted) fun x c => { c with appAdcConf.revButtonInverted := x },
  .flag (·.appAdcConf.voltageInverted) fun x c => { c with appAdcConf.voltageInverted := x },
  .float 1000 (·.appAdcConf.rpmLimStart) fun x c => { c with appAdcConf.rpmLimStart := x },
  .float 1000 (·.appAdcConf.rpmLimEnd) fun x c => { c with appAdcConf.rpmLimEnd := x },
  .flag (·.appAdcConf.multiEsc) fun x c => { c with appAdcConf.multiEsc := x },
  .flag (·.appAdcConf.tc) fun x c => { c with appAdcConf.tc := x },
  .float 1000 (·.appAdcConf.tcMaxDiff) fun x c => { c with appAdcConf.tcMaxDiff := x },
  .uint16 (·.appAdcConf.updateRateHz) fun x c => { c with appAdcConf.updateRateHz := x },
  .uint32 (·.appUartBaudrate) fun x c => { c with appUartBaudrate := x },
  .byte (·.appChukConf.ctrlType) fun x c => { c with appChukConf.ctrlType := x },
  .float 1000 (·.appChukConf.hyst) fun x c => { c with appChukConf.hyst := x },
  .float 1000 (·.appChukConf.rpmLimStart) fun x c => { c with appChukConf.rpmLimStart := x },
  .float 1000 (·.appChukConf.rpmLimEnd) fun x c => { c with appChukConf.rpmLimEnd := x },
  .float 1000 (·.appChukConf.rampTimePos) fun x c => { c with appChukConf.rampTimePos := x },
  .float 1000 (·.appChukConf.rampTimeNeg) fun x c => { c with appChukConf.rampTimeNeg := x },
  .float 1000 (·.appChukConf.stickErpmPerSInCc)
    fun x c => { c with appChukConf.stickErpmPerSInCc := x },
  .flag (·.appChukConf.multiEsc) fun x c => { c with appChukConf.multiEsc := x },
  .flag (·.appChukConf.tc) fun x c => { c with appChukConf.tc := x },
  .float 1000 (·.appChukConf.tcMaxDiff) fun x c => { c with appChukConf.tcMaxDiff := x },
  .byte (·.appNrfConf.speed) fun x c => { c with appNrfConf.speed := x },
  .byte (·.appNrfConf.power) fun x c => { c with appNrfConf.power := x },
  .byte (·.appNrfConf.crcType) fun x c => { c with appNrfConf.crcType := x },
  .byte (·.appNrfConf.retryDelay) fun x c => { c with appNrfConf.retryDelay := x },
  .byte (·.appNrfConf.retries) fun x c => { c with appNrfConf.retries := x },
  .byte (·.appNrfConf.channel) fun x c => { c with appNrfConf.channel := x },
  .bytes 3 (·.appNrfConf.address) fun x c => { c with appNrfConf.address := x },
  .flag (·.appNrfConf.sendCrcAck) fun x c => { c with appNrfConf.sendCrcAck := x }]

/-- The motor configuration that `COMM_SET_MCCONF` builds: the fields of the
packet, and the override limits reset. -/
def setMcconf (buffer : Buffer) (mcconf : McConfiguration) : McConfiguration :=
  let mcconf := decode buffer 0 mcconfFields mcconf
  { mcconf with
    loCurrentMax := mcconf.lCurrentMax
    loCurrentMin := mcconf.lCurrentMin
    loInCurrentMax := mcconf.lInCurrentMax
    loInCurrentMin := mcconf.lInCurrentMin }

/-- The app configuration that `COMM_SET_APPCONF` builds. -/
def setAppconf (buffer : Buffer) (appconf : AppConfiguration) : AppConfiguration :=
  decode buffer 0 appconfFields appconf

theorem totalSize_mcconfFields : totalSize mcconfFields = 281 := rfl

theorem totalSize_appconfFields : totalSize appconfFields = 125 := rfl

theorem setMcconf_congr {n : Nat} {buffer buffer' : Buffer} (h : Agree n buffer buffer')
    (hn : 281 ≤ n) (mcconf : McConfiguration) :
    setMcconf buffer mcconf = setMcconf buffer' mcconf := by
  have hdecode := decode_congr h mcconfFields 0 mcconf (by rw [totalSize_mcconfFields]; omega)
  simp only [setMcconf, hdecode]

theorem setAppconf_congr {n : Nat} {buffer buffer' : Buffer} (h : Agree n buffer buffer')
    (hn : 125 ≤ n) (appconf : AppConfiguration) :
    setAppconf buffer appconf = setAppconf buffer' appconf :=
  decode_congr h appconfFields 0 appconf (by rw [totalSize_appconfFields]; omega)

/-- The last byte of the packet is the sensor port mode. -/
theorem setMcconf_sensorPortMode (buffer : Buffer) (mcconf : McConfiguration) :
    (setMcconf buffer mcconf).mSensorPortMode = buffer 280 := rfl

theorem setAppconf_sendCrcAck (buffer : Buffer) (appconf : AppConfiguration) :
    (setAppconf buffer appconf).appNrfConf.sendCrcAck = (buffer 124 != 0) := rfl

end Bldc.Conf
