import Bldc.Conf.Record

/-!
# Configurations there and back

The replies to `COMM_GET_MCCONF` and `COMM_GET_APPCONF`, byte by byte, and what
the corresponding `COMM_SET_` packet makes of them.
-/

namespace Bldc.Conf

open Flash Link WireField

/-- The reply to `COMM_GET_MCCONF`, behind the id. -/
def getMcconf (c : McConfiguration) : List Byte :=
  List.flatten [
    [c.pwmMode],
    [c.commMode],
    [c.motorType],
    [c.sensorMode],
    bufferAppendInt32 (truncate (c.lCurrentMax * 1000)),
    bufferAppendInt32 (truncate (c.lCurrentMin * 1000)),
    bufferAppendInt32 (truncate (c.lInCurrentMax * 1000)),
    bufferAppendInt32 (truncate (c.lInCurrentMin * 1000)),
    bufferAppendInt32 (truncate (c.lAbsCurrentMax * 1000)),
    bufferAppendInt32 (truncate (c.lMinErpm * 1000)),
    bufferAppendInt32 (truncate (c.lMaxErpm * 1000)),
    bufferAppendInt32 (truncate (c.lMaxErpmFbrake * 1000)),
    bufferAppendInt32 (truncate (c.lMaxErpmFbrakeCc * 1000)),
    bufferAppendInt32 (truncate (c.lMinVin * 1000)),
    bufferAppendInt32 (truncate (c.lMaxVin * 1000)),
    bufferAppendFloat32 c.lBatteryCutStart 1000,
    bufferAppendFloat32 c.lBatteryCutEnd 1000,
    [if c.lSlowAbsCurrent then 1 else 0],
    [if c.lRpmLimNegTorque then 1 else 0],
    bufferAppendInt32 (truncate (c.lTempFetStart * 1000)),
    bufferAppendInt32 (truncate (c.lTempFetEnd * 1000)),
    bufferAppendInt32 (truncate (c.lTempMotorStart * 1000)),
    bufferAppendInt32 (truncate (c.lTempMotorEnd * 1000)),
    bufferAppendInt32 (truncate (c.lMinDuty * 1000000)),
    bufferAppendInt32 (truncate (c.lMaxDuty * 1000000)),
    bufferAppendInt32 (truncate (c.slMinErpm * 1000)),
    bufferAppendInt32 (truncate (c.slMinErpmCycleIntLimit * 1000)),
    bufferAppendInt32 (truncate (c.slMaxFullbreakCurrentDirChange * 1000)),
    bufferAppendInt32 (truncate (c.slCycleIntLimit * 1000)),
    bufferAppendInt32 (truncate (c.slPhaseAdvanceAtBr * 1000)),
    bufferAppendInt32 (truncate (c.slCycleIntRpmBr * 1000)),
    bufferAppendInt32 (truncate (c.slBemfCouplingK * 1000)),
    List.ofFn c.hallTable,
    bufferAppendInt32 (truncate (c.hallSlErpm * 1000)),
    bufferAppendFloat32 c.focCurrentKp 100000,
    bufferAppendFloat32 c.focCurrentKi 100000,
    bufferAppendFloat32 c.focFSw 1000,
    bufferAppendFloat32 c.focDtUs 1000000,
    [if c.focEncoderInverted then 1 else 0],
    bufferAppendFloat32 c.focEncoderOffset 1000,
    bufferAppendFloat32 c.focEncoderRatio 1000,
    [c.focSensorMode],
    bufferAppendFloat32 c.focPllKp 1000,
    bufferAppendFloat32 c.focPllKi 1000,
    bufferAppendFloat32 c.focMotorL 100000000,
    bufferAppendFloat32 c.focMotorR 100000,
    bufferAppendFloat32 c.focMotorFluxLinkage 100000,
    bufferAppendFloat32 c.focObserverGain 1,
    bufferAppendFloat32 c.focDutyDowmrampKp 1000,
    bufferAppendFloat32 c.focDutyDowmrampKi 1000,
    bufferAppendFloat32 c.focOpenloopRpm 1000,
    bufferAppendFloat32 c.focSlOpenloopHyst 1000,
    bufferAppendFloat32 c.focSlOpenloopTime 1000,
    bufferAppendFloat32 c.focSlDCurrentDuty 1000,
    bufferAppendFloat32 c.focSlDCurrentFactor 1000,
    List.ofFn c.focHallTable,
    bufferAppendInt32 (truncate (c.focSlErpm * 1000)),
    bufferAppendInt32 (truncate (c.sPidKp * 1000000)),
    bufferAppendInt32 (truncate (c.sPidKi * 1000000)),
    bufferAppendInt32 (truncate (c.sPidKd * 1000000)),
    bufferAppendInt32 (truncate (c.sPidMinErpm * 1000)),
    bufferAppendInt32 (truncate (c.pPidKp * 1000000)),
    bufferAppendInt32 (truncate (c.pPidKi * 1000000)),
    bufferAppendInt32 (truncate (c.pPidKd * 1000000)),
    bufferAppendFloat32 c.pPidAngDiv 100000,
    bufferAppendInt32 (truncate (c.ccStartupBoostDuty * 1000000)),
    bufferAppendInt32 (truncate (c.ccMinCurrent * 1000)),
    bufferAppendInt32 (truncate (c.ccGain * 1000000)),
    bufferAppendInt32 (truncate (c.ccRampStepMax * 1000000)),
    bufferAppendInt32 c.mFaultStopTimeMs,
    bufferAppendFloat32 c.mDutyRampStep 1000000,
    bufferAppendFloat32 c.mDutyRampStepRpmLim 1000000,
    bufferAppendFloat32 c.mCurrentBackoffGain 1000000,
    bufferAppendUint32 c.mEncoderCounts,
    [c.mSensorPortMode]]

/-- The reply to `COMM_GET_APPCONF`, behind the id. -/
def getAppconf (c : AppConfiguration) : List Byte :=
  List.flatten [
    [c.controllerId],
    bufferAppendUint32 c.timeoutMsec,
    bufferAppendInt32 (truncate (c.timeoutBrakeCurrent * 1000)),
    [if c.sendCanStatus then 1 else 0],
    bufferAppendUint16 (c.sendCanStatusRateHz.setWidth 16),
    [c.appToUse],
    [c.appPpmConf.ctrlType],
    bufferAppendInt32 (truncate (c.appPpmConf.pidMaxErpm * 1000)),
    bufferAppendInt32 (truncate (c.appPpmConf.hyst * 1000)),
    bufferAppendInt32 (truncate (c.appPpmConf.pulseStart * 1000)),
    bufferAppendInt32 (truncate (c.appPpmConf.pulseEnd * 1000)),
    [if c.appPpmConf.medianFilter then 1 else 0],
    [if c.appPpmConf.safeStart then 1 else 0],
    bufferAppendInt32 (truncate (c.appPpmConf.rpmLimStart * 1000)),
    bufferAppendInt32 (truncate (c.appPpmConf.rpmLimEnd * 1000)),
    [if c.appPpmConf.multiEsc then 1 else 0],
    [if c.appPpmConf.tc then 1 else 0],
    bufferAppendInt32 (truncate (c.appPpmConf.tcMaxDiff * 1000)),
    [c.appAdcConf.ctrlType],
    bufferAppendInt32 (truncate (c.appAdcConf.hyst * 1000)),
    bufferAppendInt32 (truncate (c.appAdcConf.voltageStart * 1000)),
    bufferAppendInt32 (truncate (c.appAdcConf.voltageEnd * 1000)),
    [if c.appAdcConf.useFilter then 1 else 0],
    [if c.appAdcConf.safeStart then 1 else 0],
    [if c.appAdcConf.ccButtonInverted then 1 else 0],
    [if c.appAdcConf.revButtonInverted then 1 else 0],
    [if c.appAdcConf.voltageInverted then 1 else 0],
    bufferAppendInt32 (truncate (c.appAdcConf.rpmLimStart * 1000)),
    bufferAppendInt32 (truncate (c.appAdcConf.rpmLimEnd * 1000)),
    [if c.appAdcConf.multiEsc then 1 else 0],
    [if c.appAdcConf.tc then 1 else 0],
    bufferAppendInt32 (truncate (c.appAdcConf.tcMaxDiff * 1000)),
    bufferAppendUint16 (c.appAdcConf.updateRateHz.setWidth 16),
    bufferAppendUint32 c.appUartBaudrate,
    [c.appChukConf.ctrlType],
    bufferAppendFloat32 c.appChukConf.hyst 1000,
    bufferAppendFloat32 c.appChukConf.rpmLimStart 1000,
    bufferAppendFloat32 c.appChukConf.rpmLimEnd 1000,
    bufferAppendFloat32 c.appChukConf.rampTimePos 1000,
    bufferAppendFloat32 c.appChukConf.rampTimeNeg 1000,
    bufferAppendFloat32 c.appChukConf.stickErpmPerSInCc 1000,
    [if c.appChukConf.multiEsc then 1 else 0],
    [if c.appChukConf.tc then 1 else 0],
    bufferAppendInt32 (truncate (c.appChukConf.tcMaxDiff * 1000)),
    [c.appNrfConf.speed],
    [c.appNrfConf.power],
    [c.appNrfConf.crcType],
    [c.appNrfConf.retryDelay],
    [c.appNrfConf.retries],
    [c.appNrfConf.channel],
    List.ofFn c.appNrfConf.address,
    [if c.appNrfConf.sendCrcAck then 1 else 0]]

/-- The reply writes the fields in the order and with the scales with which they
are read. -/
theorem encode_mcconfFields (c : McConfiguration) : encode c mcconfFields = getMcconf c := rfl

theorem encode_appconfFields (c : AppConfiguration) : encode c appconfFields = getAppconf c := rfl

/-- A motor configuration after the transmission: every real number truncated to
its scale, the override limits equal to the limits, everything else as it was. -/
def mcconfOnWire (c : McConfiguration) : McConfiguration :=
  { c with
    lCurrentMax := toScale 1000 c.lCurrentMax
    lCurrentMin := toScale 1000 c.lCurrentMin
    lInCurrentMax := toScale 1000 c.lInCurrentMax
    lInCurrentMin := toScale 1000 c.lInCurrentMin
    lAbsCurrentMax := toScale 1000 c.lAbsCurrentMax
    lMinErpm := toScale 1000 c.lMinErpm
    lMaxErpm := toScale 1000 c.lMaxErpm
    lMaxErpmFbrake := toScale 1000 c.lMaxErpmFbrake
    lMaxErpmFbrakeCc := toScale 1000 c.lMaxErpmFbrakeCc
    lMinVin := toScale 1000 c.lMinVin
    lMaxVin := toScale 1000 c.lMaxVin
    lBatteryCutStart := toScale 1000 c.lBatteryCutStart
    lBatteryCutEnd := toScale 1000 c.lBatteryCutEnd
    lTempFetStart := toScale 1000 c.lTempFetStart
    lTempFetEnd := toScale 1000 c.lTempFetEnd
    lTempMotorStart := toScale 1000 c.lTempMotorStart
    lTempMotorEnd := toScale 1000 c.lTempMotorEnd
    lMinDuty := toScale 1000000 c.lMinDuty
    lMaxDuty := toScale 1000000 c.lMaxDuty
    slMinErpm := toScale 1000 c.slMinErpm
    slMinErpmCycleIntLimit := toScale 1000 c.slMinErpmCycleIntLimit
    slMaxFullbreakCurrentDirChange := toScale 1000 c.slMaxFullbreakCurrentDirChange
    slCycleIntLimit := toScale 1000 c.slCycleIntLimit
    slPhaseAdvanceAtBr := toScale 1000 c.slPhaseAdvanceAtBr
    slCycleIntRpmBr := toScale 1000 c.slCycleIntRpmBr
    slBemfCouplingK := toScale 1000 c.slBemfCouplingK
    hallSlErpm := toScale 1000 c.hallSlErpm
    focCurrentKp := toScale 100000 c.focCurrentKp
    focCurrentKi := toScale 100000 c.focCurrentKi
    focFSw := toScale 1000 c.focFSw
    focDtUs := toScale 1000000 c.focDtUs
    focEncoderOffset := toScale 1000 c.focEncoderOffset
    focEncoderRatio := toScale 1000 c.focEncoderRatio
    focPllKp := toScale 1000 c.focPllKp
    focPllKi := toScale 1000 c.focPllKi
    focMotorL := toScale 100000000 c.focMotorL
    focMotorR := toScale 100000 c.focMotorR
    focMotorFluxLinkage := toScale 100000 c.focMotorFluxLinkage
    focObserverGain := toScale 1 c.focObserverGain
    focDutyDowmrampKp := toScale 1000 c.focDutyDowmrampKp
    focDutyDowmrampKi := toScale 1000 c.focDutyDowmrampKi
    focOpenloopRpm := toScale 1000 c.focOpenloopRpm
    focSlOpenloopHyst := toScale 1000 c.focSlOpenloopHyst
    focSlOpenloopTime := toScale 1000 c.focSlOpenloopTime
    focSlDCurrentDuty := toScale 1000 c.focSlDCurrentDuty
    focSlDCurrentFactor := toScale 1000 c.focSlDCurrentFactor
    focSlErpm := toScale 1000 c.focSlErpm
    sPidKp := toScale 1000000 c.sPidKp
    sPidKi := toScale 1000000 c.sPidKi
    sPidKd := toScale 1000000 c.sPidKd
    sPidMinErpm := toScale 1000 c.sPidMinErpm
    pPidKp := toScale 1000000 c.pPidKp
    pPidKi := toScale 1000000 c.pPidKi
    pPidKd := toScale 1000000 c.pPidKd
    pPidAngDiv := toScale 100000 c.pPidAngDiv
    ccStartupBoostDuty := toScale 1000000 c.ccStartupBoostDuty
    ccMinCurrent := toScale 1000 c.ccMinCurrent
    ccGain := toScale 1000000 c.ccGain
    ccRampStepMax := toScale 1000000 c.ccRampStepMax
    mDutyRampStep := toScale 1000000 c.mDutyRampStep
    mDutyRampStepRpmLim := toScale 1000000 c.mDutyRampStepRpmLim
    mCurrentBackoffGain := toScale 1000000 c.mCurrentBackoffGain
    loCurrentMax := toScale 1000 c.lCurrentMax
    loCurrentMin := toScale 1000 c.lCurrentMin
    loInCurrentMax := toScale 1000 c.lInCurrentMax
    loInCurrentMin := toScale 1000 c.lInCurrentMin }

/-- An app configuration after the transmission: every real number truncated to
its scale, everything else as it was. -/
def appconfOnWire (c : AppConfiguration) : AppConfiguration :=
  { c with
    timeoutBrakeCurrent := toScale 1000 c.timeoutBrakeCurrent
    appPpmConf :=
      { c.appPpmConf with
        pidMaxErpm := toScale 1000 c.appPpmConf.pidMaxErpm
        hyst := toScale 1000 c.appPpmConf.hyst
        pulseStart := toScale 1000 c.appPpmConf.pulseStart
        pulseEnd := toScale 1000 c.appPpmConf.pulseEnd
        rpmLimStart := toScale 1000 c.appPpmConf.rpmLimStart
        rpmLimEnd := toScale 1000 c.appPpmConf.rpmLimEnd
        tcMaxDiff := toScale 1000 c.appPpmConf.tcMaxDiff }
    appAdcConf :=
      { c.appAdcConf with
        hyst := toScale 1000 c.appAdcConf.hyst
        voltageStart := toScale 1000 c.appAdcConf.voltageStart
        voltageEnd := toScale 1000 c.appAdcConf.voltageEnd
        rpmLimStart := toScale 1000 c.appAdcConf.rpmLimStart
        rpmLimEnd := toScale 1000 c.appAdcConf.rpmLimEnd
        tcMaxDiff := toScale 1000 c.appAdcConf.tcMaxDiff }
    appChukConf :=
      { c.appChukConf with
        hyst := toScale 1000 c.appChukConf.hyst
        rpmLimStart := toScale 1000 c.appChukConf.rpmLimStart
        rpmLimEnd := toScale 1000 c.appChukConf.rpmLimEnd
        rampTimePos := toScale 1000 c.appChukConf.rampTimePos
        rampTimeNeg := toScale 1000 c.appChukConf.rampTimeNeg
        stickErpmPerSInCc := toScale 1000 c.appChukConf.stickErpmPerSInCc
        tcMaxDiff := toScale 1000 c.appChukConf.tcMaxDiff } }

/-- `conf_general_get_default_app_configuration`. -/
def appconfDefault : AppConfiguration where
  controllerId := 0
  timeoutMsec := 1000
  timeoutBrakeCurrent := 0
  sendCanStatus := false
  sendCanStatusRateHz := 500
  appToUse := 3
  appUartBaudrate := 115200
  appPpmConf :=
    { ctrlType := 0
      pidMaxErpm := 15000
      hyst := 15 / 100
      pulseStart := 1
      pulseEnd := 2
      medianFilter := true
      safeStart := true
      rpmLimStart := 150000
      rpmLimEnd := 200000
      multiEsc := false
      tc := false
      tcMaxDiff := 3000 }
  appAdcConf :=
    { ctrlType := 0
      hyst := 15 / 100
      voltageStart := 9 / 10
      voltageEnd := 3
      useFilter := true
      safeStart := true
      ccButtonInverted := false
      revButtonInverted := false
      voltageInverted := false
      rpmLimStart := 150000
      rpmLimEnd := 200000
      multiEsc := false
      tc := false
      tcMaxDiff := 3000
      updateRateHz := 500 }
  appChukConf :=
    { ctrlType := 1
      hyst := 15 / 100
      rpmLimStart := 150000
      rpmLimEnd := 200000
      rampTimePos := 9 / 10
      rampTimeNeg := 3 / 10
      stickErpmPerSInCc := 3000
      multiEsc := false
      tc := false
      tcMaxDiff := 3000 }
  appNrfConf :=
    { speed := 2
      power := 3
      crcType := 1
      retryDelay := 0
      retries := 3
      channel := 76
      sendCrcAck := true
      address := ![198, 199, 0] }

/-- Every number of the configuration fits its place in the packet. -/
def McconfFits (c : McConfiguration) : Prop := ∀ field ∈ mcconfFields, field.Fits c

def AppconfFits (c : AppConfiguration) : Prop := ∀ field ∈ appconfFields, field.Fits c

section Mcconf

variable {c : McConfiguration} {buffer : Buffer}

/-- All fields but the override limits arrive. -/
theorem setMcconf_eq_onWire (hc : McconfFits c) (hbuffer : Holds buffer 0 (getMcconf c))
    (active : McConfiguration) : setMcconf buffer active = mcconfOnWire c := by
  rw [setMcconf, decode_eq_transfer mcconfFields hc 0 active hbuffer]
  cases active
  simp only [mcconfFields, List.foldl_cons, List.foldl_nil, transfer, mcconfOnWire]

theorem getMcconf_onWire (c : McConfiguration) : getMcconf (mcconfOnWire c) = getMcconf c := by
  cases c
  simp (disch := decide) only [getMcconf, mcconfOnWire, bufferAppendFloat32,
    truncate_toScale_mul]
  rfl

/-- A motor configuration that is read and sent back arrives with its real
numbers truncated to their scales, whatever configuration is active; the packet
is used up, and reading it again gives the same bytes. -/
theorem mcconf_roundtrip (hc : McconfFits c) (hbuffer : Holds buffer 0 (getMcconf c))
    (active : McConfiguration) :
    setMcconf buffer active = mcconfOnWire c ∧
      decodeEnd 0 mcconfFields = (getMcconf c).length ∧
      getMcconf (setMcconf buffer active) = getMcconf c := by
  have hset := setMcconf_eq_onWire hc hbuffer active
  refine ⟨hset, ?_, ?_⟩
  · rw [decodeEnd_eq 0 c, encode_mcconfFields, Nat.zero_add]
  · rw [hset, getMcconf_onWire]

/-- A configuration with a limit that is not a multiple of its scale. -/
def mcconfExample : McConfiguration :=
  { (default : McConfiguration) with
    motorType := 2
    lCurrentMax := 600123456 / 10000000
    lCurrentMin := -600123456 / 10000000
    focMotorL := 7 / 1000000
    mFaultStopTimeMs := 3000 }

theorem mcconf_roundtrip_example :
    McconfFits mcconfExample ∧
      setMcconf (ofBytes (getMcconf mcconfExample)) default = mcconfOnWire mcconfExample := by
  have hfits : McconfFits mcconfExample := by
    simp only [McconfFits, mcconfFields, List.forall_mem_cons, List.not_mem_nil, false_implies,
      implies_true, and_true, true_and, WireField.Fits]
    decide +kernel
  exact ⟨hfits, (mcconf_roundtrip hfits (holds_ofBytes _) default).1⟩

end Mcconf

section Appconf

variable {c : AppConfiguration} {buffer : Buffer}

theorem setAppconf_eq_onWire (hc : AppconfFits c) (hbuffer : Holds buffer 0 (getAppconf c))
    (active : AppConfiguration) : setAppconf buffer active = appconfOnWire c := by
  rw [setAppconf, decode_eq_transfer appconfFields hc 0 active hbuffer]
  cases active
  simp only [appconfFields, List.foldl_cons, List.foldl_nil, transfer, appconfOnWire]

theorem getAppconf_onWire (c : AppConfiguration) : getAppconf (appconfOnWire c) = getAppconf c := by
  cases c
  simp (disch := decide) only [getAppconf, appconfOnWire, bufferAppendFloat32,
    truncate_toScale_mul]
  rfl

/-- The compiled default, or what an earlier `COMM_SET_APPCONF` has built. -/
def AppconfInUse (c : AppConfiguration) : Prop :=
  c = appconfDefault ∨ ∃ buffer active, c = setAppconf buffer active

theorem appconfDefault_fits : AppconfFits appconfDefault := by
  simp only [AppconfFits, appconfFields, List.forall_mem_cons, List.not_mem_nil, false_implies,
    implies_true, and_true, true_and, WireField.Fits]
  decide +kernel

theorem inInt32_getFloat32 (buffer : Buffer) {scale : Rat} (hscale : scale ≠ 0) (index : Nat) :
    InInt32 (truncate (bufferGetFloat32 buffer scale index * scale)) := by
  rw [bufferGetFloat32, Rat.div_mul_cancel hscale, truncate_intCast]
  exact inInt32_toInt _

theorem toNat_setWidth_half (half : Half) : (half.setWidth 32).toNat < 65536 := by
  have hlt := half.isLt
  simp only [BitVec.toNat_setWidth]
  omega

/-- Whatever was in the packet, its numbers fit. -/
theorem setAppconf_fits (buffer : Buffer) (active : AppConfiguration) :
    AppconfFits (setAppconf buffer active) := by
  cases active
  simp only [AppconfFits, setAppconf, appconfFields, decode, WireField.read, size,
    List.forall_mem_cons, List.not_mem_nil, false_implies, implies_true, and_true, true_and,
    WireField.Fits]
  simp (disch := decide) only [inInt32_getFloat32, toNat_setWidth_half, and_self]

theorem AppconfInUse.fits (hc : AppconfInUse c) : AppconfFits c := by
  obtain rfl | ⟨buffer, active, rfl⟩ := hc
  · exact appconfDefault_fits
  · exact setAppconf_fits buffer active

/-- The same for an app configuration in use. -/
theorem appconf_roundtrip (hc : AppconfInUse c) (hbuffer : Holds buffer 0 (getAppconf c))
    (active : AppConfiguration) :
    setAppconf buffer active = appconfOnWire c ∧
      decodeEnd 0 appconfFields = (getAppconf c).length ∧
      getAppconf (setAppconf buffer active) = getAppconf c := by
  have hset := setAppconf_eq_onWire hc.fits hbuffer active
  refine ⟨hset, ?_, ?_⟩
  · rw [decodeEnd_eq 0 c, encode_appconfFields, Nat.zero_add]
  · rw [hset, getAppconf_onWire]

theorem appconf_roundtrip_default :
    AppconfInUse appconfDefault ∧
      setAppconf (ofBytes (getAppconf appconfDefault)) default = appconfOnWire appconfDefault :=
  ⟨.inl rfl, (appconf_roundtrip (.inl rfl) (holds_ofBytes _) default).1⟩

end Appconf

end Bldc.Conf
