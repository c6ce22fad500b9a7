import Bldc.Foundation.Program
import Bldc.Foundation.Log
import Bldc.Foundation.Machine
import Bldc.Foundation.Fragments
import Bldc.Foundation.Thread
import Bldc.Foundation.Ring
import Bldc.Foundation.Row
import Bldc.Foundation.Remainder
import Bldc.Foundation.Slots
import Bldc.Foundation.Scan
import Bldc.Foundation.Loop
import Bldc.Foundation.Turn
import Bldc.Foundation.Detection
import Bldc.Foundation.Table
import Bldc.Foundation.Fourier
import Bldc.Foundation.Switch
import Bldc.Foundation.Bus
import Bldc.Foundation.Tracking
import Bldc.Flash.Memory
import Bldc.Eeprom.Code
import Bldc.Eeprom.Pages
import Bldc.Eeprom.Spec
import Bldc.Eeprom.Transfer
import Bldc.Eeprom.Recovery
import Bldc.Conf.Layout
import Bldc.Eeprom.PowerLoss
import Bldc.Eeprom.Map
import Bldc.System.State
import Bldc.Conf.Store
import Bldc.Conf.Survival
import Bldc.Conf.Interruption
import Bldc.System.Upload
import Bldc.System.Balance
import Bldc.Link.Crc
import Bldc.Link.Checksum
import Bldc.Link.LineErrors
import Bldc.Link.Packet
import Bldc.Link.Grammar
import Bldc.Link.Buffer
import Bldc.Link.Can
import Bldc.Link.CanBounds
import Bldc.Link.CanStatus
import Bldc.Link.Radio
import Bldc.Link.RadioBounds
import Bldc.Link.Receive
import Bldc.Link.Wire
import Bldc.Conf.Record
import Bldc.Conf.Codec
import Bldc.Command.Process
import Bldc.Command.Locality
import Bldc.Command.Answer
import Bldc.Drive.State
import Bldc.Drive.Step
import Bldc.Drive.Frame
import Bldc.Drive.Guard
import Bldc.Drive.HoldOff
import Bldc.Drive.Fault
import Bldc.Drive.Lock
import Bldc.Drive.Timeout
import Bldc.Drive.Commutation
import Bldc.Drive.HallDetect
import Bldc.Drive.Duty
import Bldc.Drive.Measure
import Bldc.Drive.Restore
import Bldc.Drive.Inductance
import Bldc.Drive.Trace
import Bldc.Drive.Pulse
import Bldc.Command.Detection
import Bldc.Command.Reply
import Bldc.Command.FaultLog
import Bldc.System.Periodic
import Bldc.System.Sizes
import Bldc.App.Limit
import Bldc.App.SafeStart
import Bldc.App.Ppm
import Bldc.App.ServoDec
import Bldc.App.PpmTimeout
import Bldc.App.Servo
import Bldc.App.ServoPlan
import Bldc.App.ServoTables
import Bldc.App.ServoPulse
import Bldc.App.Adc
import Bldc.Foundation.Limiter
import Bldc.Foundation.Counter
import Bldc.Drive.Override
import Bldc.Drive.Tacho
import Bldc.Drive.Energy
import Bldc.Drive.Capture
import Bldc.Drive.Utils
import Bldc.Drive.Angle
import Bldc.Drive.Filter
import Bldc.Drive.Ramp
import Bldc.Foc.Rotation
import Bldc.Foc.Svm
import Bldc.Foc.Current
import Bldc.Foc.Tachometer
import Bldc.Foc.Hall
import Bldc.Foc.Control
import Bldc.Foc.Brake
import Bldc.Foc.Pll
import Bldc.Drive.SixStep
import Bldc.Drive.Bridge
import Bldc.Drive.Fft
import Bldc.Drive.Lowpass
import Bldc.App.Nunchuk
import Bldc.Link.CanNetwork
import Bldc.Led.Pwm
import Bldc.Led.Strip
import Bldc.Link.Spi
import Bldc.Link.Rf
import Bldc.Link.Nrf
import Bldc.Link.Rfhelp
import Bldc.Foc.Encoder
import Bldc.Foc.Observer
import Bldc.Foundation.Hysteresis
import Bldc.Foc.Handover
import Bldc.Foc.Position
import Bldc.Foc.OpenLoop
