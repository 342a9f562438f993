import SafetyTrolley.Braking
import SafetyTrolley.FirstPacket
import SafetyTrolley.WheelIsolation
import SafetyTrolley.Mirror
import SafetyTrolley.SpeedLimit
import SafetyTrolley.StalledWheel
import SafetyTrolley.EncoderOverflow
import SafetyTrolley.ForeignFrames
import SafetyTrolley.RemoteLink
import SafetyTrolley.LineErrors
import SafetyTrolley.CleanPacket
import SafetyTrolley.ReceiverWakeup
import SafetyTrolley.Interleaving
import SafetyTrolley.FlagService
import SafetyTrolley.ControlPeriod
import SafetyTrolley.EventDelivery
import SafetyTrolley.SerialQueue
import SafetyTrolley.CommandRange
import SafetyTrolley.SourceView
import SafetyTrolley.EchoGate
