import CommCore.Comm.QueueWakeups
import CommCore.Comm.HeaderRoundTrip
import CommCore.Core.Settings
import CommCore.Comm.SessionManager
import CommCore.Comm.AsyncTcpServer
import CommCore.Core.Errors
import CommCore.Core.Options
import CommCore.App.Main
import CommCore.Comm.HeaderWire
import CommCore.Comm.HeaderDecoder
import CommCore.Comm.HeaderOps
import CommCore.Comm.MessageFactory
import CommCore.Core.SettingsGrammar
import CommCore.Comm.SessionId
import CommCore.Core.Loading
import CommCore.Comm.QueueTimeouts
import CommCore.App.InputPath
import CommCore.Comm.HeaderSafety
import CommCore.Lib.Monitor
import CommCore.Comm.QueueStatements
import CommCore.Comm.QueueProgress
import CommCore.Comm.ProducerConsumer
import CommCore.Core.SettingsWriters
import CommCore.Comm.AcceptLoop
import CommCore.Comm.HeaderMeaning
import CommCore.Comm.Registrations
import CommCore.Comm.QueueStarvation
import CommCore.Comm.QueueHistories
import CommCore.Comm.QueueVariants
