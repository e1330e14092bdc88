import TgServer.Transition
import TgServer.SlotTable
import TgServer.Framing
import TgServer.Context
import TgServer.ClientTable
import TgServer.ServiceWalks
import TgServer.RequestStream
import TgServer.ControlPipe
import TgServer.EventThreads
import TgServer.ReplyStream
import TgServer.AcceptRefusal
import TgServer.AcceptAtomic
import TgServer.AdminPipe
import TgServer.PipeEvents
import TgServer.ClientLife
import TgServer.ClientCount
import TgServer.ServiceStart
import TgServer.ConfigAgree
import TgServer.DescriptorTable
import TgServer.DescriptorLeak
import TgServer.DescriptorIsolation
import TgServer.DescriptorClosing
import TgServer.EventFifo
import TgServer.FrameReads
import TgServer.QuitOnce
import TgServer.ReplyWrites
import TgServer.SendSignals
import TgServer.AdminRequests
import TgServer.RequestAddress
import TgServer.ParameterArrays
import TgServer.ServiceCopy
import TgServer.CurrentCounts
import TgServer.ClientsInfo
import TgServer.OptionOrder
import TgServer.SeparatorReads
import TgServer.LibraryName
import TgServer.ClientRecord
import TgServer.ControlDecoders
import TgServer.ServerNumbers
import TgServer.AcceptFailures
import TgServer.SharedParameters
import TgServer.InitRejection
import TgServer.ThreadProgress
import TgServer.Session
import TgServer.OrderSafety
import TgServer.Dialogue
import TgServer.MainProcess
import TgServer.SessionProgress
import TgServer.ClientEnd
import TgServer.RegistryCycle
import TgServer.OperatorLoop
import TgServer.StartUp
import TgServer.Log
import TgServer.StartedClients
import TgServer.DemoPlugin
import TgServer.DemoChildren
