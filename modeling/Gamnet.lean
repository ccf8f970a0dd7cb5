import Gamnet.Lib.LittleEndian
import Gamnet.Lib.Framing
import Gamnet.Lib.WhileLoop
import Gamnet.Library.Buffer
import Gamnet.Tcp.Packet
import Gamnet.Tcp.Dispatcher
import Gamnet.Tcp.LinkManager
import Gamnet.Tcp.Quiet
import Gamnet.Tcp.Steady
import Gamnet.Tcp.Rounds
import Gamnet.Tcp.Invariant
import Gamnet.Tcp.Sequence
import Gamnet.Tcp.Closing
import Gamnet.Tcp.DeadLink
import Gamnet.Tcp.Traffic
import Gamnet.Tcp.Segmentation
import Gamnet.Tcp.Overflow
import Gamnet.Tcp.Registration
import Gamnet.Tcp.Reconnect
import Gamnet.Lib.RemoveIf
import Gamnet.Router.RouterCaster
import Gamnet.Router.RouterHandler
import Gamnet.Router.Routes
import Gamnet.Router.Waiting
import Gamnet.Idlc.GenerateRuleCpp
import Gamnet.Idlc.RoundTrip
import Gamnet.Idlc.Bounds
import Gamnet.Idlc.GenerateRuleCSharp
import Gamnet.Idlc.Interop
import Gamnet.Idlc.Acceptance
import Gamnet.Tcp.PacketWrite
import Gamnet.Tcp.PacketRead
import Gamnet.Router.MsgRouter
import Gamnet.Router.LinkManager
import Gamnet.Router.Router
import Gamnet.Library.Pool
import Gamnet.Network.LinkManager
import Gamnet.Tcp.Manager
import Gamnet.Tcp.Ties
import Gamnet.Tcp.Joining
import Gamnet.Tcp.Attachment
import Gamnet.Tcp.Rejection
import Gamnet.Tcp.SessionPool
import Gamnet.Lib.Transition
import Gamnet.Network.Link
import Gamnet.Lib.ByteString
import Gamnet.Lib.PercentEncoding
import Gamnet.Http.Request
import Gamnet.Http.LinkManager
import Gamnet.Http.Segmentation
import Gamnet.Lib.Words
import Gamnet.Redis.Connection
import Gamnet.Redis.Parse
import Gamnet.Redis.Reply
import Gamnet.Redis.Decode
import Gamnet.Redis.Segmentation
import Gamnet.Router.Answer
import Gamnet.Tcp.IdleSweep
import Gamnet.Router.SessionPool
import Gamnet.Network.Ownership
import Gamnet.Tcp.SingleFrame
import Gamnet.Unity.Buffer
import Gamnet.Unity.Session
import Gamnet.Unity.Receive
import Gamnet.Unity.Send
import Gamnet.Unity.Agreement
import Gamnet.Library.RawBuffer
import Gamnet.Library.ByteQueue
import Gamnet.Lib.LeastWord
import Gamnet.Idlc.LoadInto
import Gamnet.Idlc.LeastSize
import Gamnet.Idlc.Residue
import Gamnet.Idlc.Hollow
import Gamnet.Idlc.Overloads
import Gamnet.Idlc.Elements
import Gamnet.Router.RouteTables
import Gamnet.Lib.Numeral
import Gamnet.Idlc.Literals
import Gamnet.Lib.Scope
import Gamnet.Idlc.Emission
import Gamnet.Idlc.Capture
import Gamnet.Idlc.WellFormed
import Gamnet.Lib.Declarations
import Gamnet.Idlc.GenerateRulePython
import Gamnet.Idlc.PythonRoundTrip
import Gamnet.Lib.RoundRobin
import Gamnet.Router.AnyCast
import Gamnet.Network.Registry
import Gamnet.Library.ObjectPool
import Gamnet.Database.ConnectionPool
import Gamnet.Lib.WeightedTable
import Gamnet.Library.Random
import Gamnet.Http.QueryString
import Gamnet.Http.RequestLine
import Gamnet.Redis.Complete
import Gamnet.Database.ResultSet
import Gamnet.Http.HttpClient
import Gamnet.Lib.DepthFirst
import Gamnet.Library.Singleton
import Gamnet.Library.MultiLock
import Gamnet.Library.Base64
import Gamnet.Unity.TimeoutMonitor
import Gamnet.Unity.ReceiveLoop
import Gamnet.Idlc.Downcasts
import Gamnet.Unity.Pump
import Gamnet.Unity.SendIndex
import Gamnet.Unity.Sockets
import Gamnet.Unity.SendPump
import Gamnet.Library.MD5
import Gamnet.Library.ThreadPool
import Gamnet.Idlc.ParseTree
import Gamnet.Tcp.JsonText
