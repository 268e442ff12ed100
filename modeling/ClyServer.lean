import ClyServer.Net.BufferQueue
import ClyServer.Net.BufferTransfer
import ClyServer.Net.BufferIntegers
import ClyServer.Http.SplitInvariance
import ClyServer.Http.KeepAlive
import ClyServer.Http.MethodAssertion
import ClyServer.Http.BadRequest
import ClyServer.Http.RoundTrip
import ClyServer.Http.HeaderBlock
import ClyServer.Http.ParserProgress
import ClyServer.Http.HttpResponse
import ClyServer.Net.PollSet
import ClyServer.Net.PollDispatch
import ClyServer.Net.ChannelReuse
import ClyServer.Net.EventLoop
import ClyServer.Net.FunctorQueue
import ClyServer.Net.LoopSleep
import ClyServer.Net.EventLoopThread
import ClyServer.Net.ThreadShutdown
import ClyServer.Net.EventLoopThreadPool
import ClyServer.Base.AsyncLogging
import ClyServer.Base.LogConservation
import ClyServer.Base.LogDrain
import ClyServer.Base.LogRecycling
import ClyServer.Base.LogStream
import ClyServer.Base.LogInsertion
import ClyServer.Base.LogRecord
import ClyServer.Base.LogFormat
import ClyServer.Base.LogAdmission
import ClyServer.Base.FileUtil
import ClyServer.Base.LogFile
import ClyServer.Base.LogRolling
import ClyServer.Base.LogNames
import ClyServer.Base.LogPipeline
import ClyServer.Base.Timestamp
import ClyServer.Net.TcpConnection
import ClyServer.Net.Sending
import ClyServer.Net.TcpServer
import ClyServer.Net.ServerSteps
import ClyServer.Net.Teardown
import ClyServer.Net.LoopOwnership
import ClyServer.Net.CallbackPairs
import ClyServer.Net.ConnectionTable
import ClyServer.Net.TeardownCompletes
import ClyServer.Net.SocketErrors
import ClyServer.Net.LiveConnection
import ClyServer.Net.ConnectionOrder
import ClyServer.Net.ReadingControl
import ClyServer.Net.Connector
import ClyServer.Net.ConnectorSteps
import ClyServer.Net.ConnectorSockets
import ClyServer.Net.ConnectorStarts
import ClyServer.Net.ConnectorRetries
import ClyServer.Net.TcpClient
import ClyServer.Net.ClientConnections
import ClyServer.Net.BufferMemory
import ClyServer.Net.Service
import ClyServer.Net.Conversation
import ClyServer.Net.EchoServer
import ClyServer.Http.HttpReplies
