import Youth.Core.DateTime.AddMonths
import Youth.Core.DateTime.Local
import Youth.Core.File.ReadAll
import Youth.Core.StringFunction.Replace
import Youth.Http.HttpContext.ContentLength
import Youth.Http.HttpContext.HeaderMap
import Youth.Http.HttpMethod.Contained
import Youth.Http.HttpMethod.Delivered
import Youth.Http.HttpMethod.Registry
import Youth.Http.HttpMethod.Upload
import Youth.Http.HttpResponse.Framing
import Youth.Http.HttpServer.Dispatch
import Youth.Http.HttpServer.NoHandlers
import Youth.Http.HttpServer.Rejected
import Youth.Net.Acceptor.Reserve
import Youth.Net.Buffer.Refinement
import Youth.Net.Buffer.Integers
import Youth.Net.Connector.OneAttempt
import Youth.Net.Epoll.Bookkeeping
import Youth.Net.EventLoop.Queue
import Youth.Net.EventLoopThread
import Youth.Net.HostAddress.Union
import Youth.Net.TcpClient.Persistent
import Youth.Net.TcpConnection.FailedWrite
import Youth.Net.TcpConnection.Link
import Youth.Net.TcpConnection.Reading
import Youth.Net.TcpConnection.Unwatched
import Youth.Net.TcpServer.Balance
import Youth.Net.TimerQueue.Armed
import Youth.Net.TimerQueue.Scheduled
import Youth.Rpc.ProtobufCodecLite.FailStop
import Youth.Rpc.ProtobufCodecLite.Image
import Youth.Rpc.RpcChannel.Wire
import Youth.Rpc.ProtobufCodecLite.Exchange
import Youth.Utils.LogAsync.Flush
import Youth.Utils.LogAsync.Recycling
import Youth.Utils.LogFile
import Youth.Utils.LogAsync.Files
import Youth.Utils.LogStream.Line
import Youth.Utils.ThreadPool.Drained
import Youth.Utils.ThreadPool.Stop
import Youth.Utils.ThreadPool.WaitForAllDone
