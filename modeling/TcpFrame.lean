import TcpFrame.Lib.Run
import TcpFrame.Lib.HeapOrder
import TcpFrame.Comm
import TcpFrame.TimeVal
import TcpFrame.MinHeap
import TcpFrame.MinHeapSpec
import TcpFrame.MinHeapRuns
import TcpFrame.BinProto
import TcpFrame.BinProtoSpec
import TcpFrame.Lib.WriteLog
import TcpFrame.EventTable
import TcpFrame.EventTableRuns
import TcpFrame.Conn
import TcpFrame.ConnRecv
import TcpFrame.ConnRecvRuns
import TcpFrame.ConnRecvReads
import TcpFrame.ConnSend
import TcpFrame.ConnSendRuns
import TcpFrame.Worker
import TcpFrame.WorkerTimers
import TcpFrame.WorkerTimersRuns
import TcpFrame.WorkerDispatch
import TcpFrame.Lib.Slots
import TcpFrame.MinHeapArray
import TcpFrame.MinHeapQueue
import TcpFrame.WorkerRearm
import TcpFrame.WorkerExpiry
import TcpFrame.WorkerWait
import TcpFrame.ConnSendBuffer
import TcpFrame.WorkerDrain
import TcpFrame.ConnReply
import TcpFrame.BenchClient
import TcpFrame.BenchClientRuns
import TcpFrame.BinProtoSetters
import TcpFrame.BinProtoBody
import TcpFrame.EventTableFailures
import TcpFrame.WorkerBounds
import TcpFrame.BenchClientInit
import TcpFrame.BenchClientSend
import TcpFrame.BenchClientTimeout
import TcpFrame.ConnSendGrow
import TcpFrame.Lib.FileSystem
import TcpFrame.ServerLog
import TcpFrame.ServerLogRoll
import TcpFrame.ServerLogSize
import TcpFrame.BenchClientReport
import TcpFrame.WorkerBooks
import TcpFrame.MinHeapSmall
import TcpFrame.WorkerLoop
import TcpFrame.WorkerSix
import TcpFrame.Lib.Rank
import TcpFrame.Master
import TcpFrame.MasterRuns
import TcpFrame.ConnReplyRuns
import TcpFrame.Lib.ProcessFiles
import TcpFrame.ServerLogGroup
import TcpFrame.Service
import TcpFrame.ServiceRuns
import TcpFrame.ServiceIdle
import TcpFrame.WorkerInside
