import ServerKit.Base.Verify.ListFifo
import ServerKit.Base.ObjectPool
import ServerKit.Base.Verify.PoolPartition
import ServerKit.Base.Verify.ThreadLists
import ServerKit.Rpc.Verify.Segments
import ServerKit.Rpc.Verify.SocketBuffers
import ServerKit.Lib.Pipe
import ServerKit.Base.YPipe
import ServerKit.Base.Verify.QueueRep
import ServerKit.Base.Verify.PipeFifo
import ServerKit.Core.Verify.MailboxWake
import ServerKit.Core.Verify.CancelTimer
import ServerKit.Core.Verify.QueuedOutput
import ServerKit.Base.Verify.SpinLockExclusion
import ServerKit.Base.Verify.LogThreadOrder
import ServerKit.Base.Hash
import ServerKit.Rpc.Protobuf
import ServerKit.Rpc.RpcService
import ServerKit.Rpc.RpcChannel
import ServerKit.Rpc.RpcSession
import ServerKit.Rpc.Verify.Dispatch
import ServerKit.Rpc.Verify.ClientCalls
import ServerKit.Rpc.Verify.InFlight
import ServerKit.Rpc.RpcSystem
import ServerKit.Rpc.Verify.Requests
import ServerKit.Rpc.Verify.Matching
import ServerKit.Core.Verify.Entries
import ServerKit.Core.PollRounds
import ServerKit.Core.Verify.Dispatches
import ServerKit.Core.Verify.Registered
import ServerKit.Core.Lifetime
import ServerKit.Core.Verify.Frames
import ServerKit.Core.Verify.Batches
import ServerKit.Core.Verify.Descriptors
import ServerKit.Core.Verify.Retirement
import ServerKit.Core.Connections
import ServerKit.Core.Verify.Statuses
import ServerKit.Core.Verify.Connects
import ServerKit.Core.Verify.Edges
import ServerKit.Base.Verify.NetErrors
import ServerKit.Core.Verify.Accepts
import ServerKit.Base.Verify.SendRanges
import ServerKit.Core.Verify.Reads
import ServerKit.Core.Verify.FiredTimers
import ServerKit.Core.Verify.PollTimeout
import ServerKit.Core.Verify.PassEnds
import ServerKit.Core.Verify.EventRuns
import ServerKit.Core.Verify.CancelInPass
import ServerKit.Core.EpollEvents
import ServerKit.Core.Verify.ReportedEvents
import ServerKit.Util.Verify.IdBatches
import ServerKit.Util.Verify.Formatting
import ServerKit.Util.Verify.HexDump
import ServerKit.Util.Verify.LocalDates
import ServerKit.Base.Verify.LogRecords
import ServerKit.Core.Verify.WriteNotices
import ServerKit.Base.Verify.QueueDeque
import ServerKit.Rpc.Verify.FailedConnects
import ServerKit.Rpc.ResponseReads
import ServerKit.Rpc.Verify.ResponsePaths
import ServerKit.Base.LogSystem
import ServerKit.Base.Verify.LogSystemInv
import ServerKit.Base.Verify.FatalMessages
import ServerKit.Lib.Mixing
import ServerKit.Base.Verify.HashBlocks
import ServerKit.Util.Lookup8
import ServerKit.Util.Verify.Lookup8Paths
import ServerKit.Base.Thread
import ServerKit.Base.Verify.StartHandshake
import ServerKit.Base.Endpoint
import ServerKit.Core.Services
import ServerKit.Core.Streams
import ServerKit.Core.Verify.Traffic
import ServerKit.Core.Verify.Streams
import ServerKit.Lib.RoundRobin
import ServerKit.Core.Workers
import ServerKit.Core.Verify.WorkerTurns
import ServerKit.Lib.Decimal
import ServerKit.Lib.SlotRing
import ServerKit.Core.TimerThread
import ServerKit.Core.Verify.LogTimes
import ServerKit.Core.Verify.CachedTimes
import ServerKit.Base.Verify.Endpoints
import ServerKit.Core.Verify.Registration
import ServerKit.Rpc.TwoWay
import ServerKit.Rpc.Verify.TwoWayCalls
import ServerKit.Rpc.PacketPeers
import ServerKit.Rpc.Verify.PacketStreams
