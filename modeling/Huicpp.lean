import Huicpp.Cxx.Prog
import Huicpp.Cxx.Memory
import Huicpp.Cxx.OrdTree
import Huicpp.Cxx.BijectiveBase
import Huicpp.Cxx.Tape
import Huicpp.Cxx.BlockCipher
import Huicpp.Cxx.Base64
import Huicpp.Cxx.ThreadPool
import Huicpp.Cxx.TransitionSystem
import Huicpp.Cxx.BlockingQueue
import Huicpp.Cxx.OnceCell
import Huicpp.Cxx.Storage
import Huicpp.Cxx.Directory
import Huicpp.HRet
import Huicpp.Serialize.Stream
import Huicpp.Serialize.DataStream
import Huicpp.Serialize.VarIntFormat
import Huicpp.Serialize.VarInt
import Huicpp.Serialize.VarIntCorrect
import Huicpp.Serialize.Overloads
import Huicpp.Serialize.RoundTrip
import Huicpp.Serialize.Containers
import Huicpp.Serialize.Grammar
import Huicpp.Serialize.HostileRead
import Huicpp.Serialize.Commands
import Huicpp.Serialize.Refinement
import Huicpp.Serialize.Sizes
import Huicpp.Serialize.SizesAgree
import Huicpp.Crypto.Hex
import Huicpp.Crypto.UrlEncode
import Huicpp.Crypto.Cryptor
import Huicpp.Crypto.Transport
import Huicpp.Db.Server
import Huicpp.Db.Mysql
import Huicpp.Db.MultiExec
import Huicpp.Queue.SingleFastQueue
import Huicpp.Queue.Fifo
import Huicpp.Queue.Calls
import Huicpp.Queue.Lifetimes
import Huicpp.Cxx.Ring
import Huicpp.Cxx.DeltaList
import Huicpp.Scheduler.Timeval
import Huicpp.Scheduler.DelayQueue
import Huicpp.Scheduler.Rebalance
import Huicpp.Scheduler.Alarms
import Huicpp.Scheduler.TimerQueue
import Huicpp.Scheduler.Timers
import Huicpp.Scheduler.HandlerSet
import Huicpp.Scheduler.HandlerEdits
import Huicpp.Scheduler.Dispatch
import Huicpp.Scheduler.TriggerSet
import Huicpp.Scheduler.TriggerPasses
import Huicpp.Threads.MultiThreadJobMng
import Huicpp.Threads.FinishExact
import Huicpp.Threads.SyncBuffer
import Huicpp.Threads.SummerWorkerMng
import Huicpp.Threads.OrderlyShutdown
import Huicpp.LazySingleton.Get
import Huicpp.LazySingleton.Cells
import Huicpp.LazySingleton.CreatedOnce
import Huicpp.Process.ProcessPool
import Huicpp.Process.RecordedPid
import Huicpp.Log.RollStrategy
import Huicpp.Log.LogFile
import Huicpp.Log.NoLoss
import Huicpp.Threads.ScopeHolders
import Huicpp.Threads.InitHandshake
import Huicpp.Threads.HandshakePerChild
import Huicpp.Threads.JoinedOnce
import Huicpp.Threads.WriteOrder
import Huicpp.Utils.RollFixBuffer
import Huicpp.Utils.ItemRegions
import Huicpp.Utils.ExclusiveRefs
import Huicpp.Crypto.EscapeScan
import Huicpp.Crypto.UrlRoundTrip
import Huicpp.Net.NonBlocking
import Huicpp.Sql.Literals
import Huicpp.Db.MultiInsert
import Huicpp.Cxx.ForLoop
import Huicpp.Cxx.Block
import Huicpp.Cxx.Iterations
import Huicpp.Cxx.Ownership
import Huicpp.Image.HRgb
import Huicpp.Image.HBmp
import Huicpp.Image.ChannelOrder
import Huicpp.Image.ShownColors
import Huicpp.Image.UsableBitmap
import Huicpp.Serialize.StreamOfStreams
import Huicpp.Serialize.VectorPaths
import Huicpp.Serialize.VarIntCutOff
import Huicpp.Serialize.BogusLength
import Huicpp.Serialize.ElementLoop
import Huicpp.Scheduler.AlarmLoop
import Huicpp.Threads.JobQueue
import Huicpp.Db.DriveHandles
import Huicpp.Utils.Descriptors
import Huicpp.Cxx.Interference
import Huicpp.Cxx.SystemV
import Huicpp.Ipc.InitCalls
import Huicpp.Ipc.JoinedSafely
import Huicpp.Process.TouchPass
import Huicpp.Scheduler.Subtraction
import Huicpp.Scheduler.HandlerMap
import Huicpp.Queue.InPlace
import Huicpp.Queue.GuestSize
import Huicpp.Cxx.Heap
import Huicpp.Crypto.OutputBlock
import Huicpp.Crypto.Escapes
import Huicpp.Crypto.DecodeTotal
import Huicpp.Crypto.DecodeBuffer
import Huicpp.Cxx.Occurrence
import Huicpp.Cxx.Text
import Huicpp.Str.HStr
import Huicpp.Str.Split
import Huicpp.Str.V2Str
import Huicpp.Cxx.Rewrite
import Huicpp.Cxx.RewriteRuns
import Huicpp.Str.Replace
import Huicpp.Str.BeginEnd
import Huicpp.Cxx.Decimal
import Huicpp.Str.Format
import Huicpp.Db.CompleteSql
import Huicpp.Net.Ip4Str
import Huicpp.Cxx.ByteOrder
import Huicpp.Net.HIp4Addr
import Huicpp.Net.ParseNet
import Huicpp.Net.AddrTexts
import Huicpp.Str.Trim
import Huicpp.Str.HMstr
import Huicpp.Str.NormalConf
import Huicpp.Cxx.Json
import Huicpp.Str.ToJson
import Huicpp.Utils.Fsname
import Huicpp.Db.HDBRes
import Huicpp.Db.SameTable
import Huicpp.Db.Sqlite
import Huicpp.Buffers.HIOBuffer
import Huicpp.Cxx.Words
import Huicpp.Cxx.LoopRuns
import Huicpp.Buffers.HOutputPacketBuffer
import Huicpp.Buffers.HIOOutputBuffer
import Huicpp.Net.HSocket
import Huicpp.Net.ReadAll
import Huicpp.Image.MovedPicture
import Huicpp.Image.ExportedBitmap
import Huicpp.Image.PixelSamples
import Huicpp.Cxx.SmearBits
import Huicpp.Utils.Ceil2Pow2
import Huicpp.Cxx.Narrowing
import Huicpp.Time.Timespan
import Huicpp.Cxx.CString
import Huicpp.Time.SpanText
import Huicpp.Time.FromStr
import Huicpp.Time.Directives
import Huicpp.Time.ParsedTime
import Huicpp.Ipc.Attachments
import Huicpp.Utils.Mappings
import Huicpp.Process.PidCache
import Huicpp.Process.AppLock
import Huicpp.Cxx.Dirname
import Huicpp.Utils.ParentPath
import Huicpp.Scheduler.SelectRound
import Huicpp.Scheduler.EventLoop
import Huicpp.Scheduler.EventLoopTimely
import Huicpp.Scheduler.EventLoopSafe
import Huicpp.Serialize.Classes
import Huicpp.Serialize.AutoFile
import Huicpp.Cxx.UndoSemaphore
import Huicpp.Ipc.SemHolders
import Huicpp.Cxx.KeyedQueue
import Huicpp.Ipc.MessageQueue
import Huicpp.Db.DbConnConfig
import Huicpp.Image.SavedBitmap
import Huicpp.Crypto.FileDigest
import Huicpp.Utils.FileStr
import Huicpp.Process.AppStart
import Huicpp.Time.LocalTime
import Huicpp.Time.TimeGroups
import Huicpp.Log.LogLine
import Huicpp.Net.Connection
