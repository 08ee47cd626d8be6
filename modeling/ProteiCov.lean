import ProteiCov.Lib.Transition
import ProteiCov.Lib.Runs
import ProteiCov.Heap
import ProteiCov.Task
import ProteiCov.Queue
import ProteiCov.ThreadPool
import ProteiCov.DoTask
import ProteiCov.ExecuteTask
import ProteiCov.Config
import ProteiCov.Manager
import ProteiCov.Reconfiguration
import ProteiCov.Frames
import ProteiCov.EffectiveConfig
import ProteiCov.UpdateReply
import ProteiCov.FileEdits
import ProteiCov.PoolThreads
import ProteiCov.PoolLocks
import ProteiCov.WakeUps
import ProteiCov.WorkerExits
import ProteiCov.PoolSwap
import ProteiCov.Ledger
import ProteiCov.Admission
import ProteiCov.CallFlow
import ProteiCov.CallIDs
import ProteiCov.Builder
import ProteiCov.Agreement
import ProteiCov.FailedReload
import ProteiCov.MonitorLoop
import ProteiCov.PlainConfig
import ProteiCov.Normalization
import ProteiCov.LoggedConfiguration
import ProteiCov.ConfigTwins
import ProteiCov.NullLogger
import ProteiCov.FailedAdd
import ProteiCov.StopWindow
import ProteiCov.PoolChain
import ProteiCov.PoolProgress
import ProteiCov.InstallPool
import ProteiCov.QueueRuns
import ProteiCov.CdrLines
import ProteiCov.HttpServer
import ProteiCov.CallSteps
import ProteiCov.Custody
import ProteiCov.CallStories
import ProteiCov.Recorder
import ProteiCov.Answers
import ProteiCov.CdrFile
import ProteiCov.CallFates
import ProteiCov.CallProgress
import ProteiCov.Handlers
import ProteiCov.Connections
import ProteiCov.ClientProgress
import ProteiCov.Lib.Pieces
import ProteiCov.Reload
import ProteiCov.Convergence
import ProteiCov.FileInForce
import ProteiCov.Lib.LockOrder
import ProteiCov.ServerLocks
