import Kubecc.Lib.Recut
import Kubecc.Go.Strings
import Kubecc.Types.Toolchain
import Kubecc.Storage.Chain
import Kubecc.Lib.Process
import Kubecc.Run.WorkerPool
import Kubecc.Clients.CompileRequestClient
import Kubecc.Cc.Args
import Kubecc.Lib.Words
import Kubecc.Cc.Parse
import Kubecc.Cc.Remote
import Kubecc.Cc.Pipeline
import Kubecc.Cc.Agreement
import Kubecc.Scheduler.Broker
import Kubecc.Scheduler.Channels
import Kubecc.Scheduler.Custody
import Kubecc.Scheduler.Carriers
import Kubecc.Scheduler.Tokens
import Kubecc.Scheduler.Settling
import Kubecc.Scheduler.Stranded
import Kubecc.Lib.BinaryHeap
import Kubecc.Storage.ExpirationHeap
import Kubecc.Toolchains.Store
import Kubecc.Storage.ExpirationNotifier
import Kubecc.Storage.Local
import Kubecc.Scheduler.CacheIntegrity
import Kubecc.Scheduler.Registry
import Kubecc.Lib.RWMutex
import Kubecc.Monitor.Server
import Kubecc.Monitor.Listeners
import Kubecc.Run.Control
import Kubecc.Clients.Availability
import Kubecc.Scheduler.Server
import Kubecc.Clients.PostContext
import Kubecc.Scheduler.Attachments
import Kubecc.Scheduler.Routes
import Kubecc.Scheduler.Withdrawal
import Kubecc.Scheduler.Updates
import Kubecc.Cc.Representation
import Kubecc.Cc.Expansion
import Kubecc.Cc.Output
import Kubecc.Scheduler.Orphans
import Kubecc.Scheduler.SenderUpdate
import Kubecc.Storage.Lifetime
import Kubecc.Scheduler.Accounting
import Kubecc.Lib.Cond
import Kubecc.Metrics.Status
import Kubecc.Monitor.Directory
import Kubecc.Cc.PositionIndependence
import Kubecc.Toolchains.Calls
import Kubecc.Lib.Liveness
import Kubecc.Consumerd.ApplyToolchain
import Kubecc.Storage.Volatile
import Kubecc.Go.FileSystem
import Kubecc.Storage.Files
import Kubecc.Storage.Containment
import Kubecc.Storage.HitCounters
import Kubecc.Go.Strconv
import Kubecc.Storage.S3
import Kubecc.Storage.Query
import Kubecc.Storage.Eviction
import Kubecc.Go.Slices
import Kubecc.Zapkc.Encoder
import Kubecc.Lib.History
import Kubecc.Metrics.Health
import Kubecc.Clients.MetricsProvider
import Kubecc.Clients.Providers
import Kubecc.Clients.Reconnect
import Kubecc.Clients.StreamManager
import Kubecc.Monitor.Changes
import Kubecc.Consumerd.SplitQueue
import Kubecc.Consumerd.Requests
