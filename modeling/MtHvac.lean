import MtHvac.Base.Machine
import MtHvac.Base.Progress
import MtHvac.Base.Program
import MtHvac.Base.Table
import MtHvac.Base.Ownership
import MtHvac.Base.Word
import MtHvac.Base.Scan
import MtHvac.Base.Pthread
import MtHvac.Base.SharedPtr
import MtHvac.Base.Extent
import MtHvac.Base.Segments
import MtHvac.Timer
import MtHvac.Kernel.File
import MtHvac.Rpc.Messages
import MtHvac.Rpc.ProgressThread
import MtHvac.Client.Program
import MtHvac.Client.Machine
import MtHvac.Client.Execution
import MtHvac.Client.Wrappers
import MtHvac.Client.Consistency
import MtHvac.Client.Incarnation
import MtHvac.Client.Debts
import MtHvac.Client.Tracking
import MtHvac.Client.Startup
import MtHvac.Client.Rpc
import MtHvac.Client.Routing
import MtHvac.Client.FdStateLocks
import MtHvac.Client.FdReady
import MtHvac.Client.FdReadySafety
import MtHvac.Client.FdReadyOrphans
import MtHvac.Client.FdReadyTable
import MtHvac.Client.SyncContext
import MtHvac.Client.Handshake
import MtHvac.Client.Termination
import MtHvac.Client.Callbacks
import MtHvac.Server.ReadHandler
import MtHvac.Server.PlainServer
import MtHvac.Server.Machine
import MtHvac.Server.Handlers
import MtHvac.Server.Resources
import MtHvac.Server.DataMover
import MtHvac.Server.Pipeline
import MtHvac.Server.FdToPath
import MtHvac.Server.CachedOnce
import MtHvac.Server.Redirection
import MtHvac.Server.OpenFiles
import MtHvac.Server.Handling
import MtHvac.Server.Requests
import MtHvac.System.Machine
import MtHvac.System.RemoteDescriptors
import MtHvac.System.Names
import MtHvac.System.Contents
import MtHvac.System.Waiting
import MtHvac.System.Descriptor
import MtHvac.System.ReadFallback
import MtHvac.System.FilePosition
import MtHvac.System.PositionalReads
import MtHvac.System.ReadLength
import MtHvac.System.RemoteSeek
import MtHvac.System.Completions
import MtHvac.System.AddressFile
import MtHvac.System.Balance
