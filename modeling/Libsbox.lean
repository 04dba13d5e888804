import Libsbox.Lib.CMemory
import Libsbox.Lib.Decimal
import Libsbox.Lib.Json
import Libsbox.Lib.Pile
import Libsbox.Marshalling.Capacity
import Libsbox.Marshalling.StringVector
import Libsbox.Mounts.Options
import Libsbox.Mounts.Points
import Libsbox.Mounts.Ways
import Libsbox.Mounts.Host
import Libsbox.Mounts.Freshness
import Libsbox.Mounts.Cancel
import Libsbox.Lib.Moves
import Libsbox.Mounts.Paths
import Libsbox.Client.RunTogether
import Libsbox.Lib.Writes
import Libsbox.Client.Failures
import Libsbox.Worker.Requests
import Libsbox.Lib.Barrier
import Libsbox.Lib.Runs
import Libsbox.Model.System
import Libsbox.Protocol.Deaths
import Libsbox.Protocol.Sigchld
import Libsbox.Protocol.Handover
import Libsbox.Protocol.StandardBinds
import Libsbox.Messages.RoundTrips
import Libsbox.Protocol.Verdicts
import Libsbox.Lib.ProcessTree
import Libsbox.Container.WaitForSlave
import Libsbox.Container.KillAll
import Libsbox.Container.Timer
import Libsbox.Ids.Credentials
import Libsbox.Ids.Farm
import Libsbox.Ids.SharedPool
import Libsbox.Ids.Mutex
import Libsbox.Protocol.Ipc
import Libsbox.Lib.FdTable
import Libsbox.Model.Descriptors
import Libsbox.Pipes.Pipework
import Libsbox.Pipes.Streams
import Libsbox.Lib.TwoRuns
import Libsbox.Marshalling.Reuse
import Libsbox.Marshalling.Blocks
import Libsbox.Model.Service
import Libsbox.Pipes.Ends
import Libsbox.Slave.Descriptors
import Libsbox.Client.StreamNames
import Libsbox.Slave.Environment
import Libsbox.Slave.Limits
import Libsbox.Messages.Framing
import Libsbox.Service.Serving
import Libsbox.Service.Deaths
import Libsbox.Service.Shutdown
import Libsbox.Service.CleanStop
import Libsbox.Lib.Ancestry
import Libsbox.Lib.Monitor
import Libsbox.Model.Family
import Libsbox.Service.Endings
import Libsbox.Service.FailStop
import Libsbox.Ids.Capacity
import Libsbox.Session.Answers
import Libsbox.Ids.Workers
import Libsbox.Lib.Scan
import Libsbox.Model.Cgroups
import Libsbox.Cgroups.Readings
import Libsbox.Cgroups.Holders
import Libsbox.Cgroups.Accounting
import Libsbox.Cgroups.Leftovers
