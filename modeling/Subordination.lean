import Subordination.Library.Bytes
import Subordination.Library.Counters
import Subordination.Library.Framing
import Subordination.Library.Journal
import Subordination.Library.System
import Subordination.Library.Loops
import Subordination.Library.Firsts
import Subordination.Library.Floods
import Subordination.Library.Brackets
import Subordination.Library.Marking
import Subordination.Library.Quotients
import Subordination.Library.Selections
import Subordination.Library.Splitting
import Subordination.Library.Assignments
import Subordination.Library.Fields
import Subordination.Core.ByteBuffer
import Subordination.Core.BinaryExpressions
import Subordination.Core.TextualExpressions
import Subordination.Core.MapReaders
import Subordination.Core.AnyCells
import Subordination.Core.Evaluation
import Subordination.Core.Outlines
import Subordination.Core.PrintedConstants
import Subordination.Core.Delivery
import Subordination.Core.Vectors
import Subordination.Core.WeightOperations
import Subordination.Core.PropertyFiles
import Subordination.Core.CommandLines
import Subordination.Core.ResourceOrder
import Subordination.Core.AtomicWrites
import Subordination.Core.CarriedParents
import Subordination.Core.ParentLinks
import Subordination.Core.RecoveredRecords
import Subordination.Core.FrameProgress
import Subordination.Core.Recovery
import Subordination.Core.Returns
import Subordination.Core.Rewriting
import Subordination.Core.Restarts
import Subordination.Core.OpenTransactions
import Subordination.Core.MissingPrincipals
import Subordination.Core.Loads
import Subordination.Core.LoadOrder
import Subordination.Core.ParallelPipeline
import Subordination.Core.TimerLoop
import Subordination.Core.DownstreamQueues
import Subordination.Core.Execution
import Subordination.Core.KernelThreads
import Subordination.Daemon.Transactions
import Subordination.Daemon.Agreement
import Subordination.Daemon.Gossip
import Subordination.Daemon.NodesBehind
import Subordination.Daemon.Traversals
import Subordination.Daemon.EndlessTraversals
import Subordination.Daemon.ReceivedHierarchies
import Subordination.Daemon.Searches
import Subordination.Daemon.SocketPipeline
import Subordination.Daemon.Routing
import Subordination.Daemon.Broadcasts
import Subordination.Daemon.TerminateKernel
import Subordination.Daemon.FailedReplies
import Subordination.Daemon.LocalLoad
import Subordination.Daemon.ProcessPipeline
import Subordination.Daemon.Overcommitment
import Subordination.Daemon.SimultaneousConnect
import Subordination.Daemon.HeldSlots
import Subordination.Daemon.UnixClients
import Subordination.Daemon.KernelSack
import Subordination.Daemon.SchedulerChoices
import Subordination.Daemon.RelativeLoads
import Subordination.Daemon.QueuedKernels
import Subordination.Daemon.Admission
import Subordination.Daemon.PipelineStatus
import Subordination.Daemon.IdleNode
import Subordination.Daemon.InterfaceAddressLists
import Subordination.Daemon.FactoryFlags
import Subordination.Daemon.IteratorConstruction
import Subordination.Daemon.LinearPositions
import Subordination.Daemon.AddressMappings
import Subordination.Daemon.ReservedArrays
import Subordination.Daemon.HierarchyCache
import Subordination.Daemon.Messages
import Subordination.Daemon.TransactionTest
import Subordination.Daemon.MainKernel
import Subordination.Daemon.StatusKernels
import Subordination.Daemon.Jobs
import Subordination.Daemon.Configurations
import Subordination.Daemon.Settings
import Subordination.Guile.ParallelMap
import Subordination.Guile.SchemeObjects
import Subordination.Guile.MapReduce
import Subordination.Guile.ScriptKernels
import Subordination.Guile.RemoteMaps
