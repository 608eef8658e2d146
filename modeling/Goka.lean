import Goka.Library.Schedule
import Goka.Library.KeyedLog
import Goka.Library.Blocks
import Goka.Basic
import Goka.Library.Decimal
import Goka.Hash
import Goka.Proof.Hash
import Goka.CopartitionStrategy
import Goka.Proof.CopartitionStrategy
import Goka.Graph
import Goka.Proof.Graph
import Goka.Storage
import Goka.PartitionTable
import Goka.Proof.PartitionTable
import Goka.Incarnations
import Goka.Proof.Incarnations
import Goka.Proof.Recovery
import Goka.Library.Panic
import Goka.Context
import Goka.Proof.ContextOps
import Goka.GroupTable
import Goka.ActiveTable
import Goka.Proof.ActiveTable
import Goka.Proof.Context
import Goka.PartitionProcessor
import Goka.Proof.PartitionProcessor
import Goka.Proof.FailedCallbacks
import Goka.Proof.EdgeCodecs
import Goka.Proof.Signal
import Goka.ViewState
import Goka.Proof.ViewState
import Goka.Assignment
import Goka.Proof.Assignment
import Goka.Proof.Storage
import Goka.TableReplay
import Goka.Proof.TableReplay
import Goka.MarkRecovered
import Goka.Proof.MarkRecovered
import Goka.Iterator
import Goka.Proof.MergeIterator
import Goka.Proof.OffsetEntry
import Goka.Proof.ViewSeek
import Goka.Promise
import Goka.Proof.Promise
import Goka.Library.LexPrefix
import Goka.Memory
import Goka.Proof.LoadStart
import Goka.Proof.Memory
import Goka.Proof.MemorySeek
import Goka.Proof.MemoryRange
import Goka.Emitter
import Goka.Library.Threads
import Goka.Proof.Emitter
import Goka.Headers
import Goka.Proof.Headers
import Goka.Observer
import Goka.Proof.Observer
import Goka.PartitionStart
import Goka.Proof.PartitionStart
import Goka.ProcessorSetup
import Goka.Proof.ProcessorSetup
import Goka.Proof.RecoverAhead
import Goka.ConsumerGroup
import Goka.Proof.ConsumerGroup
import Goka.Proof.ExactlyOnce
import Goka.Proof.PlanOrder
import Goka.Redis
import Goka.Backoff
import Goka.Proof.Redis
import Goka.Proof.Backoff
import Goka.Claims
import Goka.Library.Progress
import Goka.Proof.Claims
import Goka.Proof.Sessions
import Goka.Proof.ViewTable
import Goka.ViewRun
import Goka.Proof.ViewRun
import Goka.Proof.ViewRecovery
import Goka.Proof.ViewReconnect
import Goka.Flush
import Goka.Proof.Flush
import Goka.ProcessorRun
import Goka.Proof.ProcessorRun
import Goka.Proof.ProcessorResult
import Goka.Proof.PrepareTopics
