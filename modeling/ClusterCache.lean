import ClusterCache.Assoc
import ClusterCache.Cache.Builder
import ClusterCache.Cache.Call
import ClusterCache.Cache.Eviction
import ClusterCache.Cache.Listener
import ClusterCache.Cache.Record
import ClusterCache.Cache.RecordTable
import ClusterCache.Cache.Shard
import ClusterCache.Cache.State
import ClusterCache.Config
import ClusterCache.Controller
import ClusterCache.Decimal.Layout
import ClusterCache.Decimal.Reader
import ClusterCache.Decimal.Shortest
import ClusterCache.Decimal.Whole
import ClusterCache.Duration
import ClusterCache.Duration.Text
import ClusterCache.Eviction.Fifo
import ClusterCache.Eviction.Gated
import ClusterCache.Eviction.Lirs
import ClusterCache.Eviction.Lru
import ClusterCache.Eviction.SequenceQueue
import ClusterCache.Eviction.Strategy
import ClusterCache.Eviction.Unbounded
import ClusterCache.Eviction.Unordered
import ClusterCache.Fault
import ClusterCache.Hash
import ClusterCache.Json
import ClusterCache.Json.Numeral
import ClusterCache.Json.Printer
import ClusterCache.Json.Reader
import ClusterCache.Json.Record
import ClusterCache.KeyMap
import ClusterCache.Load.CommandLine
import ClusterCache.Load.Help
import ClusterCache.Load.Options
import ClusterCache.Load.Report
import ClusterCache.Load.Run
import ClusterCache.Lock.Context
import ClusterCache.Lock.Handler
import ClusterCache.Lock.Request
import ClusterCache.Lock.Table
import ClusterCache.Lock.Transaction
import ClusterCache.Lock.WaitingRoom
import ClusterCache.Main
import ClusterCache.Metrics
import ClusterCache.NameSet
import ClusterCache.NameSet.Codec
import ClusterCache.Proofs.Cache.Alone
import ClusterCache.Proofs.Cache.Builder
import ClusterCache.Proofs.Cache.Call
import ClusterCache.Proofs.Cache.Calm
import ClusterCache.Proofs.Cache.Course
import ClusterCache.Proofs.Cache.Departure
import ClusterCache.Proofs.Cache.Drift
import ClusterCache.Proofs.Cache.Eviction
import ClusterCache.Proofs.Cache.Hashing
import ClusterCache.Proofs.Cache.Interval
import ClusterCache.Proofs.Cache.Likeness
import ClusterCache.Proofs.Cache.Lines
import ClusterCache.Proofs.Cache.Order
import ClusterCache.Proofs.Cache.PlainMap
import ClusterCache.Proofs.Cache.RecordTable
import ClusterCache.Proofs.Cache.Refusal
import ClusterCache.Proofs.Cache.Restart
import ClusterCache.Proofs.Cache.Scan
import ClusterCache.Proofs.Cache.Shard
import ClusterCache.Proofs.Cache.ShardLine
import ClusterCache.Proofs.Cache.Showing
import ClusterCache.Proofs.Cache.Stage
import ClusterCache.Proofs.Cache.Steady
import ClusterCache.Proofs.Cache.Step
import ClusterCache.Proofs.Cache.Stopped
import ClusterCache.Proofs.Cache.Survival
import ClusterCache.Proofs.Cache.Tally
import ClusterCache.Proofs.Cache.Traffic
import ClusterCache.Proofs.Eviction.Likeness
import ClusterCache.Proofs.Eviction.Lining
import ClusterCache.Proofs.Eviction.Lirs
import ClusterCache.Proofs.Eviction.Lirs.Bookkeeping
import ClusterCache.Proofs.Eviction.Lirs.Bottom
import ClusterCache.Proofs.Eviction.Lirs.Drain
import ClusterCache.Proofs.Eviction.Lirs.Likeness
import ClusterCache.Proofs.Eviction.Lirs.Promotion
import ClusterCache.Proofs.Eviction.Lirs.Recency
import ClusterCache.Proofs.Eviction.Lirs.Slots
import ClusterCache.Proofs.Eviction.Lirs.Tracking
import ClusterCache.Proofs.Eviction.Lirs.Victim
import ClusterCache.Proofs.Eviction.Patience
import ClusterCache.Proofs.Eviction.Residents
import ClusterCache.Proofs.Eviction.Restart
import ClusterCache.Proofs.Eviction.SequenceQueue
import ClusterCache.Proofs.Eviction.SequenceQueue.Calls
import ClusterCache.Proofs.Eviction.SequenceQueue.Words
import ClusterCache.Proofs.Eviction.Tracking
import ClusterCache.Proofs.Eviction.Unordered
import ClusterCache.Proofs.KeyMap
import ClusterCache.Proofs.Lock.Acquisition
import ClusterCache.Proofs.Lock.Contention
import ClusterCache.Proofs.Lock.Dispatch
import ClusterCache.Proofs.Lock.Errand
import ClusterCache.Proofs.Lock.Holdings
import ClusterCache.Proofs.Lock.Moves
import ClusterCache.Proofs.Lock.Overlap
import ClusterCache.Proofs.Lock.Release
import ClusterCache.Proofs.Lock.Striping
import ClusterCache.Proofs.Lock.Table
import ClusterCache.Proofs.NameSet.Codec
import ClusterCache.Proofs.NameSet.Length
import ClusterCache.Proofs.Rows
import ClusterCache.Proofs.Wire.Form
import ClusterCache.Proofs.Wire.Length
import ClusterCache.Proofs.Wire.Number
import ClusterCache.Proofs.Wire.Text
import ClusterCache.Proofs.Wire.Word
import ClusterCache.Text.Blank
import ClusterCache.Text.Outline
import ClusterCache.Text.Printable
import ClusterCache.Text.Quoted
import ClusterCache.Text.Utf8
import ClusterCache.Total
import ClusterCache.Wire.Error
import ClusterCache.Wire.SizedText
import ClusterCache.Wire.Varint
