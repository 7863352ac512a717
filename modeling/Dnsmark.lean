import Dnsmark.Common.Machine
import Dnsmark.Common.Aggregate
import Dnsmark.Common.OnesComplement
import Dnsmark.Common.RateLimit
import Dnsmark.Common.SlotTable
import Dnsmark.Common.Ledger
import Dnsmark.Common.Lifecycle
import Dnsmark.Common.Registration
import Dnsmark.Common.Batching
import Dnsmark.Common.Custody
import Dnsmark.Common.IndexRing
import Dnsmark.Common.Fifo
import Dnsmark.Common.Slice
import Dnsmark.Common.Framing
import Dnsmark.Common.QueryMessage
import Dnsmark.Common.Spsc
import Dnsmark.Common.StraightLine
import Dnsmark.Common.Text
import Dnsmark.Common.Tickets
import Dnsmark.Common.RoundRobin
import Dnsmark.Common.Representatives
import Dnsmark.Stats.Collector
import Dnsmark.Stats.Atomic
import Dnsmark.Stats.Inflight
import Dnsmark.System.Routes
import Dnsmark.System.LongestPrefix
import Dnsmark.Inflight.Table
import Dnsmark.Inflight.ExactlyOnce
import Dnsmark.Inflight.RegistrationOrder
import Dnsmark.Dns.Response
import Dnsmark.Dns.Query
import Dnsmark.Query.Wire
import Dnsmark.Query.Source
import Dnsmark.Query.Mix
import Dnsmark.Engine.Shutdown
import Dnsmark.Engine.Ramp
import Dnsmark.Engine.Convergence
import Dnsmark.Engine.Knee
import Dnsmark.Engine.Bracket
import Dnsmark.Engine.RampTask
import Dnsmark.Engine.WithinSlo
import Dnsmark.Engine.Silence
import Dnsmark.Engine.Capacity
import Dnsmark.Engine.Rate
import Dnsmark.Udp.OpenTable
import Dnsmark.Udp.ClosedLoop
import Dnsmark.Udp.Gate
import Dnsmark.Udp.Reopening
import Dnsmark.Udp.Conservation
import Dnsmark.Udp.Attribution
import Dnsmark.Udp.Pacing
import Dnsmark.Udp.Throughput
import Dnsmark.Udp.FloodRegistration
import Dnsmark.Udp.FloodAccounting
import Dnsmark.Transport.WireLatency
import Dnsmark.Transport.Stream
import Dnsmark.Transport.Segments
import Dnsmark.Xdp.Umem
import Dnsmark.Xdp.Frame
import Dnsmark.Xdp.FrameParser
import Dnsmark.Xdp.FrameSoundness
import Dnsmark.Xdp.ReplyPath
import Dnsmark.Xdp.Checksum
import Dnsmark.Xdp.WireFormat
import Dnsmark.Xdp.Frames
import Dnsmark.Xdp.UnifiedWorker
import Dnsmark.Transport.QueryBuffers
import Dnsmark.Query.FileFormat
import Dnsmark.Transport.ReceivePaths
import Dnsmark.Xdp.TokenBucket
import Dnsmark.Xdp.Gate
import Dnsmark.Xdp.SplitPath
import Dnsmark.Xdp.SplitGate
import Dnsmark.Xdp.Registration
import Dnsmark.Xdp.IdRanges
import Dnsmark.Xdp.TxBatch
import Dnsmark.Xdp.SplitFrames
import Dnsmark.Xdp.Iteration
import Dnsmark.Xdp.StuckGate
import Dnsmark.Xdp.Exchange
import Dnsmark.Xdp.Accounting
import Dnsmark.Xdp.Startup
import Dnsmark.Xdp.CorePinning
import Dnsmark.Xdp.Shares
import Dnsmark.Xdp.Wiring
import Dnsmark.System.Cpus
import Dnsmark.System.CpuList
import Dnsmark.Xdp.Generating
import Dnsmark.Engine.FinalSnapshot
import Dnsmark.Engine.MultiNic
import Dnsmark.Engine.Ending
