import Maja.Lib.Outcome
import Maja.Lib.Word
import Maja.Lib.Double
import Maja.Lib.Iterate
import Maja.Lib.Paired
import Maja.Capture.Basic
import Maja.Capture.Pcapng
import Maja.Capture.PcapngOptions
import Maja.Capture.PcapngBlocks
import Maja.Capture.PcapngTotal
import Maja.Lib.BinaryHeap
import Maja.Mergecap.Merge
import Maja.Mergecap.MergeView
import Maja.Mergecap.MergeRefines
import Maja.Mergecap.MergeTies
import Maja.Mergecap.MergeCalls
import Maja.Mergecap.Config
import Maja.Mergecap.Reader
import Maja.Mergecap.Timeline
import Maja.Mergecap.SortedOutput
import Maja.Capture.Pcap
import Maja.Lib.StableSort
import Maja.Lib.FirstCome
import Maja.Reordercap.Scan
import Maja.Lib.Layout
import Maja.Reordercap.Decode
import Maja.Reordercap.Sections
import Maja.Reordercap.ScanView
import Maja.Reordercap.Reorder
import Maja.Lib.Spans
import Maja.Packet.Context
import Maja.Packet.Display
import Maja.Packet.Link
import Maja.Packet.Ip
import Maja.Packet.Parse
import Maja.Packet.Decode
import Maja.Packet.Descent
import Maja.Packet.LayerTable
import Maja.Packet.Padding
import Maja.Packet.Calls
import Maja.Packet.Coverage
import Maja.Capture.PcapReader
import Maja.Capture.PcapWriter
import Maja.Capture.PcapngReader
import Maja.Capture.PcapngLockstep
import Maja.Capture.PcapngInterfaces
import Maja.Cicflowmeter.Flow
import Maja.Cicflowmeter.Counting
import Maja.Cicflowmeter.Conservation
import Maja.Lib.Table
import Maja.Lib.Walk
import Maja.Mergecap.Map.Pool
import Maja.Mergecap.Map.Entry
import Maja.Mergecap.Map.Packet
import Maja.Mergecap.Map.Flow
import Maja.Mergecap.Map.Slot
import Maja.Mergecap.Map.FlowRun
import Maja.Mergecap.Map.FirstSeen
import Maja.Mergecap.Map.Stable
import Maja.Mergecap.Map.Classify
import Maja.Mergecap.Map.Readback
import Maja.Mergecap.Map.Families
import Maja.Mergecap.Map.Fragments
import Maja.Packet.Checksum
import Maja.Packet.Path
import Maja.Packet.Shown
import Maja.Packet.Outermost
import Maja.Packet.Fallback
import Maja.Packet.DepthLimit
import Maja.Packet.Again
import Maja.Packet.Craft
import Maja.Lib.BitString
import Maja.Packet.HeaderBits
import Maja.Packet.Builders
import Maja.Packet.Crafted
import Maja.Packet.Written
import Maja.Packet.Crafting
import Maja.Packet.Dissect
import Maja.Packet.RoundTrip
import Maja.Packet.CraftTotal
import Maja.Capture.Sniffed
import Maja.Mergecap.FileReader
import Maja.Reordercap.Idempotent
import Maja.Splitcap.Split
import Maja.Splitcap.Modes
import Maja.Mergecap.Map.Direct
import Maja.Mergecap.Map.Rewriter
import Maja.Mergecap.Map.Runtime
import Maja.Mergecap.Map.SharedReads
import Maja.Capture.PcapTimes
import Maja.Capture.PcapngTimes
import Maja.Capture.PcapngPosition
import Maja.Lib.SortedPair
import Maja.Net.FlowId
import Maja.Net.Conversations
import Maja.Lib.Delimited
import Maja.Splitcap.Filenames
import Maja.Lib.OnesComplement
import Maja.Packet.Rfc1071
import Maja.Packet.Receiver
import Maja.Lib.BitRange
import Maja.Packet.Underlay
import Maja.Packet.Lens
import Maja.Mergecap.Map.Envelope
import Maja.Mergecap.Map.Frame
import Maja.Mergecap.Map.Segment
import Maja.Mergecap.Map.Readdress
import Maja.Mergecap.Map.Fixed
import Maja.Mergecap.Map.SharedMerge
import Maja.Mergecap.Map.Permutation
import Maja.Mergecap.Map.PoolHosts
import Maja.Mergecap.Map.MaskWarning
import Maja.Lib.OrderedMap
import Maja.Capinfo.Interval
import Maja.Packet.Enclosing
import Maja.Cicflowmeter.Record
import Maja.Net.Levels
import Maja.Lib.Tiling
import Maja.Packet.OptionKind
import Maja.Packet.Options
import Maja.Mergecap.Map.SameTargets
import Maja.Lib.Chunks
import Maja.Mergecap.Map.Replayed
import Maja.Mergecap.MergeImpl
import Maja.Mergecap.Map.OwnMaps
import Maja.Mergecap.OnePass
import Maja.Mergecap.Batched
import Maja.Lib.Ranking
import Maja.Lib.RunningMoments
import Maja.Packet.FullHeaders
import Maja.Capinfo.Analysis
import Maja.Capinfo.Summary
import Maja.Capinfo.Totals
import Maja.Capinfo.TopTraffic
import Maja.Capture.Reopened
import Maja.Capinfo.Rearranged
import Maja.Capinfo.Files
import Maja.Splitcap.Partition
import Maja.Splitcap.Resplit
import Maja.Lib.Runs
import Maja.Cicflowmeter.Bulks
import Maja.Cicflowmeter.Columns
import Maja.Cicflowmeter.Connections
import Maja.Cicflowmeter.Durations
import Maja.Mergecap.Map.Returns
import Maja.Mergecap.Map.Ready
import Maja.Mergecap.MapReader
