/-
# The statistics of a capture

`tools/maja-capinfo/src/analysis.rs`, and the loop of `analyze` in its `main.rs`,
which also feeds the interval statistics.  A reader's errors are counted and read
past, so the loop goes on to the end of the source.

`u64` counters that only ever grow by one are natural numbers; byte totals are
`u64`, of a build that does not check for overflow.  `F` stands for `f64`.
-/

import Maja.Capinfo.Interval
import Maja.Capture.Sniffed
import Maja.Lib.Largest
import Maja.Lib.Ranking
import Maja.Lib.RunningMoments
import Maja.Lib.Table

namespace Maja
namespace Capinfo

open Lib Net Packet Capture

/-- `RunningTrafficStats`. -/
structure RunningTrafficStats where
  count : ℕ := 0
  bytes : UInt64 := 0
  deriving DecidableEq, Repr

/-- `RunningTrafficStats::update`. -/
def RunningTrafficStats.update (bytes : UInt32) (stats : RunningTrafficStats) :
    RunningTrafficStats where
  count := stats.count + 1
  bytes := stats.bytes + bytes.toUInt64

section Lengths

variable {F : Type} [Arithmetic F]

/-- `RunningLengthStats`: the moments are its `count`, `mean` and `m_2`. -/
structure RunningLengthStats (F : Type) where
  moments : Moments F
  min : UInt32
  max : UInt32

namespace RunningLengthStats

/-- `RunningLengthStats::default`. -/
def default : RunningLengthStats F := ⟨.empty, 0xFFFFFFFF, 0⟩

/-- `RunningLengthStats::update`. -/
def update (stats : RunningLengthStats F) (value : UInt32) : RunningLengthStats F where
  moments := stats.moments.push (value.toNat : F)
  min := Min.min stats.min value
  max := Max.max stats.max value

/-- The statistics of these values, one after the other. -/
def updateAll (values : List UInt32) : RunningLengthStats F := values.foldl update default

/-- `RunningLengthStats::mean`. -/
def mean (stats : RunningLengthStats F) : F := stats.moments.mean

/-- `RunningLengthStats::variance`. -/
def variance (stats : RunningLengthStats F) (ddof : ℕ) : F :=
  if stats.moments.count ≤ ddof then 0
  else stats.moments.m2 / ((stats.moments.count - ddof : ℕ) : F)

/-- `RunningLengthStats::min`. -/
def minimum (stats : RunningLengthStats F) : UInt32 :=
  if stats.moments.count = 0 then 0 else stats.min

/-- `RunningLengthStats::max`. -/
def maximum (stats : RunningLengthStats F) : UInt32 :=
  if stats.moments.count = 0 then 0 else stats.max

end RunningLengthStats

/-- The traffic of each key. -/
abbrev Traffic (κ : Type) : Type := Table κ RunningTrafficStats

/-- `entry(key).or_default().update(bytes)`. -/
def Traffic.update {κ : Type} [DecidableEq κ] (traffic : Traffic κ) (key : κ) (bytes : UInt32) :
    Traffic κ := Table.upsert traffic key {} (.update bytes)

/-- `Stats`. -/
structure Stats (F : Type) where
  totalPackets : ℕ
  totalL2Bytes : UInt64
  totalL3Bytes : UInt64
  emptyPackets : ℕ
  errors : ℕ
  firstTimestamp : Option I64
  lastTimestamp : Option I64
  isOrdered : Bool
  lengths : RunningLengthStats F
  tcpCount : ℕ
  udpCount : ℕ
  flowSet : Finset FlowId
  srcIpTraffic : Traffic IpAddr
  dstIpTraffic : Traffic IpAddr
  srcPortTraffic : Traffic UInt16
  dstPortTraffic : Traffic UInt16

namespace Stats

/-- `Stats::default`. -/
def default : Stats F where
  totalPackets := 0
  totalL2Bytes := 0
  totalL3Bytes := 0
  emptyPackets := 0
  errors := 0
  firstTimestamp := none
  lastTimestamp := none
  isOrdered := true
  lengths := .default
  tcpCount := 0
  udpCount := 0
  flowSet := ∅
  srcIpTraffic := ∅
  dstIpTraffic := ∅
  srcPortTraffic := ∅
  dstPortTraffic := ∅

/-- `Stats::update_with_packet`. -/
def updateWithPacket (stats : Stats F) (timestamp : I64) (length : UInt32) : Stats F :=
  { stats with
    totalPackets := stats.totalPackets + 1
    totalL2Bytes := stats.totalL2Bytes + length.toUInt64
    isOrdered := if stats.lastTimestamp.any (timestamp < ·) then false else stats.isOrdered
    firstTimestamp := some (stats.firstTimestamp.elim timestamp (min · timestamp))
    lastTimestamp := some (stats.lastTimestamp.elim timestamp (max · timestamp)) }

/-- `Stats::update_with_metadata`. -/
def updateWithMetadata (stats : Stats F) (metadata : PacketMetadata) : Stats F :=
  let srcPort := metadata.srcPort.getD 0
  let dstPort := metadata.dstPort.getD 0
  { stats with
    lengths := stats.lengths.update metadata.length
    srcIpTraffic := metadata.srcIp.elim stats.srcIpTraffic
      (stats.srcIpTraffic.update · metadata.length)
    dstIpTraffic := metadata.dstIp.elim stats.dstIpTraffic
      (stats.dstIpTraffic.update · metadata.length)
    srcPortTraffic := stats.srcPortTraffic.update srcPort metadata.length
    dstPortTraffic := stats.dstPortTraffic.update dstPort metadata.length
    tcpCount := if metadata.ipProto = some 6 then stats.tcpCount + 1 else stats.tcpCount
    udpCount := if metadata.ipProto = some 17 then stats.udpCount + 1 else stats.udpCount
    flowSet := (flowId metadata).elim stats.flowSet (insert · stats.flowSet) }

end Stats

end Lengths

/-! ### The loop of `analyze` -/

/-- What `extract_packet_metadata` adds to `total_l3_bytes`: the total length of the
innermost IPv4 header, else the payload and the header of the innermost IPv6 one. -/
def networkBytes {ε : Type} (parsed : Maja.Packet) : Outcome ε UInt64 := do
  match ← parsed.nthLayerViewer .ipv4 0 with
  | some ipv4 =>
    let totalLength ← Ipv4Viewer.totalLength.get ipv4
    pure (.ofNat totalLength)
  | none =>
    match ← parsed.nthLayerViewer .ipv6 0 with
    | some ipv6 =>
      let payloadLength ← Ipv6Viewer.payloadLength.get ipv6
      pure (.ofNat payloadLength + 40)
    | none => pure 0

/-- What the loop of `analyze` keeps. -/
structure Analysis (F : Type) where
  stats : Stats F
  intervalStats : Option IntervalStats

namespace Analysis

variable {F : Type} [Arithmetic F]

/-- What the loop starts with. -/
def new (width : Option IntervalWidth) : Analysis F := ⟨.default, width.map .new⟩

/-- `update_with_packet` of both statistics. -/
def updateWithPacket (a : Analysis F) (timestamp : I64) (length : UInt32) : Analysis F where
  stats := a.stats.updateWithPacket timestamp length
  intervalStats := a.intervalStats.map (·.updateWithPacket timestamp length)

/-- `update_with_metadata` of both statistics. -/
def updateWithMetadata (a : Analysis F) (metadata : PacketMetadata) : Analysis F where
  stats := a.stats.updateWithMetadata metadata
  intervalStats := a.intervalStats.map (·.updateWithMetadata metadata)

/-- `stats.errors += 1`. -/
def countError (a : Analysis F) : Analysis F :=
  { a with stats := { a.stats with errors := a.stats.errors + 1 } }

/-- `stats.empty_packets += 1`. -/
def countEmpty (a : Analysis F) : Analysis F :=
  { a with stats := { a.stats with emptyPackets := a.stats.emptyPackets + 1 } }

/-- `stats.total_l3_bytes += bytes`. -/
def addL3Bytes (a : Analysis F) (bytes : UInt64) : Analysis F :=
  { a with stats := { a.stats with totalL3Bytes := a.stats.totalL3Bytes + bytes } }

/-- A turn of the loop, with what the reader has handed out. -/
def turn (a : Analysis F) :
    Except CaptureError PacketRecord → Outcome CaptureError (Analysis F)
  | .error _ => .ok a.countError
  | .ok packet =>
    let length := UInt32.ofNat packet.originalLength
    let a := a.updateWithPacket packet.timestamp length
    if packet.data.isEmpty then .ok a.countEmpty
    else
      match tryParseWithLinkType (packet.data.length + 1) packet.linkType {} (.new packet.data) with
      | .ok ((), parsed) => do
        let bytes ← networkBytes parsed
        let metadata ← extractPacketMetadata parsed { timestamp := packet.timestamp, length }
        pure ((a.addL3Bytes bytes).updateWithMetadata metadata)
      | .err _ => .ok a
      | .panic => .panic
      | .outOfFuel => .outOfFuel

/-- The loop of `analyze`. -/
def loop : ℕ → SniffedReader → Analysis F → Outcome CaptureError (Analysis F)
  | 0, _, _ => .outOfFuel
  | fuel + 1, reader, a =>
    match reader.nextPacket with
    | .ok (none, _) => .ok a
    | .ok (some packet, reader) => do
      let a ← a.turn (.ok packet)
      loop fuel reader a
    | .err (e, reader) => do
      let a ← a.turn (.error e)
      loop fuel reader a
    | .panic => .panic
    | .outOfFuel => .outOfFuel

end Analysis

/-- `analyze`, of the bytes of a capture file, up to the statistics. -/
def analyze {F : Type} [Arithmetic F]
    (width : Option IntervalWidth) (data : List UInt8) : Outcome CaptureError (Analysis F) := do
  let reader ← SniffedReader.new data
  Analysis.loop (data.length + 1) reader (.new width)

/-! ### The first of the traffic -/

/-- The order of a key, as that of a number: an address or a port. -/
class Key (κ : Type) where
  rank : κ → ℕ
  rank_injective : Function.Injective rank

instance : Key UInt16 := ⟨UInt16.toNat, fun _ _ => UInt16.toNat_inj.1⟩

/-- IPv4 addresses come first. -/
instance : Key IpAddr where
  rank
    | .v4 addr => addr.toNat
    | .v6 addr => 2 ^ 32 + addr.toNat
  rank_injective a b h := by
    cases a with
    | v4 a =>
      cases b with
      | v4 b => exact congrArg IpAddr.v4 (BitVec.eq_of_toNat_eq h)
      | v6 b => exact absurd h (Nat.ne_of_lt (a.isLt.trans_le (Nat.le_add_right _ _)))
    | v6 a =>
      cases b with
      | v4 b => exact absurd h.symm (Nat.ne_of_lt (b.isLt.trans_le (Nat.le_add_right _ _)))
      | v6 b => exact congrArg IpAddr.v6 (BitVec.eq_of_toNat_eq (Nat.add_left_cancel h))

section Top

variable {κ : Type} [Key κ]

/-- The comparison in `top_items`: by the packets, then by the bytes, then by the key,
where the lesser one is the greater. -/
def compareTraffic (left right : κ × RunningTrafficStats) : Ordering :=
  (compare left.2.count right.2.count).then
    ((compare left.2.bytes.toNat right.2.bytes.toNat).then
      (compare (Key.rank right.1) (Key.rank left.1)))

variable (κ) in
/-- What `k_largest_by` with this comparison is documented to do: the greatest entries,
the greatest first. -/
abbrev KLargestBy : Type :=
  Selection fun a b : κ × RunningTrafficStats => compareTraffic a b ≠ .lt

/-- `top_items`, of a hash map that hands out its entries in some order. -/
def topItems (order : IterOrder (κ × RunningTrafficStats))
    (kLargestBy : KLargestBy κ) (traffic : Traffic κ) (limit : ℕ) :
    List (κ × RunningTrafficStats) :=
  kLargestBy.select limit (order.arrange (traffic.entries.map fun e => (e.1, e.2)))

end Top

namespace Stats

variable {F : Type} (stats : Stats F)

/-- `Stats::unique_src_ips`. -/
def uniqueSrcIps : ℕ := stats.srcIpTraffic.entries.length

/-- `Stats::unique_dst_ips`. -/
def uniqueDstIps : ℕ := stats.dstIpTraffic.entries.length

/-- `Stats::unique_src_ports`. -/
def uniqueSrcPorts : ℕ := stats.srcPortTraffic.entries.length

/-- `Stats::unique_dst_ports`. -/
def uniqueDstPorts : ℕ := stats.dstPortTraffic.entries.length

section Ips

variable (order : IterOrder (IpAddr × RunningTrafficStats))
  (kLargestBy : KLargestBy IpAddr) (limit : ℕ)

/-- `Stats::top_src_ips`. -/
def topSrcIps : List (IpAddr × RunningTrafficStats) :=
  topItems order kLargestBy stats.srcIpTraffic limit

/-- `Stats::top_dst_ips`. -/
def topDstIps : List (IpAddr × RunningTrafficStats) :=
  topItems order kLargestBy stats.dstIpTraffic limit

end Ips

section Ports

variable (order : IterOrder (UInt16 × RunningTrafficStats))
  (kLargestBy : KLargestBy UInt16) (limit : ℕ)

/-- `Stats::top_src_ports`. -/
def topSrcPorts : List (UInt16 × RunningTrafficStats) :=
  topItems order kLargestBy stats.srcPortTraffic limit

/-- `Stats::top_dst_ports`. -/
def topDstPorts : List (UInt16 × RunningTrafficStats) :=
  topItems order kLargestBy stats.dstPortTraffic limit

end Ports

end Stats

end Capinfo
end Maja
