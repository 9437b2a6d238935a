/-
# Flows

`src/tools/maja-cicflowmeter/src/flow.rs`: a `Flow` is what is remembered of the
packets of one connection, `FlowGenerator` keeps the open ones in a hash map and
turns closed ones into rows.

Statistics and payload lengths, which are floating-point numbers there, are the
integers that they are computed from; where a length becomes an integer again, it
has been rounded (`Sample.size`).  `u64` counters that only ever grow by one
are natural numbers.  `checks` says whether the build has overflow checks.
-/

import Maja.Lib.Double
import Maja.Lib.Word
import Maja.Net.Address
import Mathlib.Data.List.AList

namespace Maja
namespace Cicflowmeter

open Lib Net

/-- `TcpFlags`. -/
structure TcpFlags where
  bits : UInt8
  deriving DecidableEq, Repr

namespace TcpFlags

def CWR : TcpFlags := ⟨0b10000000⟩
def ECE : TcpFlags := ⟨0b01000000⟩
def URG : TcpFlags := ⟨0b00100000⟩
def ACK : TcpFlags := ⟨0b00010000⟩
def PSH : TcpFlags := ⟨0b00001000⟩
def RST : TcpFlags := ⟨0b00000100⟩
def SYN : TcpFlags := ⟨0b00000010⟩
def FIN : TcpFlags := ⟨0b00000001⟩

/-- `TcpFlags::contains`. -/
def contains (flags flag : TcpFlags) : Bool := flags.bits &&& flag.bits == flag.bits

end TcpFlags

/-- `FlowPacket`. -/
structure FlowPacket where
  /-- Capture timestamp in nanoseconds since the Unix epoch. -/
  timestamp : I64
  srcIp : IpAddr
  dstIp : IpAddr
  srcPort : UInt16
  dstPort : UInt16
  /-- IP protocol number. -/
  protocol : UInt8
  /-- Transport payload length in bytes. -/
  payloadBytes : UInt64
  /-- Transport header length in bytes. -/
  headerBytes : UInt64
  tcpFlags : TcpFlags
  tcpWindow : UInt16
  deriving DecidableEq, Repr

/-- `FlowKey`: the direction-independent key of both halves of a flow. -/
structure FlowKey where
  leftIp : IpAddr
  leftPort : UInt16
  rightIp : IpAddr
  rightPort : UInt16
  protocol : UInt8
  deriving DecidableEq, Repr

/-- `FlowKey::from_packet`. -/
def FlowKey.fromPacket (packet : FlowPacket) : FlowKey :=
  let left : Endpoint := (packet.srcIp, packet.srcPort)
  let right : Endpoint := (packet.dstIp, packet.dstPort)
  if left.le right then ⟨left.1, left.2, right.1, right.2, packet.protocol⟩
  else ⟨right.1, right.2, left.1, left.2, packet.protocol⟩

/-- `Sample`. -/
structure Sample where
  timestamp : I64
  payloadBytes : UInt64
  flags : TcpFlags
  deriving DecidableEq, Repr

namespace Sample

/-- `payload_bytes`, the length as an `f64`. -/
def payloadF64 (sample : Sample) : ℕ := asF64 sample.payloadBytes.toNat

/-- `payload_bytes as u64`. -/
def size (sample : Sample) : UInt64 := U64.ofF64 sample.payloadF64

/-- The `f64` is zero when the length is. -/
theorem payloadF64_eq_zero_iff {sample : Sample} :
    sample.payloadF64 = 0 ↔ sample.payloadBytes = 0 := by
  rw [payloadF64, asF64_eq_zero_iff, ← UInt64.toNat_inj]
  rfl

/-- Lengths below `2 ^ 53` are exact. -/
theorem size_of_lt {sample : Sample} (h : sample.payloadBytes.toNat < 2 ^ 53) :
    sample.size = sample.payloadBytes :=
  U64.ofF64_asF64 h

end Sample

/-! ### Bulks -/

/-- `BulkState`. -/
structure BulkState where
  start : Option I64 := none
  last : Option I64 := none
  packetCount : ℕ := 0
  size : UInt64 := 0
  states : ℕ := 0
  totalPackets : ℕ := 0
  totalBytes : UInt64 := 0
  duration : I64 := I64.ofInt 0
  deriving DecidableEq, Repr

namespace BulkState

variable {ε : Type}

/-- The start of the bulk, forgotten once the other side has sent data in it. -/
def startAfter (bulk : BulkState) (otherLast : Option I64) : Option I64 :=
  match otherLast, bulk.start with
  | some other, some start => if start < other then none else some start
  | _, start => start

/-- `packet` begins a new bulk: there is none, or it is more than a second old. -/
def begins (bulk : BulkState) (packet : Sample) (otherLast : Option I64) : Bool :=
  (bulk.startAfter otherLast).isNone ||
    bulk.last.any fun last => I64.ofInt 1000000000 < packet.timestamp.saturatingSub last

/-- `BulkState::add`. -/
def add (checks : Bool) (bulk : BulkState) (packet : Sample) (otherLast : Option I64) :
    Outcome ε BulkState :=
  if packet.payloadF64 = 0 then
    pure bulk
  else if bulk.begins packet otherLast then
    pure { bulk with
      start := some packet.timestamp
      last := some packet.timestamp
      packetCount := 1
      size := packet.size }
  else do
    let start := bulk.startAfter otherLast
    let packetCount := bulk.packetCount + 1
    let size ← U64.arith checks (bulk.size.toNat + packet.size.toNat)
    let bulk := { bulk with start, packetCount, size }
    if packetCount = 4 then do
      let totalBytes ← U64.arith checks (bulk.totalBytes.toNat + size.toNat)
      let length ← I64.arith checks (packet.timestamp.val - (start.getD packet.timestamp).val)
      let duration ← I64.arith checks (bulk.duration.val + length.val)
      pure { bulk with
        states := bulk.states + 1
        totalPackets := bulk.totalPackets + packetCount
        totalBytes, duration
        last := some packet.timestamp }
    else if 4 < packetCount then do
      let totalBytes ← U64.arith checks (bulk.totalBytes.toNat + packet.size.toNat)
      let gap ← I64.arith checks (packet.timestamp.val - (bulk.last.getD packet.timestamp).val)
      let duration ← I64.arith checks (bulk.duration.val + gap.val)
      pure { bulk with
        totalPackets := bulk.totalPackets + 1
        totalBytes, duration
        last := some packet.timestamp }
    else
      pure { bulk with last := some packet.timestamp }

/-- A packet without a payload leaves the bulk alone. -/
theorem add_of_no_payload {checks : Bool} {bulk : BulkState} {packet : Sample}
    {otherLast : Option I64} (h : packet.payloadBytes = 0) :
    (bulk.add checks packet otherLast : Outcome ε BulkState) = .ok bulk := by
  rw [add, if_pos (Sample.payloadF64_eq_zero_iff.2 h)]
  rfl

end BulkState

/-! ### Flows -/

/-- `Flow`. -/
structure Flow where
  first : FlowPacket
  lastTimestamp : I64
  activityTimeoutNs : I64
  forward : List Sample := []
  backward : List Sample := []
  flowLengths : List UInt64 := []
  /-- The gaps, as the other statistics below in nanoseconds. -/
  flowIat : List I64 := []
  forwardIat : List I64 := []
  backwardIat : List I64 := []
  active : List I64 := []
  idle : List I64 := []
  activeStart : I64
  activeEnd : I64
  forwardHeaders : UInt64 := 0
  backwardHeaders : UInt64 := 0
  flagCounts : Vector ℕ 8 := Vector.replicate 8 0
  forwardPsh : ℕ := 0
  backwardPsh : ℕ := 0
  forwardUrg : ℕ := 0
  backwardUrg : ℕ := 0
  initialForwardWindow : UInt16 := 0
  initialBackwardWindow : UInt16 := 0
  activeForwardData : ℕ := 0
  minForwardSegment : UInt64 := 0
  lastForward : Option I64 := none
  lastBackward : Option I64 := none
  /-- A flow always contains its initial subflow. -/
  subflows : ℕ := 1
  forwardBulk : BulkState := {}
  backwardBulk : BulkState := {}
  deriving DecidableEq, Repr

namespace Flow

variable {ε : Type}

/-- The number of packets of the flow. -/
def length (flow : Flow) : ℕ := flow.forward.length + flow.backward.length

/-- `Flow::is_forward`. -/
def isForward (flow : Flow) (packet : FlowPacket) : Bool :=
  packet.srcIp = flow.first.srcIp && packet.dstIp = flow.first.dstIp &&
    packet.srcPort = flow.first.srcPort && packet.dstPort = flow.first.dstPort

/-- The active period that ends where it ends now. -/
def closeActive (checks : Bool) (flow : Flow) : Outcome ε Flow :=
  if flow.activeStart < flow.activeEnd then do
    let period ← I64.arith checks (flow.activeEnd.val - flow.activeStart.val)
    pure { flow with active := flow.active ++ [period] }
  else
    pure flow

/-- The gap before a packet, unless it is the first. -/
def addGap (checks : Bool) (flow : Flow) (packet : FlowPacket) : Outcome ε Flow :=
  if !flow.forward.isEmpty || !flow.backward.isEmpty then
    let gap := packet.timestamp.saturatingSub flow.lastTimestamp
    let flow := { flow with
      flowIat := flow.flowIat ++ [gap]
      subflows := if I64.ofInt 1000000000 < gap then flow.subflows + 1 else flow.subflows }
    if flow.activityTimeoutNs < gap then do
      let flow ← flow.closeActive checks
      pure { flow with idle := flow.idle ++ [gap], activeStart := packet.timestamp }
    else
      pure flow
  else
    pure flow

/-- The flags that `check_flags` counts, in its order. -/
def FLAGS : Vector TcpFlags 8 :=
  #v[TcpFlags.FIN, TcpFlags.SYN, TcpFlags.RST, TcpFlags.PSH, TcpFlags.ACK, TcpFlags.URG,
    TcpFlags.CWR, TcpFlags.ECE]

/-- `Flow::check_flags`. -/
def checkFlags (flagCounts : Vector ℕ 8) (flags : TcpFlags) : Vector ℕ 8 :=
  flagCounts.zipWith (fun count flag => if flags.contains flag then count + 1 else count) FLAGS

/-- What a packet of either direction changes. -/
def touch (flow : Flow) (packet : FlowPacket) : Flow :=
  { flow with
    activeEnd := packet.timestamp
    lastTimestamp := packet.timestamp
    flowLengths := flow.flowLengths ++ [packet.payloadBytes]
    flagCounts := checkFlags flow.flagCounts packet.tcpFlags }

/-- A packet of the forward direction. -/
def addForward (checks : Bool) (flow : Flow) (packet : FlowPacket) (sample : Sample) :
    Outcome ε Flow := do
  let forwardHeaders ← U64.arith checks (flow.forwardHeaders.toNat + packet.headerBytes.toNat)
  let minForwardSegment :=
    if flow.forward.isEmpty then packet.headerBytes else flow.minForwardSegment
  let forwardBulk ← flow.forwardBulk.add checks sample flow.lastBackward
  pure { flow with
    forwardIat := match flow.lastForward with
      | some last => flow.forwardIat ++ [packet.timestamp.saturatingSub last]
      | none => flow.forwardIat
    initialForwardWindow :=
      if flow.forward.isEmpty then packet.tcpWindow else flow.initialForwardWindow
    lastForward := some packet.timestamp
    forwardHeaders
    activeForwardData :=
      if 0 < packet.payloadBytes then flow.activeForwardData + 1 else flow.activeForwardData
    forwardPsh := if packet.tcpFlags.contains TcpFlags.PSH then flow.forwardPsh + 1 else flow.forwardPsh
    forwardUrg := if packet.tcpFlags.contains TcpFlags.URG then flow.forwardUrg + 1 else flow.forwardUrg
    minForwardSegment :=
      if minForwardSegment = 0 then packet.headerBytes else min minForwardSegment packet.headerBytes
    forwardBulk
    forward := flow.forward ++ [sample] }

/-- A packet of the backward direction. -/
def addBackward (checks : Bool) (flow : Flow) (packet : FlowPacket) (sample : Sample) :
    Outcome ε Flow := do
  let backwardHeaders ← U64.arith checks (flow.backwardHeaders.toNat + packet.headerBytes.toNat)
  let backwardBulk ← flow.backwardBulk.add checks sample flow.lastForward
  pure { flow with
    backwardIat := match flow.lastBackward with
      | some last => flow.backwardIat ++ [packet.timestamp.saturatingSub last]
      | none => flow.backwardIat
    initialBackwardWindow :=
      if flow.backward.isEmpty then packet.tcpWindow else flow.initialBackwardWindow
    lastBackward := some packet.timestamp
    backwardHeaders
    backwardPsh :=
      if packet.tcpFlags.contains TcpFlags.PSH then flow.backwardPsh + 1 else flow.backwardPsh
    backwardUrg :=
      if packet.tcpFlags.contains TcpFlags.URG then flow.backwardUrg + 1 else flow.backwardUrg
    backwardBulk
    backward := flow.backward ++ [sample] }

/-- `Flow::add`. -/
def add (checks : Bool) (flow : Flow) (packet : FlowPacket) : Outcome ε Flow := do
  let sample : Sample := ⟨packet.timestamp, packet.payloadBytes, packet.tcpFlags⟩
  let flow ← flow.addGap checks packet
  if flow.isForward packet then (flow.touch packet).addForward checks packet sample
  else (flow.touch packet).addBackward checks packet sample

/-- The flow of `packet`, before it is added. -/
def opened (packet : FlowPacket) (activityTimeoutNs : I64) : Flow where
  first := packet
  lastTimestamp := packet.timestamp
  activityTimeoutNs := activityTimeoutNs
  activeStart := packet.timestamp
  activeEnd := packet.timestamp

/-- `Flow::new`. -/
def new (checks : Bool) (packet : FlowPacket) (activityTimeoutNs : I64) : Outcome ε Flow :=
  (opened packet activityTimeoutNs).add checks packet

/-- The counter of the FINs. -/
abbrev finCount (flow : Flow) : ℕ := flow.flagCounts[0]

/-- `Flow::has_both_fin`. -/
def hasBothFin (flow : Flow) : Bool :=
  0 < flow.finCount && flow.forward.any (·.flags.contains TcpFlags.FIN) &&
    flow.backward.any (·.flags.contains TcpFlags.FIN)

end Flow

/-! ### Rows -/

/-- How a row writes addresses and timestamps. -/
structure Texts where
  /-- `Display` of an address. -/
  addr : IpAddr → String
  /-- `format_timestamp`. -/
  timestamp : I64 → String

/-- `FlowFeatures`: the columns, statistics as the lists that they summarise, and the
duration that the rates are computed from. -/
structure FlowFeatures where
  flowId : String
  srcIp : IpAddr
  srcPort : UInt16
  dstIp : IpAddr
  dstPort : UInt16
  protocol : UInt8
  timestamp : String
  durationNs : I64
  /-- In microseconds. -/
  flowDuration : ℤ
  totalFwdPacket : ℕ
  totalBwdPackets : ℕ
  fwdPacketLengths : List UInt64
  bwdPacketLengths : List UInt64
  flowIat : List I64
  fwdIat : List I64
  bwdIat : List I64
  fwdPshFlags : ℕ
  bwdPshFlags : ℕ
  fwdUrgFlags : ℕ
  bwdUrgFlags : ℕ
  fwdHeaderLength : UInt64
  bwdHeaderLength : UInt64
  packetLengths : List UInt64
  flagCounts : Vector ℕ 8
  fwdBulk : BulkState
  bwdBulk : BulkState
  subflows : ℕ
  fwdInitWinBytes : UInt16
  bwdInitWinBytes : UInt16
  fwdActDataPkts : ℕ
  fwdSegSizeMin : UInt64
  active : List I64
  idle : List I64
  label : String
  deriving DecidableEq, Repr

/-- `Flow::finish`. -/
def Flow.finish {ε : Type} (checks : Bool) (texts : Texts) (flow : Flow) (label : String) :
    Outcome ε FlowFeatures := do
  let flow ← flow.closeActive checks
  let durationNs := flow.lastTimestamp.saturatingSub flow.first.timestamp
  pure
    { flowId := texts.addr flow.first.srcIp ++ "-" ++ texts.addr flow.first.dstIp ++ "-" ++
        toString flow.first.srcPort ++ "-" ++ toString flow.first.dstPort ++ "-" ++
        toString flow.first.protocol
      srcIp := flow.first.srcIp
      srcPort := flow.first.srcPort
      dstIp := flow.first.dstIp
      dstPort := flow.first.dstPort
      protocol := flow.first.protocol
      timestamp := texts.timestamp flow.first.timestamp
      durationNs
      flowDuration := max durationNs.val 0 / 1000
      totalFwdPacket := flow.forward.length
      totalBwdPackets := flow.backward.length
      fwdPacketLengths := flow.forward.map Sample.payloadBytes
      bwdPacketLengths := flow.backward.map Sample.payloadBytes
      flowIat := flow.flowIat
      fwdIat := if 1 < flow.forward.length then flow.forwardIat else []
      bwdIat := if 1 < flow.backward.length then flow.backwardIat else []
      fwdPshFlags := flow.forwardPsh
      bwdPshFlags := flow.backwardPsh
      fwdUrgFlags := flow.forwardUrg
      bwdUrgFlags := flow.backwardUrg
      fwdHeaderLength := flow.forwardHeaders
      bwdHeaderLength := flow.backwardHeaders
      packetLengths := flow.flowLengths
      flagCounts := flow.flagCounts
      fwdBulk := flow.forwardBulk
      bwdBulk := flow.backwardBulk
      subflows := flow.subflows
      fwdInitWinBytes := flow.initialForwardWindow
      bwdInitWinBytes := flow.initialBackwardWindow
      fwdActDataPkts := flow.activeForwardData
      fwdSegSizeMin := flow.minForwardSegment
      active := flow.active
      idle := flow.idle
      label }

/-! ### The generator -/

/-- The hash map of the open flows. -/
abbrev Flows : Type := AList fun _ : FlowKey => Flow

/-- `FlowGenerator`. -/
structure FlowGenerator where
  flows : Flows
  flowTimeoutNs : I64
  activityTimeoutNs : I64

namespace FlowGenerator

variable {ε : Type}

/-- `FlowGenerator::new`. -/
def new (flowTimeoutNs activityTimeoutNs : I64) : FlowGenerator :=
  ⟨∅, flowTimeoutNs, activityTimeoutNs⟩

/-- `completed.push(flow.finish(label))`, for a flow of more than one packet. -/
def complete (checks : Bool) (texts : Texts) (flow : Flow) (label : String) :
    Outcome ε (List FlowFeatures) :=
  if 1 < flow.length then do
    let row ← flow.finish checks texts label
    pure [row]
  else
    pure []

/-- The flow has been silent for longer than the flow timeout. -/
def timedOut (g : FlowGenerator) (flow : Flow) (packet : FlowPacket) : Bool :=
  g.flowTimeoutNs < packet.timestamp.saturatingSub flow.lastTimestamp

/-- A packet that starts a flow. -/
def start (checks : Bool) (g : FlowGenerator) (packet : FlowPacket) : Outcome ε FlowGenerator := do
  let flow ← Flow.new checks packet g.activityTimeoutNs
  pure { g with flows := g.flows.insert (.fromPacket packet) flow }

/-- `FlowGenerator::add`: the rows that the packet closes. -/
def add (checks : Bool) (texts : Texts) (g : FlowGenerator) (packet : FlowPacket) (label : String) :
    Outcome ε (List FlowFeatures × FlowGenerator) :=
  let key := FlowKey.fromPacket packet
  let g' := { g with flows := g.flows.erase key }
  match g.flows.lookup key with
  | some flow =>
    if g.timedOut flow packet then do
      let completed ← complete checks texts flow label
      let g' ← g'.start checks packet
      pure (completed, g')
    else do
      let isRst := packet.tcpFlags.contains TcpFlags.RST
      let flow ← flow.add checks packet
      if isRst || flow.hasBothFin then do
        let completed ← complete checks texts flow label
        pure (completed, g')
      else
        pure ([], { g with flows := g'.flows.insert key flow })
  | none => do
    let g' ← g'.start checks packet
    pure ([], g')

/-- The order of the rows: by their timestamp, then by their flow, as texts. -/
def rowLe (left right : FlowFeatures) : Bool :=
  left.timestamp < right.timestamp ||
    (left.timestamp = right.timestamp && left.flowId ≤ right.flowId)

/-- The rows of all flows of more than one packet. -/
def completeAll (checks : Bool) (texts : Texts) (label : String) :
    List Flow → Outcome ε (List FlowFeatures)
  | [] => pure []
  | flow :: flows => do
    let rows ← complete checks texts flow label
    let rest ← completeAll checks texts label flows
    pure (rows ++ rest)

/-- `FlowGenerator::finish`, on the flows in the order in which the hash map hands
them out. -/
def finish (checks : Bool) (texts : Texts) (flows : List Flow) (label : String) :
    Outcome ε (List FlowFeatures) := do
  let rows ← completeAll checks texts label flows
  pure (rows.mergeSort rowLe)

/-- The packets of a capture, one after the other, and the rows that they close. -/
def addAll (checks : Bool) (texts : Texts) (label : String) :
    FlowGenerator → List FlowPacket → Outcome ε (List FlowFeatures × FlowGenerator)
  | g, [] => pure ([], g)
  | g, packet :: packets => do
    let (rows, g) ← g.add checks texts packet label
    let (rest, g) ← g.addAll checks texts label packets
    pure (rows ++ rest, g)

end FlowGenerator

/-- An order in which the hash map hands out its flows. -/
structure HashOrder where
  values : Flows → List Flow
  perm (flows : Flows) : (values flows).Perm (flows.entries.map Sigma.snd)

/-- The loop of `process_file`, and the rows that `finish` adds. -/
def FlowGenerator.run {ε : Type} (checks : Bool) (texts : Texts) (label : String)
    (order : HashOrder) (packets : List FlowPacket) (g : FlowGenerator) :
    Outcome ε (List FlowFeatures) := do
  let (rows, g) ← g.addAll checks texts label packets
  let last ← finish checks texts (order.values g.flows) label
  pure (rows ++ last)

end Cicflowmeter
end Maja
