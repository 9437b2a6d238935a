/-
# The two modes of splitcap

`single_pass_split` and `two_pass_split` of `src/tools/maja-splitcap/src/main.rs`:
the first keeps all packets by flow and writes flow by flow, the second counts the
packets of the flows, selects flows and reads the capture again to write the packets
of these.

A run leaves the files that its writers were opened for, each with what its writer
wrote.  Two flows may have one file name, and then two writers fill one file: what
they make of it together is not said here.  The order in which a hash map is iterated
is a parameter of a run.
-/

import Maja.Capture.PcapWriter
import Maja.Capture.Sniffed
import Maja.Lib.Largest
import Maja.Lib.Table
import Maja.Splitcap.Flow

namespace Maja
namespace Splitcap

open Lib Capture

/-- `Cli`, less the paths and the choice of the mode. -/
structure Cli where
  granularity : SplitGranularity := .tuple5Sym
  number : ℕ := 0
  snapLen : Option ℕ := none
  nanosecond : Option Bool := none
  deriving DecidableEq, Repr

/-- `OutputPcapConfig`. -/
structure OutputPcapConfig where
  snapLen : ℕ
  nanosecond : Bool
  deriving DecidableEq, Repr

/-- `output_pcap_config`. -/
def outputPcapConfig (reader : SniffedReader) (args : Cli) : OutputPcapConfig where
  snapLen := (args.snapLen.or (reader.interfaces.head?.map Interface.snapLen)).getD 65535
  nanosecond := args.nanosecond.getD <|
    match reader with
    | .pcap reader => reader.nanosecond
    | .pcapng _ => reader.interfaces.any fun interface => interface.resolution = .powerOfTen 9

/-- The writer of `create_writer`. -/
def createWriter (config : OutputPcapConfig) (linkType : LinkType) : PcapWriter :=
  .new false config.nanosecond config.snapLen linkType

/-- A file that a run created, with what its writer wrote. -/
structure OutputFile where
  name : String
  bytes : List UInt8
  deriving DecidableEq, Repr

/-! ### Reading -/

/-- `while let Some(packet) = reader.next_packet()?`. -/
def readPackets {σ : Type} (body : PacketRecord → σ → Outcome CaptureError σ) :
    ℕ → SniffedReader → σ → Outcome CaptureError (SniffedReader × σ)
  | 0, _, _ => .outOfFuel
  | fuel + 1, reader, s =>
    match reader.nextPacket with
    | .ok (some packet, reader) => do
      let s ← body packet s
      readPackets body fuel reader s
    | .ok (none, reader) => .ok (reader, s)
    | .err (e, _) => .err e
    | .panic => .panic
    | .outOfFuel => .outOfFuel

/-- The body of all three loops: a packet without a flow is skipped. -/
def forFlow {σ : Type} (granularity : SplitGranularity)
    (step : SplitFlowId → PacketRecord → σ → σ) (packet : PacketRecord) (s : σ) :
    Outcome CaptureError σ := do
  match ← processPacket packet with
  | none => pure s
  | some info => pure (step (.fromInfo granularity info) packet s)

/-- The packets of each flow. -/
abbrev Flows : Type := Table SplitFlowId (List PacketRecord)

/-- The number of packets of each flow. -/
abbrev FlowCounts : Type := Table SplitFlowId ℕ

/-- The open writers. -/
abbrev Writers : Type := Table SplitFlowId PcapWriter

/-- `flows.entry(flow_key).or_default().push_back(packet)`. -/
def pushPacket (flowKey : SplitFlowId) (packet : PacketRecord) (flows : Flows) : Flows :=
  flows.upsert flowKey [] fun packets => packets ++ [packet]

/-- `*flow_counts.entry(flow_key).or_default() += 1`. -/
def countPacket (flowKey : SplitFlowId) (_ : PacketRecord) (counts : FlowCounts) : FlowCounts :=
  counts.upsert flowKey 0 fun count => count + 1

/-- The second pass: a selected flow has its writer opened at its first packet. -/
def extractPacket (config : OutputPcapConfig) (selected : List SplitFlowId)
    (flowKey : SplitFlowId) (packet : PacketRecord) (writers : Writers) : Writers :=
  if flowKey ∈ selected then
    writers.upsert flowKey (createWriter config packet.linkType) fun w => w.writePacket packet
  else writers

/-! ### The modes -/

/-- An entry of a hash map of flows. -/
abbrev FlowEntry (α : Type) : Type := Σ _ : SplitFlowId, α

/-- The file of a flow and its packets, which are at least one. -/
def writeFlow (config : OutputPcapConfig) (flow : FlowEntry (List PacketRecord)) :
    Option OutputFile :=
  flow.2.head?.map fun firstPacket =>
    ⟨flow.1.toFilename,
      (flow.2.foldl PcapWriter.writePacket (createWriter config firstPacket.linkType)).written⟩

/-- `single_pass_split`. -/
def singlePassSplit (order : IterOrder (FlowEntry (List PacketRecord))) (args : Cli)
    (input : List UInt8) : Outcome CaptureError (List OutputFile) := do
  let reader ← SniffedReader.new input
  let (reader, flows) ←
    readPackets (forFlow args.granularity pushPacket) (input.length + 1) reader ∅
  let config := outputPcapConfig reader args
  let selected := largest (fun flow => flow.2.length) args.number (order.arrange flows.entries)
  pure (selected.filterMap (writeFlow config))

/-- `two_pass_split`. -/
def twoPassSplit (order : IterOrder (FlowEntry ℕ)) (args : Cli) (input : List UInt8) :
    Outcome CaptureError (List OutputFile) := do
  let reader ← SniffedReader.new input
  let (reader, counts) ←
    readPackets (forFlow args.granularity countPacket) (input.length + 1) reader ∅
  let config := outputPcapConfig reader args
  let selected := (largest Sigma.snd args.number (order.arrange counts.entries)).map Sigma.fst
  let reader ← SniffedReader.new input
  let (_, writers) ←
    readPackets (forFlow args.granularity (extractPacket config selected)) (input.length + 1)
      reader ∅
  pure (writers.entries.map fun entry => ⟨entry.1.toFilename, entry.2.written⟩)

end Splitcap
end Maja
