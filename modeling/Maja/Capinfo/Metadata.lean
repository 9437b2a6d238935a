/-
# Packet metadata

`PacketMetadata` and `extract_packet_metadata` of `tools/maja-capinfo/src`, and
`flow_id` of its `analysis.rs`.  The fields of the columns that only the dump of all
packets holds are read as the rest is, and not kept.
-/

import Maja.Net.FlowId
import Maja.Packet.Access

namespace Maja
namespace Capinfo

open Lib Net Packet

/-- `PacketMetadata`. -/
structure PacketMetadata where
  timestamp : I64
  length : UInt32
  srcIp : Option IpAddr := none
  dstIp : Option IpAddr := none
  ipProto : Option UInt8 := none
  srcPort : Option UInt16 := none
  dstPort : Option UInt16 := none
  deriving DecidableEq, Repr

/-- `flow_id`. -/
def flowId (metadata : PacketMetadata) : Option FlowId := do
  let src ← metadata.srcIp
  let dst ← metadata.dstIp
  let code ← metadata.ipProto
  match IpProtocol.ofCode code.toNat with
  | .tcp => pure (.tuple5Symmetric src dst (← metadata.srcPort) (← metadata.dstPort) .tcp)
  | .udp => pure (.tuple5Symmetric src dst (← metadata.srcPort) (← metadata.dstPort) .udp)
  | protocol => pure (.tuple3Symmetric src dst protocol)

variable {ε : Type}

/-- The link type of `extract_packet_metadata`: a column of the dump. -/
def readLinkType (parsed : Maja.Packet) : Outcome ε Unit := do
  match ← parsed.nthLayerViewer .eth 0 with
  | some eth =>
    let _ ← EthViewer.ethType.get eth
    pure ()
  | none =>
    match ← parsed.nthLayerViewer .sll 0 with
    | some sll =>
      let _ ← SllViewer.protocolType.get sll
      pure ()
    | none => pure ()

/-- The addresses of `extract_packet_metadata`, and the protocol that their header
names: of the innermost IPv4 header, else of the innermost IPv6 header. -/
def withAddresses (parsed : Maja.Packet) (metadata : PacketMetadata) : Outcome ε PacketMetadata := do
  match ← parsed.nthLayerViewer .ipv4 0 with
  | some ipv4 =>
    let src ← Ipv4Viewer.src.get ipv4
    let dst ← Ipv4Viewer.dst.get ipv4
    let protocol ← Ipv4Viewer.protocol.get ipv4
    let _ ← Ipv4Viewer.tos.get ipv4
    let _ ← Ipv4Viewer.ttl.get ipv4
    let _ ← Ipv4Viewer.totalLength.get ipv4
    pure { metadata with
      srcIp := some (.v4 (BitVec.ofNat 32 src))
      dstIp := some (.v4 (BitVec.ofNat 32 dst))
      ipProto := some (UInt8.ofNat protocol) }
  | none =>
    match ← parsed.nthLayerViewer .ipv6 0 with
    | some ipv6 =>
      let src ← Ipv6Viewer.src.get ipv6
      let dst ← Ipv6Viewer.dst.get ipv6
      let nextHeader ← Ipv6Viewer.nextHeader.get ipv6
      let _ ← Ipv6Viewer.trafficClass.get ipv6
      let _ ← Ipv6Viewer.hopLimit.get ipv6
      pure { metadata with
        srcIp := some (.v6 (BitVec.ofNat 128 src))
        dstIp := some (.v6 (BitVec.ofNat 128 dst))
        ipProto := some (UInt8.ofNat nextHeader) }
    | none => pure metadata

/-- The ports of `extract_packet_metadata`, which set the protocol again: of the
innermost TCP layer, else of the innermost UDP layer. -/
def withPorts (parsed : Maja.Packet) (metadata : PacketMetadata) : Outcome ε PacketMetadata := do
  match ← parsed.nthLayerViewer .tcp 0 with
  | some tcp =>
    let srcPort ← TcpViewer.srcPort.get tcp
    let dstPort ← TcpViewer.dstPort.get tcp
    let _ ← TcpViewer.flags.get tcp
    let _ ← TcpViewer.windowSize.get tcp
    let _ ← TcpViewer.dataOffset.get tcp
    pure { metadata with
      ipProto := some 6
      srcPort := some (UInt16.ofNat srcPort)
      dstPort := some (UInt16.ofNat dstPort) }
  | none =>
    match ← parsed.nthLayerViewer .udp 0 with
    | some udp =>
      let srcPort ← UdpViewer.srcPort.get udp
      let dstPort ← UdpViewer.dstPort.get udp
      let _ ← UdpViewer.length.get udp
      pure { metadata with
        ipProto := some 17
        srcPort := some (UInt16.ofNat srcPort)
        dstPort := some (UInt16.ofNat dstPort) }
    | none => pure metadata

/-- `extract_packet_metadata`. -/
def extractPacketMetadata (parsed : Maja.Packet) (metadata : PacketMetadata) :
    Outcome ε PacketMetadata := do
  readLinkType parsed
  let metadata ← withAddresses parsed metadata
  if metadata.srcIp.isSome then withPorts parsed metadata else pure metadata

end Capinfo
end Maja
