/-
# Flows of splitcap

The flow key of a packet and the name of its file: `process_packet`,
`SplitFlowId` and `to_filename` of `src/tools/maja-splitcap/src/main.rs`.  A flow id is
any `FlowId`, but splitcap makes them of IPv4 addresses only.
-/

import Maja.Capture.Basic
import Maja.Net.FlowId
import Maja.Packet.Access

namespace Maja
namespace Splitcap

open Lib Capture Net Packet

/-! ### Texts of addresses and protocols -/

/-- `Ipv4Addr`. -/
abbrev Ipv4Addr : Type := BitVec 32

/-- `Display for Ipv4Addr`: the four octets with dots between them. -/
def Ipv4Addr.display (addr : Ipv4Addr) : String :=
  let octet (i : ℕ) := toString (addr.toNat / 256 ^ i % 256)
  octet 3 ++ "." ++ octet 2 ++ "." ++ octet 1 ++ "." ++ octet 0

/-- The groups of an IPv6 address, as `Ipv6Addr::segments` has them. -/
def ipv6Segments (addr : BitVec 128) : List ℕ :=
  (List.range 8).map fun i => addr.toNat / 65536 ^ (7 - i) % 65536

/-- The start and length of the first of the longest runs of zeros.  `current` is the run
that ends here. -/
def longestZeros : List (ℕ × ℕ) → (current longest : ℕ × ℕ) → ℕ × ℕ
  | [], _, longest => longest
  | (segment, i) :: segments, current, longest =>
    if segment = 0 then
      let current := (if current.2 = 0 then i else current.1, current.2 + 1)
      longestZeros segments current (if longest.2 < current.2 then current else longest)
    else longestZeros segments (0, 0) longest

/-- `Display for Ipv6Addr`: the groups in hexadecimal, with `::` for the longest run of
zeros, and a mapped IPv4 address in its own notation. -/
def displayIpv6 (addr : BitVec 128) : String :=
  let segments := ipv6Segments addr
  let text (segments : List ℕ) : String :=
    ":".intercalate (segments.map fun segment => String.ofList (Nat.toDigits 16 segment))
  if segments.take 6 = [0, 0, 0, 0, 0, 0xFFFF] then
    "::ffff:" ++ Ipv4Addr.display (addr.setWidth 32)
  else
    let (start, len) := longestZeros segments.zipIdx (0, 0) (0, 0)
    if 1 < len then text (segments.take start) ++ "::" ++ text (segments.drop (start + len))
    else text segments

/-- `Display for IpAddr`. -/
def displayIp : IpAddr → String
  | .v4 addr => Ipv4Addr.display addr
  | .v6 addr => displayIpv6 addr

example : (displayIpv6 0x20010DB8000000000001000000000001, displayIpv6 0,
    displayIpv6 0xFFFF0A000001) = ("2001:db8::1:0:0:1", "::", "::ffff:10.0.0.1") := by
  decide +kernel

/-- `u8::from(IpProtocol)`. -/
def protocolCode : IpProtocol → ℕ
  | .hopopt => 0
  | .icmp => 1
  | .igmp => 2
  | .ipv4 => 4
  | .tcp => 6
  | .udp => 17
  | .ipv6 => 41
  | .ipv6Route => 43
  | .ipv6Frag => 44
  | .gre => 47
  | .esp => 50
  | .ah => 51
  | .ipv6Icmp => 58
  | .ipv6NoNxt => 59
  | .ipv6Opts => 60
  | .sctp => 132
  | .mobilityHeader => 135
  | .hip => 139
  | .shim6 => 140
  | .other value => value

/-- A code survives the conversion into a protocol and back. -/
@[simp] theorem protocolCode_ofCode (code : ℕ) : protocolCode (.ofCode code) = code := by
  unfold IpProtocol.ofCode
  split <;> rfl

/-- The variants of `IpProtocol` in the order of their codes. -/
def protocolNames : List String :=
  ["Hopopt", "Icmp", "Igmp", "Ggp", "Ipv4", "St", "Tcp", "Cbt", "Egp", "Igp", "BbnRccMon",
    "NvpII", "Pup", "Argus", "Emcon", "Xnet", "Chaos", "Udp", "Mux", "DcnMeas", "Hmp", "Prm",
    "XnsIdp", "Trunk1", "Trunk2", "Leaf1", "Leaf2", "Rdp", "Irtp", "IsoTp4", "Netblt", "MfeNsp",
    "MeritInp", "Dccp", "ThreePc", "Idpr", "Xtp", "Ddp", "IdprCmtp", "TpPlusPlus", "Il", "Ipv6",
    "Sdrp", "Ipv6Route", "Ipv6Frag", "Idrp", "Rsvp", "Gre", "Dsr", "Bna", "Esp", "Ah", "INlsp",
    "Swipe", "Narp", "Mobile", "Tlsp", "Skip", "Ipv6Icmp", "Ipv6NoNxt", "Ipv6Opts",
    "AnyHostInternalProtocol", "Cftp", "AnyLocalNetwork", "SatExpak", "Kryptolan", "Rvd", "Ippc",
    "AnyDistributedFileSystem", "SatMon", "Visa", "Ipcv", "Cpnx", "Cphb", "Wsn", "Pvp",
    "BrSatMon", "SunNd", "WbMon", "WbExpak", "IsoIp", "Vmtp", "SecureVmtp", "Vines", "Iptm",
    "NsfnetIgp", "Dgp", "Tcf", "Eigrp", "Ospfigp", "SpriteRpc", "Larp", "Mtp", "Ax25", "IpIp",
    "Micp", "SccSp", "Etherip", "Encap", "AnyPrivateEncryptionScheme", "Gmtp", "Ifmp", "Pnni",
    "Pim", "Aris", "Scps", "Qnx", "AN", "IpComp", "Snp", "CompaqPeer", "IpxInIp", "Vrrp", "Pgm",
    "Any0HopProtocol", "L2tp", "Ddx", "Iatp", "Stp", "Srp", "Uti", "Smp", "Sm", "Ptp",
    "IsisOverIpv4", "Fire", "Crtp", "Crudp", "Sscopmce", "Iplt", "Sps", "Pipe", "Sctp", "Fc",
    "RsvpE2eIgnore", "MobilityHeader", "UdpLite", "MplsInIp", "Manet", "Hip", "Shim6", "Wesp",
    "Rohc", "Ethernet", "Aggfrag", "Nsh"]

/-- `Display for IpProtocol`: the name of the variant.  All codes without a variant of
their own are `Reserved`. -/
def protocolName (protocol : IpProtocol) : String :=
  protocolNames[protocolCode protocol]?.getD "Reserved"

/-! ### Flow ids -/

/-- `SplitGranularity`. -/
inductive SplitGranularity where
  | srcIp
  | dstIp
  | tuple2
  | tuple2Sym
  | tuple3
  | tuple3Sym
  | tuple4
  | tuple4Sym
  | tuple5
  | tuple5Sym
  deriving DecidableEq, Repr

/-- `FlowInfo`. -/
structure FlowInfo where
  srcIp : IpAddr
  dstIp : IpAddr
  protocol : IpProtocol
  srcPort : UInt16
  dstPort : UInt16
  deriving DecidableEq, Repr

/-- `flow_id_filename`. -/
def flowIdFilename : FlowId → String
  | .ip addr => displayIp addr ++ ".pcap"
  | .tuple2 ip1 ip2 => displayIp ip1 ++ "_" ++ displayIp ip2 ++ ".pcap"
  | .tuple3 ip1 ip2 protocol =>
    displayIp ip1 ++ "_" ++ displayIp ip2 ++ "_" ++ protocolName protocol ++ ".pcap"
  | .tuple4 ip1 ip2 port1 port2 =>
    displayIp ip1 ++ ":" ++ toString port1.toNat ++ "_" ++ displayIp ip2 ++ ":" ++
      toString port2.toNat ++ ".pcap"
  | .tuple5 ip1 ip2 port1 port2 protocol =>
    displayIp ip1 ++ ":" ++ toString port1.toNat ++ "_" ++ displayIp ip2 ++ ":" ++
      toString port2.toNat ++ "_" ++ protocolName protocol ++ ".pcap"

/-- `SplitFlowId`. -/
inductive SplitFlowId where
  | symmetric (id : FlowId)
  | asymmetric (id : FlowId)
  deriving DecidableEq, Repr

namespace SplitFlowId

/-- `SplitFlowId::from_info`. -/
def fromInfo (granularity : SplitGranularity) (info : FlowInfo) : SplitFlowId :=
  match granularity with
  | .srcIp => asymmetric (.ip info.srcIp)
  | .dstIp => asymmetric (.ip info.dstIp)
  | .tuple2 => asymmetric (.tuple2 info.srcIp info.dstIp)
  | .tuple2Sym => symmetric (.tuple2Symmetric info.srcIp info.dstIp)
  | .tuple3 => asymmetric (.tuple3 info.srcIp info.dstIp info.protocol)
  | .tuple3Sym => symmetric (.tuple3Symmetric info.srcIp info.dstIp info.protocol)
  | .tuple4 => asymmetric (.tuple4 info.srcIp info.dstIp info.srcPort info.dstPort)
  | .tuple4Sym => symmetric (.tuple4Symmetric info.srcIp info.dstIp info.srcPort info.dstPort)
  | .tuple5 =>
    asymmetric (.tuple5 info.srcIp info.dstIp info.srcPort info.dstPort info.protocol)
  | .tuple5Sym =>
    symmetric (.tuple5Symmetric info.srcIp info.dstIp info.srcPort info.dstPort info.protocol)

/-- `SplitFlowId::to_filename`. -/
def toFilename : SplitFlowId → String
  | symmetric id => flowIdFilename id
  | asymmetric id => flowIdFilename id

end SplitFlowId

/-! ### Packets -/

section Process

variable {ε : Type}

/-- The ports of `process_packet`: of the innermost TCP layer, else of the innermost
UDP layer, else zero. -/
def portsOf (parsed : Maja.Packet) : Outcome ε (UInt16 × UInt16) := do
  match ← parsed.nthLayerViewer .tcp 0 with
  | some tcp => pure (.ofNat (← TcpViewer.srcPort.get tcp), .ofNat (← TcpViewer.dstPort.get tcp))
  | none =>
    match ← parsed.nthLayerViewer .udp 0 with
    | some udp => pure (.ofNat (← UdpViewer.srcPort.get udp), .ofNat (← UdpViewer.dstPort.get udp))
    | none => pure (0, 0)

/-- `process_packet`, of the parsed packet. -/
def flowInfo (parsed : Maja.Packet) : Outcome ε (Option FlowInfo) := do
  match ← parsed.nthLayerViewer .ipv4 0 with
  | some ipv4 =>
    let protocol ← Ipv4Viewer.protocol.get ipv4
    let (srcPort, dstPort) ← portsOf parsed
    let src ← Ipv4Viewer.src.get ipv4
    let dst ← Ipv4Viewer.dst.get ipv4
    pure (some ⟨.v4 (.ofNat 32 src), .v4 (.ofNat 32 dst), .ofCode protocol, srcPort, dstPort⟩)
  | none => pure none

/-- `process_packet`. -/
def processPacket (packet : PacketRecord) : Outcome ε (Option FlowInfo) :=
  match tryParseWithLinkType (packet.data.length + 1) packet.linkType {} (.new packet.data) with
  | .ok ((), parsed) => flowInfo parsed
  | .err _ => pure none
  | .panic => .panic
  | .outOfFuel => .outOfFuel

end Process

end Splitcap
end Maja
