/-
# Transport and service parsers

`src/packet/layer/{tcp,udp,sctp,icmp,icmpv6,igmp,dns,dhcp,ntp,vxlan,tls}.rs`.
Several of them record everything up to the end of the region as one layer;
they differ in their name and in the bytes they require.
-/

import Maja.Packet.Context
import Maja.Packet.Display

namespace Maja
namespace Packet

open Lib

/-- Require a fixed header and record the rest of the region as the layer. -/
def parseToEnd (protocol : Protocol) (minLen offset : ℕ) : ParseM Unit := do
  let _ ← require protocol offset minLen
  let remaining ← rest offset
  pushLayer protocol offset remaining.length

/-! ### TLS -/

/-- `Tls::MIN_LEN`. -/
@[simp] def Tls.MIN_LEN : ℕ := 5

/-- `TlsContentType::Handshake`. -/
def TlsContentType.HANDSHAKE : ℕ := 22

namespace TlsViewer

def contentType : Field := { lo := 0, hi := 1, spec := { size := 1 } }
def legacyVersion : Field := { lo := 1, hi := 3, spec := { size := 2 } }
def length : Field := { lo := 3, hi := 5, spec := { size := 2 } }
def FIELD_HANDSHAKE_TYPE : Field := { lo := 5, hi := 6, spec := { size := 1 } }

/-- `TlsViewer::handshake_type`: looked up with `get`, so it may be absent. -/
def handshakeType {ε : Type} (data : List UInt8) : Outcome ε (Option ℕ) := do
  let contentType ← contentType.get data
  if contentType ≠ TlsContentType.HANDSHAKE then
    pure none
  else if FIELD_HANDSHAKE_TYPE.hi ≤ data.length then do
    let handshakeType ← FIELD_HANDSHAKE_TYPE.get data
    pure (some handshakeType)
  else
    pure none

end TlsViewer

/-- `looks_like_record`. -/
def Tls.looksLikeRecord (bytes : List UInt8) : Bool :=
  match bytes with
  | b₀ :: b₁ :: b₂ :: _ :: _ :: _ =>
    (20 ≤ b₀.toNat ∧ b₀.toNat ≤ 24) ∧ b₁.toNat = 0x03 ∧ b₂.toNat ≤ 0x04
  | _ => false

/-- `Tls::parse`: one record, whatever follows it. -/
def Tls.parse (offset : ℕ) : ParseM Unit := do
  let header ← require .tls offset Tls.MIN_LEN
  let length ← Prog.lift (TlsViewer.length.get header)
  let len := Tls.MIN_LEN + length
  let _ ← require .tls offset len
  pushLayer .tls offset len

/-- `Tls::display`. -/
def Tls.display (bytes : List UInt8) : Shown := do
  match ← TlsViewer.handshakeType bytes with
  | some handshakeType =>
    let contentType ← TlsViewer.contentType.get bytes
    let legacyVersion ← TlsViewer.legacyVersion.get bytes
    let length ← TlsViewer.length.get bytes
    pure [.text "[Tls] ", .num contentType, .text " ", .num handshakeType, .text " v",
      .num legacyVersion, .text " len ", .num length]
  | none =>
    let contentType ← TlsViewer.contentType.get bytes
    let legacyVersion ← TlsViewer.legacyVersion.get bytes
    let length ← TlsViewer.length.get bytes
    pure [.text "[Tls] ", .num contentType, .text " v", .num legacyVersion, .text " len ",
      .num length]

/-! ### TCP -/

/-- `Tcp::MIN_LEN`. -/
@[simp] def Tcp.MIN_LEN : ℕ := 20

/-- `Tcp::TLS_SERVICE_PORTS`. -/
def Tcp.TLS_SERVICE_PORTS : List ℕ := [443, 465, 636, 853, 990, 993, 995, 8443]

namespace TcpViewer

def srcPort : Field := { lo := 0, hi := 2, spec := { size := 2 } }
def dstPort : Field := { lo := 2, hi := 4, spec := { size := 2 } }
def seqNum : Field := { lo := 4, hi := 8, spec := { size := 4 } }
def ackNum : Field := { lo := 8, hi := 12, spec := { size := 4 } }
def dataOffset : Field := { lo := 12, hi := 13, spec := { size := 1, mask := 0xF0, shift := 4 } }
def flags : Field := { lo := 13, hi := 14, spec := { size := 1 } }
def windowSize : Field := { lo := 14, hi := 16, spec := { size := 2 } }
def checksum : Field := { lo := 16, hi := 18, spec := { size := 2 } }
def urgentPointer : Field := { lo := 18, hi := 20, spec := { size := 2 } }

/-- `TcpViewer::header_len`. -/
def headerLen {ε : Type} (data : List UInt8) : Outcome ε ℕ := do
  let dataOffset ← dataOffset.get data
  pure (dataOffset * 4)

end TcpViewer

/-- `is_tls_service_port`. -/
def IsTlsServicePort (port : ℕ) : Prop := port ∈ Tcp.TLS_SERVICE_PORTS

instance (port : ℕ) : Decidable (IsTlsServicePort port) :=
  inferInstanceAs (Decidable (_ ∈ Tcp.TLS_SERVICE_PORTS))

/-- `Tcp::parse`. -/
def Tcp.parse (table : ParseTable) (offset : ℕ) : ParseM Unit := do
  let minHeader ← require .tcp offset Tcp.MIN_LEN
  let headerLen ← Prog.lift (TcpViewer.headerLen minHeader)
  if headerLen < Tcp.MIN_LEN then
    Prog.throw (.malformed .tcp "data_offset"
      "header length is smaller than the minimum TCP header length")
  else
    let header ← require .tcp offset headerLen
    pushLayer .tcp offset headerLen
    let srcPort ← Prog.lift (TcpViewer.srcPort.get header)
    let dstPort ← Prog.lift (TcpViewer.dstPort.get header)
    let payload ← rest (offset + headerLen)
    if (IsTlsServicePort srcPort ∨ IsTlsServicePort dstPort) ∧ Tls.looksLikeRecord payload then
      parseChild table .tls (offset + headerLen)
    else
      parseRaw (offset + headerLen)

/-- `Tcp::display`. -/
def Tcp.display (bytes : List UInt8) : Shown := do
  let srcPort ← TcpViewer.srcPort.get bytes
  let dstPort ← TcpViewer.dstPort.get bytes
  let flags ← TcpViewer.flags.get bytes
  pure [.text "[Tcp] ", .num srcPort, .text " -> ", .num dstPort, .text " ", .num flags]

/-! ### UDP -/

namespace Udp

/-- `Udp::MIN_LEN`. -/
@[simp] def MIN_LEN : ℕ := 8

/-- `Udp::DNS_PORT`. -/
@[simp] def DNS_PORT : ℕ := 53
/-- `Udp::DHCP_SERVER_PORT`. -/
@[simp] def DHCP_SERVER_PORT : ℕ := 67
/-- `Udp::DHCP_CLIENT_PORT`. -/
@[simp] def DHCP_CLIENT_PORT : ℕ := 68
/-- `Udp::NTP_PORT`. -/
@[simp] def NTP_PORT : ℕ := 123
/-- `Udp::VXLAN_PORT`. -/
@[simp] def VXLAN_PORT : ℕ := 4789

end Udp

namespace UdpViewer

def srcPort : Field := { lo := 0, hi := 2, spec := { size := 2 } }
def dstPort : Field := { lo := 2, hi := 4, spec := { size := 2 } }
def length : Field := { lo := 4, hi := 6, spec := { size := 2 } }
def checksum : Field := { lo := 6, hi := 8, spec := { size := 2 } }

end UdpViewer

/-- The service that the `match` of `Udp::parse` picks for a pair of ports. -/
def Udp.service (srcPort dstPort : ℕ) : Option Protocol :=
  if srcPort = DNS_PORT ∨ dstPort = DNS_PORT then some .dns
  else if (srcPort = DHCP_SERVER_PORT ∨ srcPort = DHCP_CLIENT_PORT) ∨
      (dstPort = DHCP_SERVER_PORT ∨ dstPort = DHCP_CLIENT_PORT) then some .dhcp
  else if srcPort = NTP_PORT ∨ dstPort = NTP_PORT then some .ntp
  else if dstPort = VXLAN_PORT then some .vxlan
  else none

/-- `Udp::parse`. -/
def Udp.parse (table : ParseTable) (offset : ℕ) : ParseM Unit := do
  let header ← require .udp offset Udp.MIN_LEN
  pushLayer .udp offset Udp.MIN_LEN
  let srcPort ← Prog.lift (UdpViewer.srcPort.get header)
  let dstPort ← Prog.lift (UdpViewer.dstPort.get header)
  match Udp.service srcPort dstPort with
  | some protocol => parseChild table protocol (offset + Udp.MIN_LEN)
  | none => parseRaw (offset + Udp.MIN_LEN)

/-- The display of a pair of ports, under the protocol's name. -/
def displayPorts (name : String) (bytes : List UInt8) : Shown := do
  let srcPort ← UdpViewer.srcPort.get bytes
  let dstPort ← UdpViewer.dstPort.get bytes
  pure [.text name, .text " ", .num srcPort, .text " -> ", .num dstPort]

/-- `Udp::display`. -/
def Udp.display (bytes : List UInt8) : Shown := displayPorts "[Udp]" bytes

/-! ### SCTP, ICMP, IGMP -/

/-- `Sctp::parse`. -/
def Sctp.parse (offset : ℕ) : ParseM Unit := parseToEnd .sctp 12 offset

/-- `Sctp::display`. -/
def Sctp.display (bytes : List UInt8) : Shown := displayPorts "[Sctp]" bytes

namespace IcmpViewer

def messageType : Field := { lo := 0, hi := 1, spec := { size := 1 } }
def code : Field := { lo := 1, hi := 2, spec := { size := 1 } }

end IcmpViewer

/-- `Icmp::parse`. -/
def Icmp.parse (offset : ℕ) : ParseM Unit := parseToEnd .icmp 4 offset

/-- The display of an ICMP message, under the protocol's name. -/
def displayMessage (name : String) (bytes : List UInt8) : Shown := do
  let messageType ← IcmpViewer.messageType.get bytes
  let code ← IcmpViewer.code.get bytes
  pure [.text name, .text " ", .num messageType, .text " code ", .num code]

/-- `Icmp::display`. -/
def Icmp.display (bytes : List UInt8) : Shown := displayMessage "[Icmp]" bytes

/-- `Icmpv6::parse`. -/
def Icmpv6.parse (offset : ℕ) : ParseM Unit := parseToEnd .icmpv6 4 offset

/-- `Icmpv6::display`. -/
def Icmpv6.display (bytes : List UInt8) : Shown := displayMessage "[Icmpv6]" bytes

/-- `Igmp::MIN_LEN`. -/
@[simp] def Igmp.MIN_LEN : ℕ := 8

namespace IgmpViewer

def messageType : Field := { lo := 0, hi := 1, spec := { size := 1 } }
def groupAddr : Field := { lo := 4, hi := 8, spec := { size := 4 } }

end IgmpViewer

/-- `Igmp::parse`: eight bytes, whatever follows them. -/
def Igmp.parse (offset : ℕ) : ParseM Unit := do
  let _ ← require .igmp offset Igmp.MIN_LEN
  pushLayer .igmp offset Igmp.MIN_LEN

/-- `Igmp::display`. -/
def Igmp.display (bytes : List UInt8) : Shown := do
  let messageType ← IgmpViewer.messageType.get bytes
  let groupAddr ← IgmpViewer.groupAddr.get bytes
  pure [.text "[Igmp] ", .num messageType, .text " ", .num groupAddr]

/-! ### DNS, DHCP, NTP -/

namespace DnsViewer

def id : Field := { lo := 0, hi := 2, spec := { size := 2 } }
def opcode : Field := { lo := 2, hi := 3, spec := { size := 1, mask := 0x78, shift := 3 } }
def qdcount : Field := { lo := 4, hi := 6, spec := { size := 2 } }
def ancount : Field := { lo := 6, hi := 8, spec := { size := 2 } }

end DnsViewer

/-- `Dns::parse`. -/
def Dns.parse (offset : ℕ) : ParseM Unit := parseToEnd .dns 12 offset

/-- `Dns::display`. -/
def Dns.display (bytes : List UInt8) : Shown := do
  let id ← DnsViewer.id.get bytes
  let opcode ← DnsViewer.opcode.get bytes
  let qdcount ← DnsViewer.qdcount.get bytes
  let ancount ← DnsViewer.ancount.get bytes
  pure [.text "[Dns] id ", .num id, .text " ", .num opcode, .text " qd ", .num qdcount,
    .text " an ", .num ancount]

namespace DhcpViewer

def op : Field := { lo := 0, hi := 1, spec := { size := 1 } }
def xid : Field := { lo := 4, hi := 8, spec := { size := 4 } }
def yiaddr : Field := { lo := 16, hi := 20, spec := { size := 4 } }

end DhcpViewer

/-- `Dhcp::parse`. -/
def Dhcp.parse (offset : ℕ) : ParseM Unit := parseToEnd .dhcp 240 offset

/-- `Dhcp::display`. -/
def Dhcp.display (bytes : List UInt8) : Shown := do
  let op ← DhcpViewer.op.get bytes
  let xid ← DhcpViewer.xid.get bytes
  let yiaddr ← DhcpViewer.yiaddr.get bytes
  pure [.text "[Dhcp] ", .num op, .text " xid ", .num xid, .text " ", .num yiaddr]

namespace NtpViewer

def version : Field := { lo := 0, hi := 1, spec := { size := 1, mask := 0x38, shift := 3 } }
def mode : Field := { lo := 0, hi := 1, spec := { size := 1, mask := 0x07 } }
def stratum : Field := { lo := 1, hi := 2, spec := { size := 1 } }

end NtpViewer

/-- `Ntp::parse`. -/
def Ntp.parse (offset : ℕ) : ParseM Unit := parseToEnd .ntp 48 offset

/-- `Ntp::display`. -/
def Ntp.display (bytes : List UInt8) : Shown := do
  let version ← NtpViewer.version.get bytes
  let mode ← NtpViewer.mode.get bytes
  let stratum ← NtpViewer.stratum.get bytes
  pure [.text "[Ntp] v", .num version, .text " ", .num mode, .text " stratum ", .num stratum]

/-! ### VXLAN -/

/-- `Vxlan::MIN_LEN`. -/
@[simp] def Vxlan.MIN_LEN : ℕ := 8

/-- `VxlanViewer::vni`. -/
def VxlanViewer.vni : Field := { lo := 4, hi := 7, spec := { size := 3 } }

/-- `Vxlan::parse`. -/
def Vxlan.parse (table : ParseTable) (offset : ℕ) : ParseM Unit := do
  let _ ← require .vxlan offset Vxlan.MIN_LEN
  pushLayer .vxlan offset Vxlan.MIN_LEN
  parseChild table .eth (offset + Vxlan.MIN_LEN)

/-- `Vxlan::display`. -/
def Vxlan.display (bytes : List UInt8) : Shown := do
  let vni ← VxlanViewer.vni.get bytes
  pure [.text "[Vxlan] vni ", .num vni]

end Packet
end Maja
