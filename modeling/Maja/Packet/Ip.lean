/-
# Network-layer parsers

`src/packet/layer/ip` and `src/packet/layer/gre.rs`: IPv4, IPv6, the IPv6
extension headers, AH, ESP and GRE.
-/

import Maja.Packet.Link

namespace Maja
namespace Packet

open Lib

/-- `IpProtocol`; the constants that no parser dispatches on are among `other`. -/
inductive IpProtocol where
  | hopopt | icmp | igmp | ipv4 | tcp | udp | ipv6 | ipv6Route | ipv6Frag | gre | esp | ah
  | ipv6Icmp | ipv6NoNxt | ipv6Opts | sctp | mobilityHeader | hip | shim6
  | other (value : ℕ)
  deriving DecidableEq, Repr

/-- `IpProtocol::from(u8)`. -/
def IpProtocol.ofCode : ℕ → IpProtocol
  | 0 => hopopt
  | 1 => icmp
  | 2 => igmp
  | 4 => ipv4
  | 6 => tcp
  | 17 => udp
  | 41 => ipv6
  | 43 => ipv6Route
  | 44 => ipv6Frag
  | 47 => gre
  | 50 => esp
  | 51 => ah
  | 58 => ipv6Icmp
  | 59 => ipv6NoNxt
  | 60 => ipv6Opts
  | 132 => sctp
  | 135 => mobilityHeader
  | 139 => hip
  | 140 => shim6
  | value => other value

/-! ### IPv4 -/

/-- `Ipv4::MIN_LEN`. -/
@[simp] def Ipv4.MIN_LEN : ℕ := 20

namespace Ipv4Viewer

def version : Field := { lo := 0, hi := 1, spec := { size := 1, mask := 0xF0, shift := 4 } }
def ihl : Field := { lo := 0, hi := 1, spec := { size := 1, mask := 0x0F } }
def dscp : Field := { lo := 1, hi := 2, spec := { size := 1, mask := 0xFC, shift := 2 } }
def ecn : Field := { lo := 1, hi := 2, spec := { size := 1, mask := 0x03 } }
def tos : Field := { lo := 1, hi := 2, spec := { size := 1 } }
def totalLength : Field := { lo := 2, hi := 4, spec := { size := 2 } }
def identification : Field := { lo := 4, hi := 6, spec := { size := 2 } }
def flags : Field := { lo := 6, hi := 7, spec := { size := 1, mask := 0xE0, shift := 5 } }
def fragmentOffset : Field := { lo := 6, hi := 8, spec := { size := 2, mask := 0x1FFF } }
def ttl : Field := { lo := 8, hi := 9, spec := { size := 1 } }
def protocol : Field := { lo := 9, hi := 10, spec := { size := 1, mask := 0xFF } }
def checksum : Field := { lo := 10, hi := 12, spec := { size := 2 } }
def src : Field := { lo := 12, hi := 16, spec := { size := 4 } }
def dst : Field := { lo := 16, hi := 20, spec := { size := 4 } }

/-- `Ipv4Viewer::header_len`. -/
def headerLen {ε : Type} (data : List UInt8) : Outcome ε ℕ := do
  let ihl ← ihl.get data
  pure (ihl * 4)

end Ipv4Viewer

/-- `Ipv4::parse`. -/
def Ipv4.parse (table : ParseTable) (offset : ℕ) : ParseM Unit := do
  let minHeader ← require .ipv4 offset Ipv4.MIN_LEN
  let headerLen ← Prog.lift (Ipv4Viewer.headerLen minHeader)
  if headerLen < Ipv4.MIN_LEN then
    Prog.throw (.malformed .ipv4 "ihl"
      "header length is smaller than the minimum IPv4 header length")
  else
    let header ← require .ipv4 offset headerLen
    pushLayer .ipv4 offset headerLen
    let childOffset := offset + headerLen
    let totalLength ← Prog.lift (Ipv4Viewer.totalLength.get header)
    if totalLength ≠ 0 ∧ totalLength < headerLen then
      Prog.throw (.malformed .ipv4 "total length"
        "total length is smaller than the header length")
    else
      parsePayload (if totalLength ≠ 0 then some (offset + totalLength) else none) do
        let fragmentOffset ← Prog.lift (Ipv4Viewer.fragmentOffset.get header)
        if fragmentOffset ≠ 0 then
          parseRaw childOffset
        else
          let protocol ← Prog.lift (Ipv4Viewer.protocol.get header)
          match IpProtocol.ofCode protocol with
          | .icmp => parseChild table .icmp childOffset
          | .igmp => parseChild table .igmp childOffset
          | .gre => parseChild table .gre childOffset
          | .tcp => parseChild table .tcp childOffset
          | .udp => parseChild table .udp childOffset
          | .sctp => parseChild table .sctp childOffset
          | _ => parseRaw childOffset

/-- `Ipv4::display`. -/
def Ipv4.display (bytes : List UInt8) : Shown := do
  let src ← Ipv4Viewer.src.get bytes
  let dst ← Ipv4Viewer.dst.get bytes
  let totalLength ← Ipv4Viewer.totalLength.get bytes
  pure [.text "[Ipv4] ", .num src, .text " -> ", .num dst, .text " ", .num totalLength]

/-! ### The IPv6 next-header dispatcher -/

/-- `dispatch`. -/
def dispatch (table : ParseTable) (offset : ℕ) (nextHeader : IpProtocol) : ParseM Unit :=
  match nextHeader with
  | .hopopt => parseChild table .ipv6Hopopt offset
  | .ipv6Opts => parseChild table .ipv6DestOpts offset
  | .ipv6Route => parseChild table .ipv6Route offset
  | .ipv6Frag => parseChild table .ipv6Frag offset
  | .ah => parseChild table .ah offset
  | .mobilityHeader => parseChild table .ipv6Mobility offset
  | .hip => parseChild table .ipv6Hip offset
  | .shim6 => parseChild table .ipv6Shim6 offset
  | .esp => parseChild table .esp offset
  | .ipv6NoNxt => parseRaw offset
  | .tcp => parseChild table .tcp offset
  | .udp => parseChild table .udp offset
  | .gre => parseChild table .gre offset
  | .sctp => parseChild table .sctp offset
  | .ipv6Icmp => parseChild table .icmpv6 offset
  | .ipv4 => parseChild table .ipv4 offset
  | .ipv6 => parseChild table .ipv6 offset
  | _ => parseRaw offset

/-! ### IPv6 -/

/-- `Ipv6::MIN_LEN`. -/
@[simp] def Ipv6.MIN_LEN : ℕ := 40

namespace Ipv6Viewer

def trafficClass : Field := { lo := 0, hi := 2, spec := { size := 2, mask := 0x0FF0, shift := 4 } }
def payloadLength : Field := { lo := 4, hi := 6, spec := { size := 2 } }
def nextHeader : Field := { lo := 6, hi := 7, spec := { size := 1 } }
def hopLimit : Field := { lo := 7, hi := 8, spec := { size := 1 } }
def src : Field := { lo := 8, hi := 24, spec := { size := 16 } }
def dst : Field := { lo := 24, hi := 40, spec := { size := 16 } }

end Ipv6Viewer

/-- `Ipv6::parse`. -/
def Ipv6.parse (table : ParseTable) (offset : ℕ) : ParseM Unit := do
  let header ← require .ipv6 offset Ipv6.MIN_LEN
  let nextHeader ← Prog.lift (Ipv6Viewer.nextHeader.get header)
  pushLayer .ipv6 offset Ipv6.MIN_LEN
  let childOffset := offset + Ipv6.MIN_LEN
  let payloadLength ← Prog.lift (Ipv6Viewer.payloadLength.get header)
  parsePayload (if payloadLength ≠ 0 then some (childOffset + payloadLength) else none)
    (dispatch table childOffset (IpProtocol.ofCode nextHeader))

/-- `Ipv6::display`. -/
def Ipv6.display (bytes : List UInt8) : Shown := do
  let src ← Ipv6Viewer.src.get bytes
  let dst ← Ipv6Viewer.dst.get bytes
  let payloadLength ← Ipv6Viewer.payloadLength.get bytes
  pure [.text "[Ipv6] ", .num src, .text " -> ", .num dst, .text " ", .num payloadLength]

/-! ### Standard-layout extension headers -/

/-- `header::MIN_LEN`. -/
@[simp] def ExtHeader.MIN_LEN : ℕ := 2

namespace Ipv6ExtHeaderViewer

def nextHeader : Field := { lo := 0, hi := 1, spec := { size := 1 } }

/-- `Ipv6ExtHeaderViewer::header_len`: indexes the length octet directly. -/
def headerLen {ε : Type} (data : List UInt8) : Outcome ε ℕ := do
  let hdrExtLen ← Outcome.index data 1
  pure ((hdrExtLen.toNat + 1) * 8)

end Ipv6ExtHeaderViewer

/-- What `parse_ext_header` and `Ah::parse` do once they know the declared
length: trust it as far as the region reaches, and dispatch what follows. -/
def parseDeclaredHeader (table : ParseTable) (offset : ℕ) (protocol : Protocol) (declared : ℕ)
    (nextHeaderField : Field) : ParseM Unit := do
  let remaining ← rest offset
  let len := min declared remaining.length
  let header ← require protocol offset len
  let nextHeader ← Prog.lift (nextHeaderField.get header)
  pushLayer protocol offset len
  let behind ← rest (offset + len)
  if behind = [] then
    parseRaw (offset + len)
  else
    dispatch table (offset + len) (IpProtocol.ofCode nextHeader)

/-- `parse_ext_header`. -/
def parseExtHeader (table : ParseTable) (offset : ℕ) (protocol : Protocol) (fixedLen : ℕ) :
    ParseM Unit := do
  let minHeader ← require protocol offset ExtHeader.MIN_LEN
  let declared ← Prog.lift (Ipv6ExtHeaderViewer.headerLen minHeader)
  if declared < fixedLen then
    Prog.throw (.malformed protocol "header extension length"
      "the declared header is shorter than the fixed part")
  else
    parseDeclaredHeader table offset protocol declared Ipv6ExtHeaderViewer.nextHeader

/-- `Ipv6Hopopt::parse`. -/
def Ipv6Hopopt.parse (table : ParseTable) (offset : ℕ) : ParseM Unit :=
  parseExtHeader table offset .ipv6Hopopt ExtHeader.MIN_LEN

/-- `Ipv6DestOpts::parse`. -/
def Ipv6DestOpts.parse (table : ParseTable) (offset : ℕ) : ParseM Unit :=
  parseExtHeader table offset .ipv6DestOpts ExtHeader.MIN_LEN

/-- The display of an options header, under its name. -/
def displayOptions (name : String) (bytes : List UInt8) : Shown := do
  let nextHeader ← Ipv6ExtHeaderViewer.nextHeader.get bytes
  let headerLen ← Ipv6ExtHeaderViewer.headerLen bytes
  pure [.text name, .text " next=", .num nextHeader, .text " len=", .num headerLen]

/-- `Ipv6Hopopt::display`. -/
def Ipv6Hopopt.display (bytes : List UInt8) : Shown := displayOptions "[Ipv6Hopopt]" bytes

/-- `Ipv6DestOpts::display`. -/
def Ipv6DestOpts.display (bytes : List UInt8) : Shown := displayOptions "[Ipv6DestOpts]" bytes

/-- `Ipv6Route::MIN_LEN`. -/
@[simp] def Ipv6Route.MIN_LEN : ℕ := 4

namespace Ipv6RouteViewer

def routingType : Field := { lo := 2, hi := 3, spec := { size := 1 } }
def segmentsLeft : Field := { lo := 3, hi := 4, spec := { size := 1 } }

end Ipv6RouteViewer

/-- `Ipv6Route::parse`. -/
def Ipv6Route.parse (table : ParseTable) (offset : ℕ) : ParseM Unit :=
  parseExtHeader table offset .ipv6Route Ipv6Route.MIN_LEN

/-- `Ipv6Route::display`. -/
def Ipv6Route.display (bytes : List UInt8) : Shown := do
  let routingType ← Ipv6RouteViewer.routingType.get bytes
  let segmentsLeft ← Ipv6RouteViewer.segmentsLeft.get bytes
  let nextHeader ← Ipv6ExtHeaderViewer.nextHeader.get bytes
  pure [.text "[Ipv6Route] type=", .num routingType, .text " segments_left=", .num segmentsLeft,
    .text " next=", .num nextHeader]

/-- `Ipv6Mobility::MIN_LEN`. -/
@[simp] def Ipv6Mobility.MIN_LEN : ℕ := 6

/-- `Ipv6MobilityViewer::mh_type`. -/
def Ipv6MobilityViewer.mhType : Field := { lo := 2, hi := 3, spec := { size := 1 } }

/-- `Ipv6Mobility::parse`. -/
def Ipv6Mobility.parse (table : ParseTable) (offset : ℕ) : ParseM Unit :=
  parseExtHeader table offset .ipv6Mobility Ipv6Mobility.MIN_LEN

/-- `Ipv6Mobility::display`. -/
def Ipv6Mobility.display (bytes : List UInt8) : Shown := do
  let mhType ← Ipv6MobilityViewer.mhType.get bytes
  let nextHeader ← Ipv6ExtHeaderViewer.nextHeader.get bytes
  let headerLen ← Ipv6ExtHeaderViewer.headerLen bytes
  pure [.text "[Ipv6Mobility] type=", .num mhType, .text " payload=", .num nextHeader,
    .text " len=", .num headerLen]

/-- `Ipv6Hip::MIN_LEN`. -/
@[simp] def Ipv6Hip.MIN_LEN : ℕ := 40

namespace Ipv6HipViewer

def packetType : Field := { lo := 2, hi := 3, spec := { size := 1, mask := 0x7F } }
def version : Field := { lo := 3, hi := 4, spec := { size := 1, mask := 0xF0, shift := 4 } }

end Ipv6HipViewer

/-- `Ipv6Hip::parse`. -/
def Ipv6Hip.parse (table : ParseTable) (offset : ℕ) : ParseM Unit :=
  parseExtHeader table offset .ipv6Hip Ipv6Hip.MIN_LEN

/-- `Ipv6Hip::display`. -/
def Ipv6Hip.display (bytes : List UInt8) : Shown := do
  let packetType ← Ipv6HipViewer.packetType.get bytes
  let version ← Ipv6HipViewer.version.get bytes
  let headerLen ← Ipv6ExtHeaderViewer.headerLen bytes
  pure [.text "[Ipv6Hip] type=", .num packetType, .text " version=", .num version,
    .text " len=", .num headerLen]

/-- `Ipv6Shim6::MIN_LEN`. -/
@[simp] def Ipv6Shim6.MIN_LEN : ℕ := 6

namespace Ipv6Shim6Viewer

def isPayloadExtension : Field :=
  { lo := 2, hi := 3, spec := { size := 1, mask := 0x80, shift := 7 } }
def messageType : Field := { lo := 2, hi := 3, spec := { size := 1, mask := 0x7F } }

end Ipv6Shim6Viewer

/-- `Ipv6Shim6::parse`. -/
def Ipv6Shim6.parse (table : ParseTable) (offset : ℕ) : ParseM Unit :=
  parseExtHeader table offset .ipv6Shim6 Ipv6Shim6.MIN_LEN

/-- `Ipv6Shim6::display`. -/
def Ipv6Shim6.display (bytes : List UInt8) : Shown := do
  let isPayloadExtension ← Ipv6Shim6Viewer.isPayloadExtension.get bytes
  if isPayloadExtension ≠ 0 then
    let nextHeader ← Ipv6ExtHeaderViewer.nextHeader.get bytes
    pure [.text "[Ipv6Shim6] payload next=", .num nextHeader]
  else
    let messageType ← Ipv6Shim6Viewer.messageType.get bytes
    let headerLen ← Ipv6ExtHeaderViewer.headerLen bytes
    pure [.text "[Ipv6Shim6] type=", .num messageType, .text " len=", .num headerLen]

/-! ### Fragment header -/

/-- `Ipv6Frag::MIN_LEN`. -/
@[simp] def Ipv6Frag.MIN_LEN : ℕ := 8

namespace Ipv6FragViewer

def nextHeader : Field := { lo := 0, hi := 1, spec := { size := 1 } }
def fragmentOffset : Field :=
  { lo := 2, hi := 4, spec := { size := 2, mask := 0xFFF8, shift := 3 } }
def mFlag : Field := { lo := 3, hi := 4, spec := { size := 1, mask := 0x01 } }
def identification : Field := { lo := 4, hi := 8, spec := { size := 4 } }

end Ipv6FragViewer

/-- `Ipv6Frag::parse`. -/
def Ipv6Frag.parse (table : ParseTable) (offset : ℕ) : ParseM Unit := do
  let header ← require .ipv6Frag offset Ipv6Frag.MIN_LEN
  let nextHeader ← Prog.lift (Ipv6FragViewer.nextHeader.get header)
  pushLayer .ipv6Frag offset Ipv6Frag.MIN_LEN
  let fragmentOffset ← Prog.lift (Ipv6FragViewer.fragmentOffset.get header)
  if fragmentOffset ≠ 0 then
    parseRaw (offset + Ipv6Frag.MIN_LEN)
  else
    dispatch table (offset + Ipv6Frag.MIN_LEN) (IpProtocol.ofCode nextHeader)

/-- `Ipv6Frag::display`. -/
def Ipv6Frag.display (bytes : List UInt8) : Shown := do
  let fragmentOffset ← Ipv6FragViewer.fragmentOffset.get bytes
  let mFlag ← Ipv6FragViewer.mFlag.get bytes
  let identification ← Ipv6FragViewer.identification.get bytes
  let nextHeader ← Ipv6FragViewer.nextHeader.get bytes
  pure [.text "[Ipv6Frag] offset=", .num fragmentOffset, .text " m=", .num mFlag,
    .text " id=", .num identification, .text " next=", .num nextHeader]

/-! ### Authentication header and ESP -/

/-- `Ah::MIN_LEN`. -/
@[simp] def Ah.MIN_LEN : ℕ := 12

namespace AhViewer

def nextHeader : Field := { lo := 0, hi := 1, spec := { size := 1 } }
def spi : Field := { lo := 4, hi := 8, spec := { size := 4 } }
def sequence : Field := { lo := 8, hi := 12, spec := { size := 4 } }

/-- `AhViewer::header_len`: indexes the length octet directly. -/
def headerLen {ε : Type} (data : List UInt8) : Outcome ε ℕ := do
  let payloadLen ← Outcome.index data 1
  pure ((payloadLen.toNat + 2) * 4)

end AhViewer

/-- `Ah::parse`. -/
def Ah.parse (table : ParseTable) (offset : ℕ) : ParseM Unit := do
  let minHeader ← require .ah offset Ah.MIN_LEN
  let declared ← Prog.lift (AhViewer.headerLen minHeader)
  if declared < Ah.MIN_LEN then
    Prog.throw (.malformed .ah "payload length"
      "the declared header is shorter than the fixed part")
  else
    parseDeclaredHeader table offset .ah declared AhViewer.nextHeader

/-- `Ah::display`. -/
def Ah.display (bytes : List UInt8) : Shown := do
  let spi ← AhViewer.spi.get bytes
  let sequence ← AhViewer.sequence.get bytes
  let nextHeader ← AhViewer.nextHeader.get bytes
  pure [.text "[Ah] spi=", .num spi, .text " seq=", .num sequence, .text " next=", .num nextHeader]

/-- `Esp::MIN_LEN`. -/
@[simp] def Esp.MIN_LEN : ℕ := 8

namespace EspViewer

def spi : Field := { lo := 0, hi := 4, spec := { size := 4 } }
def sequence : Field := { lo := 4, hi := 8, spec := { size := 4 } }

end EspViewer

/-- `Esp::parse`. -/
def Esp.parse (offset : ℕ) : ParseM Unit := do
  let _ ← require .esp offset Esp.MIN_LEN
  pushLayer .esp offset Esp.MIN_LEN
  parseRaw (offset + Esp.MIN_LEN)

/-- `Esp::display`. -/
def Esp.display (bytes : List UInt8) : Shown := do
  let spi ← EspViewer.spi.get bytes
  let sequence ← EspViewer.sequence.get bytes
  pure [.text "[Esp] spi=", .num spi, .text " seq=", .num sequence]

/-! ### GRE -/

/-- `Gre::MIN_LEN`. -/
@[simp] def Gre.MIN_LEN : ℕ := 4

namespace GreFlags

/-- `GreFlags::CHECKSUM`. -/
def CHECKSUM : ℕ := 0x8000
/-- `GreFlags::KEY`. -/
def KEY : ℕ := 0x2000
/-- `GreFlags::SEQUENCE`. -/
def SEQUENCE : ℕ := 0x1000

/-- `flags.contains(flag)`. -/
def Contains (flags flag : ℕ) : Prop := flags &&& flag = flag

instance (flags flag : ℕ) : Decidable (Contains flags flag) :=
  inferInstanceAs (Decidable (_ = _))

end GreFlags

namespace GreViewer

def flags : Field := { lo := 0, hi := 2, spec := { size := 2, mask := 0xB000 } }
def protocolType : Field := { lo := 2, hi := 4, spec := { size := 2 } }

/-- The header length for a flags word. -/
def lenOfFlags (flags : ℕ) : ℕ :=
  Gre.MIN_LEN + (if GreFlags.Contains flags GreFlags.CHECKSUM then 4 else 0) +
    (if GreFlags.Contains flags GreFlags.KEY then 4 else 0) +
    (if GreFlags.Contains flags GreFlags.SEQUENCE then 4 else 0)

/-- `GreViewer::header_len`. -/
def headerLen {ε : Type} (data : List UInt8) : Outcome ε ℕ := do
  let flags ← flags.get data
  pure (lenOfFlags flags)

end GreViewer

/-- `Gre::parse`. -/
def Gre.parse (table : ParseTable) (offset : ℕ) : ParseM Unit := do
  let minHeader ← require .gre offset Gre.MIN_LEN
  let headerLen ← Prog.lift (GreViewer.headerLen minHeader)
  let header ← require .gre offset headerLen
  let protocolType ← Prog.lift (GreViewer.protocolType.get header)
  pushLayer .gre offset headerLen
  match EthType.ofCode protocolType with
  | .ipv4 => parseChild table .ipv4 (offset + headerLen)
  | .ipv6 => parseChild table .ipv6 (offset + headerLen)
  | _ => parseRaw (offset + headerLen)

/-- `Gre::display`. -/
def Gre.display (bytes : List UInt8) : Shown := do
  let protocolType ← GreViewer.protocolType.get bytes
  let flags ← GreViewer.flags.get bytes
  pure [.text "[Gre] ", .num protocolType, .text " ", .num flags]

end Packet
end Maja
