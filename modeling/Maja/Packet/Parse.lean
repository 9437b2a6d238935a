/-
# Parsing a packet

The table of parsers and the entry points of `src/packet.rs`.  The parsers call
one another through the table; its recursion is cut off by fuel, and how much of
it a packet needs is a theorem.
-/

import Maja.Packet.Ip
import Maja.Packet.Transport

namespace Maja
namespace Packet

open Lib

/-- `P::parse`, calling its children through the table. -/
def Protocol.parse (table : ParseTable) : Protocol → ℕ → ParseM Unit
  | .eth => Eth.parse table
  | .vlan => Vlan.parse table
  | .llc => Llc.parse table
  | .sll => Sll.parse table
  | .mpls => Mpls.parse table
  | .arp => Arp.parse
  | .ipv4 => Ipv4.parse table
  | .ipv6 => Ipv6.parse table
  | .ipv6Hopopt => Ipv6Hopopt.parse table
  | .ipv6DestOpts => Ipv6DestOpts.parse table
  | .ipv6Route => Ipv6Route.parse table
  | .ipv6Frag => Ipv6Frag.parse table
  | .ah => Ah.parse table
  | .ipv6Mobility => Ipv6Mobility.parse table
  | .ipv6Hip => Ipv6Hip.parse table
  | .ipv6Shim6 => Ipv6Shim6.parse table
  | .esp => Esp.parse
  | .gre => Gre.parse table
  | .tcp => Tcp.parse table
  | .udp => Udp.parse table
  | .sctp => Sctp.parse
  | .icmp => Icmp.parse
  | .icmpv6 => Icmpv6.parse
  | .igmp => Igmp.parse
  | .dns => Dns.parse
  | .dhcp => Dhcp.parse
  | .ntp => Ntp.parse
  | .vxlan => Vxlan.parse table
  | .tls => Tls.parse
  | .raw => Raw.parse

/-- The parsers, with at most `fuel` of them entered inside one another. -/
def parsers : ℕ → ParseTable
  | 0 => fun _ _ => Prog.lift .outOfFuel
  | fuel + 1 => Protocol.parse (parsers fuel)

/-- `Protocol::display`. -/
def Protocol.display : Protocol → List UInt8 → Shown
  | .eth => Eth.display
  | .vlan => Vlan.display
  | .llc => Llc.display
  | .sll => Sll.display
  | .mpls => Mpls.display
  | .arp => Arp.display
  | .ipv4 => Ipv4.display
  | .ipv6 => Ipv6.display
  | .ipv6Hopopt => Ipv6Hopopt.display
  | .ipv6DestOpts => Ipv6DestOpts.display
  | .ipv6Route => Ipv6Route.display
  | .ipv6Frag => Ipv6Frag.display
  | .ah => Ah.display
  | .ipv6Mobility => Ipv6Mobility.display
  | .ipv6Hip => Ipv6Hip.display
  | .ipv6Shim6 => Ipv6Shim6.display
  | .esp => Esp.display
  | .gre => Gre.display
  | .tcp => Tcp.display
  | .udp => Udp.display
  | .sctp => Sctp.display
  | .icmp => Icmp.display
  | .icmpv6 => Icmpv6.display
  | .igmp => Igmp.display
  | .dns => Dns.display
  | .dhcp => Dhcp.display
  | .ntp => Ntp.display
  | .vxlan => Vxlan.display
  | .tls => Tls.display
  | .raw => Raw.display

end Packet

/-- `Packet`: the bytes and the layers found in them. -/
structure Packet where
  bytes : List UInt8
  layers : List Packet.Layer
  deriving DecidableEq, Repr

namespace Packet

open Lib

/-- `Packet::new`. -/
def new (bytes : List UInt8) : Packet := ⟨bytes, []⟩

/-- Run a parser in a context made from the packet, and keep its layers on
success and error alike. -/
def withContext (options : ParseOptions) (m : ParseM Unit) : Prog Packet ParseError Unit :=
  fun packet =>
    match m (.new packet.bytes options packet.layers) with
    | .ok ((), ctx) => .ok ((), { packet with layers := ctx.layers })
    | .err (err, ctx) => .err (err, { packet with layers := ctx.layers })
    | .panic => .panic
    | .outOfFuel => .outOfFuel

/-- `Packet::try_parse`. -/
def tryParse (fuel : ℕ) (protocol : Protocol) (options : ParseOptions) :
    Prog Packet ParseError Unit :=
  withContext options (parseRoot (parsers fuel) protocol 0)

/-- The `match` of `try_parse_with_link_type`. -/
def parseLinkType (table : ParseTable) (linkType : Capture.LinkType) : ParseM Unit := do
  match linkType with
  | .ethernet => parseRoot table .eth 0
  | .linuxSll => parseRoot table .sll 0
  | .ipv4 => parseRoot table .ipv4 0
  | .ipv6 => parseRoot table .ipv6 0
  | .raw =>
    let ctx ← Prog.get
    match ctx.bytes.head?.map fun byte => byte.toNat >>> 4 with
    | some 4 => parseRoot table .ipv4 0
    | some 6 => parseRoot table .ipv6 0
    | _ => parseRaw 0
  | linkType => Prog.throw (.unsupportedLinkType linkType)

/-- `Packet::try_parse_with_link_type`. -/
def tryParseWithLinkType (fuel : ℕ) (linkType : Capture.LinkType) (options : ParseOptions) :
    Prog Packet ParseError Unit :=
  withContext options (parseLinkType (parsers fuel) linkType)

/-- The loop of `Display for Packet` over the layers from the `i`-th on. -/
def displayLayers (bytes : List UInt8) : ℕ → List Layer → Shown
  | _, [] => pure []
  | i, layer :: layers => do
    let layerBytes ← layer.bytes bytes
    let shown ← layer.protocol.display layerBytes
    let others ← displayLayers bytes (i + 1) layers
    pure ((if i > 0 then [.text " | "] else []) ++ shown ++ others)

/-- `Display for Packet`. -/
def display (packet : Packet) : Shown := displayLayers packet.bytes 0 packet.layers

end Packet
end Maja
