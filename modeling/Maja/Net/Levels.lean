/-
# The level of a flow

`process_packet` of `tools/maja-splitcap/src/main.rs` and `extract_packet_metadata` of
`tools/maja-capinfo/src/main.rs` look the IP header and the transport of a packet up
one by one, each the innermost of its kind.  The two are of one level when the IP
header carries the transport, and this is so exactly when it is the last IP header in
front of the transport (`oneLevel_iff`).
-/

import Maja.Capinfo.Metadata
import Maja.Packet.Enclosing
import Maja.Splitcap.Flow

namespace Maja
namespace Net

open Lib Packet Capinfo
open Splitcap (FlowInfo flowInfo portsOf)

variable {ε : Type} {packet : Maja.Packet}

/-! ### What a report is read from -/

/-- The layers of a report: the IP header of its addresses, and the layer of its
ports. -/
structure Levels where
  ip : Layer
  ports : Option Layer
  deriving DecidableEq, Repr

/-- The innermost TCP layer, else the innermost UDP layer. -/
def portLayer (packet : Maja.Packet) : Option Layer :=
  (packet.nthLayer .tcp 0).or (packet.nthLayer .udp 0)

/-- The layers of `process_packet`. -/
def splitcapLevels (packet : Maja.Packet) : Option Levels :=
  (packet.nthLayer .ipv4 0).map fun ip => ⟨ip, portLayer packet⟩

/-- The layers of `extract_packet_metadata`. -/
def capinfoLevels (packet : Maja.Packet) : Option Levels :=
  ((packet.nthLayer .ipv4 0).or (packet.nthLayer .ipv6 0)).map fun ip => ⟨ip, portLayer packet⟩

/-- The ports in a layer, which TCP and UDP have in one place. -/
def portsIn (bytes : List UInt8) (l : Layer) : UInt16 × UInt16 :=
  (.ofNat (TcpViewer.srcPort.peek (l.header bytes)), .ofNat (TcpViewer.dstPort.peek (l.header bytes)))

/-- The protocol of a transport. -/
def transportOf (l : Layer) : IpProtocol := if l.protocol = .tcp then .tcp else .udp

/-- What splitcap reads from layers. -/
def splitcapInfo (bytes : List UInt8) (levels : Levels) : FlowInfo :=
  let ports := (levels.ports.map (portsIn bytes)).getD (0, 0)
  { srcIp := .v4 (.ofNat 32 (Ipv4Viewer.src.peek (levels.ip.header bytes)))
    dstIp := .v4 (.ofNat 32 (Ipv4Viewer.dst.peek (levels.ip.header bytes)))
    protocol := .ofCode (Ipv4Viewer.protocol.peek (levels.ip.header bytes))
    srcPort := ports.1
    dstPort := ports.2 }

/-- The addresses in an IP header, and the protocol that it names. -/
def addressesIn (bytes : List UInt8) (ip : Layer) : IpAddr × IpAddr × ℕ :=
  if ip.protocol = .ipv4 then
    (.v4 (.ofNat 32 (Ipv4Viewer.src.peek (ip.header bytes))),
      .v4 (.ofNat 32 (Ipv4Viewer.dst.peek (ip.header bytes))),
      Ipv4Viewer.protocol.peek (ip.header bytes))
  else
    (.v6 (.ofNat 128 (Ipv6Viewer.src.peek (ip.header bytes))),
      .v6 (.ofNat 128 (Ipv6Viewer.dst.peek (ip.header bytes))),
      Ipv6Viewer.nextHeader.peek (ip.header bytes))

/-- What capinfo reads from layers: the transport sets the protocol again. -/
def capinfoMetadata (timestamp : I64) (length : UInt32) (bytes : List UInt8) (levels : Levels) :
    PacketMetadata :=
  let addresses := addressesIn bytes levels.ip
  let ports := levels.ports.map (portsIn bytes)
  { timestamp := timestamp
    length := length
    srcIp := some addresses.1
    dstIp := some addresses.2.1
    ipProto := some (.ofNat ((levels.ports.map fun t =>
      Splitcap.protocolCode (transportOf t)).getD addresses.2.2))
    srcPort := ports.map Prod.fst
    dstPort := ports.map Prod.snd }

/-- A viewer shows the bytes of its layer. -/
theorem nthLayerViewer_eq_some {p : Protocol} {index : ℤ} {header : List UInt8}
    (h : (packet.nthLayerViewer p index : Outcome ε _) = .ok (some header)) :
    ∃ l, packet.nthLayer p index = some l ∧ header = l.header packet.bytes := by
  unfold nthLayerViewer at h
  split at h
  case h_1 l hl =>
    obtain ⟨bytes, hbytes, h⟩ := Outcome.bind_eq_ok.1 h
    cases h
    unfold Layer.bytes Outcome.slice at hbytes
    split_ifs at hbytes
    rw [Nat.add_sub_cancel_left] at hbytes
    exact ⟨l, hl, (Outcome.ok.inj hbytes).symm⟩
  case h_2 => cases h

/-- Without a viewer there is no layer. -/
theorem nthLayerViewer_eq_none {p : Protocol} {index : ℤ}
    (h : (packet.nthLayerViewer p index : Outcome ε _) = .ok none) :
    packet.nthLayer p index = none := by
  unfold nthLayerViewer at h
  split at h
  case h_1 =>
    obtain ⟨bytes, -, h⟩ := Outcome.bind_eq_ok.1 h
    cases h
  case h_2 hnone => exact hnone

/-- The layer of the ports is a layer of the packet, and has ports. -/
theorem portLayer_eq_some {t : Layer} (h : portLayer packet = some t) :
    t ∈ packet.layers ∧ hasPorts t = true := by
  obtain h | ⟨-, h⟩ := Option.or_eq_some_iff.1 h <;>
    obtain ⟨hmem, hprotocol⟩ := nthLayer_eq_some h <;>
    exact ⟨hmem, by simp [hasPorts, hprotocol]⟩

/-- The ports are those of the port layer, or zero. -/
theorem portsOf_eq {ports : UInt16 × UInt16} (h : (portsOf packet : Outcome ε _) = .ok ports) :
    ports = ((portLayer packet).map (portsIn packet.bytes)).getD (0, 0) := by
  unfold portsOf at h
  obtain ⟨tcp, htcp, h⟩ := Outcome.bind_eq_ok.1 h
  cases tcp with
  | some tcp =>
      obtain ⟨t, ht, rfl⟩ := nthLayerViewer_eq_some htcp
      obtain ⟨src, hsrc, h⟩ := Outcome.bind_eq_ok.1 h
      obtain ⟨dst, hdst, h⟩ := Outcome.bind_eq_ok.1 h
      cases h
      rw [portLayer, ht, (Field.get_eq_ok hsrc).2, (Field.get_eq_ok hdst).2]
      rfl
  | none =>
      have ht := nthLayerViewer_eq_none htcp
      obtain ⟨udp, hudp, h⟩ := Outcome.bind_eq_ok.1 h
      cases udp with
      | some udp =>
          obtain ⟨u, hu, rfl⟩ := nthLayerViewer_eq_some hudp
          obtain ⟨src, hsrc, h⟩ := Outcome.bind_eq_ok.1 h
          obtain ⟨dst, hdst, h⟩ := Outcome.bind_eq_ok.1 h
          cases h
          rw [portLayer, ht, hu, (Field.get_eq_ok hsrc).2, (Field.get_eq_ok hdst).2]
          rfl
      | none =>
          cases h
          rw [portLayer, ht, nthLayerViewer_eq_none hudp]
          rfl

/-- **What splitcap reports** is read from its layers. -/
theorem flowInfo_eq_some {info : FlowInfo} (h : (flowInfo packet : Outcome ε _) = .ok (some info)) :
    ∃ levels, splitcapLevels packet = some levels ∧ info = splitcapInfo packet.bytes levels := by
  unfold flowInfo at h
  obtain ⟨ipv4, hipv4, h⟩ := Outcome.bind_eq_ok.1 h
  cases ipv4 with
  | none => cases h
  | some ipv4 =>
      obtain ⟨ip, hip, rfl⟩ := nthLayerViewer_eq_some hipv4
      obtain ⟨protocol, hprotocol, h⟩ := Outcome.bind_eq_ok.1 h
      obtain ⟨ports, hports, h⟩ := Outcome.bind_eq_ok.1 h
      obtain ⟨src, hsrc, h⟩ := Outcome.bind_eq_ok.1 h
      obtain ⟨dst, hdst, h⟩ := Outcome.bind_eq_ok.1 h
      cases h
      refine ⟨⟨ip, portLayer packet⟩, by rw [splitcapLevels, hip]; rfl, ?_⟩
      rw [(Field.get_eq_ok hprotocol).2, (Field.get_eq_ok hsrc).2, (Field.get_eq_ok hdst).2,
        portsOf_eq hports]
      rfl

/-- The addresses of capinfo, or what was there without an IP header. -/
theorem withAddresses_eq {metadata metadata' : PacketMetadata}
    (h : (withAddresses packet metadata : Outcome ε _) = .ok metadata') :
    metadata' = (capinfoLevels packet).elim metadata fun levels => { metadata with
      srcIp := some (addressesIn packet.bytes levels.ip).1
      dstIp := some (addressesIn packet.bytes levels.ip).2.1
      ipProto := some (.ofNat (addressesIn packet.bytes levels.ip).2.2) } := by
  unfold withAddresses at h
  obtain ⟨ipv4, hipv4, h⟩ := Outcome.bind_eq_ok.1 h
  cases ipv4 with
  | some ipv4 =>
      obtain ⟨ip, hip, rfl⟩ := nthLayerViewer_eq_some hipv4
      obtain ⟨src, hsrc, h⟩ := Outcome.bind_eq_ok.1 h
      obtain ⟨dst, hdst, h⟩ := Outcome.bind_eq_ok.1 h
      obtain ⟨protocol, hprotocol, h⟩ := Outcome.bind_eq_ok.1 h
      obtain ⟨_, -, h⟩ := Outcome.bind_eq_ok.1 h
      obtain ⟨_, -, h⟩ := Outcome.bind_eq_ok.1 h
      obtain ⟨_, -, h⟩ := Outcome.bind_eq_ok.1 h
      cases h
      rw [capinfoLevels, hip, Option.some_or, Option.map_some, (Field.get_eq_ok hprotocol).2,
        (Field.get_eq_ok hsrc).2, (Field.get_eq_ok hdst).2]
      simp only [Option.elim_some, addressesIn, if_pos (nthLayer_eq_some hip).2]
  | none =>
      have hnone := nthLayerViewer_eq_none hipv4
      obtain ⟨ipv6, hipv6, h⟩ := Outcome.bind_eq_ok.1 h
      cases ipv6 with
      | some ipv6 =>
          obtain ⟨ip, hip, rfl⟩ := nthLayerViewer_eq_some hipv6
          obtain ⟨src, hsrc, h⟩ := Outcome.bind_eq_ok.1 h
          obtain ⟨dst, hdst, h⟩ := Outcome.bind_eq_ok.1 h
          obtain ⟨nextHeader, hnext, h⟩ := Outcome.bind_eq_ok.1 h
          obtain ⟨_, -, h⟩ := Outcome.bind_eq_ok.1 h
          obtain ⟨_, -, h⟩ := Outcome.bind_eq_ok.1 h
          cases h
          have hv6 : ip.protocol ≠ .ipv4 := by rw [(nthLayer_eq_some hip).2]; decide
          rw [capinfoLevels, hnone, hip, Option.none_or, Option.map_some, (Field.get_eq_ok hnext).2,
            (Field.get_eq_ok hsrc).2, (Field.get_eq_ok hdst).2]
          simp only [Option.elim_some, addressesIn, if_neg hv6]
      | none =>
          cases h
          rw [capinfoLevels, hnone, nthLayerViewer_eq_none hipv6]
          rfl

/-- The ports that are added to the metadata are those of the port layer. -/
theorem withPorts_eq {metadata metadata' : PacketMetadata}
    (h : (withPorts packet metadata : Outcome ε _) = .ok metadata') :
    metadata' = (portLayer packet).elim metadata fun t => { metadata with
      ipProto := some (.ofNat (Splitcap.protocolCode (transportOf t)))
      srcPort := some (portsIn packet.bytes t).1
      dstPort := some (portsIn packet.bytes t).2 } := by
  unfold withPorts at h
  obtain ⟨tcp, htcp, h⟩ := Outcome.bind_eq_ok.1 h
  cases tcp with
  | some tcp =>
      obtain ⟨t, ht, rfl⟩ := nthLayerViewer_eq_some htcp
      obtain ⟨src, hsrc, h⟩ := Outcome.bind_eq_ok.1 h
      obtain ⟨dst, hdst, h⟩ := Outcome.bind_eq_ok.1 h
      obtain ⟨_, -, h⟩ := Outcome.bind_eq_ok.1 h
      obtain ⟨_, -, h⟩ := Outcome.bind_eq_ok.1 h
      obtain ⟨_, -, h⟩ := Outcome.bind_eq_ok.1 h
      cases h
      rw [portLayer, ht, (Field.get_eq_ok hsrc).2, (Field.get_eq_ok hdst).2, Option.some_or]
      simp only [Option.elim_some, transportOf, if_pos (nthLayer_eq_some ht).2]
      rfl
  | none =>
      have hnone := nthLayerViewer_eq_none htcp
      obtain ⟨udp, hudp, h⟩ := Outcome.bind_eq_ok.1 h
      cases udp with
      | some udp =>
          obtain ⟨t, ht, rfl⟩ := nthLayerViewer_eq_some hudp
          obtain ⟨src, hsrc, h⟩ := Outcome.bind_eq_ok.1 h
          obtain ⟨dst, hdst, h⟩ := Outcome.bind_eq_ok.1 h
          obtain ⟨_, -, h⟩ := Outcome.bind_eq_ok.1 h
          cases h
          have hne : t.protocol ≠ .tcp := by rw [(nthLayer_eq_some ht).2]; decide
          rw [portLayer, hnone, ht, (Field.get_eq_ok hsrc).2, (Field.get_eq_ok hdst).2,
            Option.none_or]
          simp only [Option.elim_some, transportOf, if_neg hne]
          rfl
      | none =>
          cases h
          rw [portLayer, hnone, nthLayerViewer_eq_none hudp]
          rfl

/-- **What capinfo reports** with addresses is read from its layers. -/
theorem extractPacketMetadata_eq {timestamp : I64} {length : UInt32} {metadata : PacketMetadata}
    (h : (extractPacketMetadata packet { timestamp, length } : Outcome ε _) = .ok metadata)
    (hsrc : metadata.srcIp.isSome) : ∃ levels, capinfoLevels packet = some levels ∧
      metadata = capinfoMetadata timestamp length packet.bytes levels := by
  obtain ⟨_, -, h⟩ := Outcome.bind_eq_ok.1 h
  obtain ⟨metadata₀, haddresses, h⟩ := Outcome.bind_eq_ok.1 h
  obtain rfl := withAddresses_eq haddresses
  cases hlevels : capinfoLevels packet with
  | none =>
      rw [hlevels] at h
      cases h
      cases hsrc
  | some levels =>
      rw [hlevels, Option.elim_some, if_pos Option.isSome_some] at h
      refine ⟨levels, rfl, ?_⟩
      have hports : levels.ports = portLayer packet := by
        obtain ⟨ip, -, rfl⟩ := Option.map_eq_some_iff.1 hlevels
        rfl
      rw [withPorts_eq h, capinfoMetadata, hports]
      cases portLayer packet <;> rfl

/-! ### One level -/

/-- An IP header carries a transport: nothing but extension headers is between them. -/
def Carries (layers : List Layer) (ip t : Layer) : Prop :=
  ∃ front between behind, layers = front ++ ip :: between ++ t :: behind ∧ isIp ip = true ∧
    ∀ m ∈ between, IsExtension m.protocol

/-- A report is of one level: its ports are those of a transport that the IP header of
its addresses carries, and its protocol is the one of this transport. -/
def OneLevel (layers : List Layer) (levels : Levels) (protocol : IpProtocol) : Prop :=
  ∀ t ∈ levels.ports, Carries layers levels.ip t ∧ protocol = transportOf t

/-- The IP header of the addresses is the last one in front of the transport. -/
def IsNearest (layers : List Layer) (levels : Levels) : Prop :=
  ∀ t ∈ levels.ports, nearestIp (layers.takeWhile (· ≠ t)) = some levels.ip

/-- The layers in front of a layer are those up to it. -/
theorem takeWhile_eq (h : packet.Parsed) {before behind : List Layer} {t : Layer}
    (hlayers : packet.layers = before ++ t :: behind) :
    packet.layers.takeWhile (· ≠ t) = before := by
  have hincrease := h.table.offsets_increase
  rw [hlayers] at hincrease ⊢
  have hne : ∀ l ∈ before, (decide (l ≠ t)) = true := fun l hl => by
    have hlt := (List.pairwise_append.1 hincrease).2.2 l hl t List.mem_cons_self
    exact decide_eq_true fun heq => absurd hlt (by rw [heq]; exact lt_irrefl _)
  rw [List.takeWhile_append_of_pos hne, List.takeWhile_cons_of_neg (by simp), List.append_nil]

/-- **The carrier of a transport** is the last IP header in front of it. -/
theorem carries_iff (h : packet.Parsed) {ip t : Layer} (hmem : t ∈ packet.layers)
    (ht : hasPorts t = true) :
    Carries packet.layers ip t ↔ nearestIp (packet.layers.takeWhile (· ≠ t)) = some ip := by
  constructor
  · rintro ⟨front, between, behind, hlayers, hip, hbetween⟩
    rw [takeWhile_eq h hlayers]
    exact nearestIp_eq hip hbetween
  · intro hnearest
    obtain ⟨before, behind, hlayers⟩ := List.append_of_mem hmem
    obtain ⟨front, ip', between, rfl, hip, hbetween⟩ := h.carrier hlayers ht
    rw [takeWhile_eq h hlayers, nearestIp_eq hip hbetween] at hnearest
    obtain rfl := Option.some.inj hnearest
    exact ⟨front, between, behind, hlayers, hip, hbetween⟩

/-- An IPv4 header that carries a transport names its protocol. -/
theorem protocol_of_carries (h : packet.Parsed) {ip t : Layer} (hip : ip.protocol = .ipv4)
    (ht : hasPorts t = true) (hcarries : Carries packet.layers ip t) :
    .ofCode (Ipv4Viewer.protocol.peek (ip.header packet.bytes)) = transportOf t := by
  obtain ⟨front, between, behind, hlayers, -, hbetween⟩ := hcarries
  have hports : t.protocol = .tcp ∨ t.protocol = .udp := by simpa [hasPorts] using ht
  obtain ⟨options, p, d, -, hpasses, hd, -⟩ :=
    h.exists_call hlayers (by obtain h | h := hports <;> rw [h] <;> decide)
  obtain ⟨-, hnext⟩ := hpasses.ipv4_carrier rfl hip hbetween
  have hprotocol : t.protocol = d.protocol := congrArg Layer.protocol hd
  rw [← hprotocol] at hnext
  change (IpProtocol.ofCode (Ipv4Viewer.protocol.peek (ip.header packet.bytes))).nextIpv4 = _
    at hnext
  unfold IpProtocol.nextIpv4 at hnext
  obtain htcp | hudp := hports
  · rw [transportOf, if_pos htcp]
    rw [htcp] at hnext
    split at hnext <;> cases hnext
    assumption
  · rw [transportOf, if_neg (by rw [hudp]; decide)]
    rw [hudp] at hnext
    split at hnext <;> cases hnext
    assumption

/-- **A flow is of one level** exactly when the IP header that its addresses are read
from is the last one in front of the transport that its ports are read from. -/
theorem oneLevel_iff (h : packet.Parsed) :
    (∀ info, (flowInfo packet : Outcome ε _) = .ok (some info) → ∃ levels,
      splitcapLevels packet = some levels ∧ info = splitcapInfo packet.bytes levels ∧
        (OneLevel packet.layers levels info.protocol ↔ IsNearest packet.layers levels)) ∧
    ∀ timestamp length metadata,
      (extractPacketMetadata packet { timestamp, length } : Outcome ε _) = .ok metadata →
      metadata.srcIp.isSome → ∃ levels code, capinfoLevels packet = some levels ∧
        metadata = capinfoMetadata timestamp length packet.bytes levels ∧
        metadata.ipProto = some code ∧
        (OneLevel packet.layers levels (.ofCode code.toNat) ↔ IsNearest packet.layers levels) := by
  have hports : ∀ {t}, portLayer packet = some t → ∀ {ip}, Carries packet.layers ip t ↔
      nearestIp (packet.layers.takeWhile (· ≠ t)) = some ip := fun ht _ =>
    carries_iff h (portLayer_eq_some ht).1 (portLayer_eq_some ht).2
  refine ⟨fun info hinfo => ?_, fun timestamp length metadata hmetadata hsrc => ?_⟩
  · obtain ⟨levels, hlevels, rfl⟩ := flowInfo_eq_some hinfo
    refine ⟨levels, hlevels, rfl, forall₂_congr fun t ht => ?_⟩
    obtain ⟨ip, hip, rfl⟩ := Option.map_eq_some_iff.1 hlevels
    rw [← hports ht, and_iff_left_iff_imp]
    exact protocol_of_carries h (nthLayer_eq_some hip).2 (portLayer_eq_some ht).2
  · obtain ⟨levels, hlevels, rfl⟩ := extractPacketMetadata_eq hmetadata hsrc
    refine ⟨levels, _, hlevels, rfl, rfl, forall₂_congr fun t ht => ?_⟩
    obtain ⟨ip, hip, rfl⟩ := Option.map_eq_some_iff.1 hlevels
    rw [← hports ht, and_iff_left]
    have ht : portLayer packet = some t := ht
    dsimp only
    rw [ht, Option.map_some, Option.getD_some, transportOf]
    split_ifs <;> rfl

/-! ### A tunnel -/

/-- A frame from `10.0.0.1` to `10.0.0.2`. -/
def ipv4Frame (protocol : UInt8) (payload : List UInt8) : List UInt8 :=
  [0x45, 0, 0, .ofNat (20 + payload.length), 0, 0, 0, 0, 64, protocol, 0, 0] ++
    [10, 0, 0, 1, 10, 0, 0, 2] ++ payload

/-- A TCP header from port 12345 to port 80. -/
def tcpHeader : List UInt8 :=
  [0x30, 0x39, 0, 80] ++ List.replicate 8 0 ++ [0x50, 0x18, 0, 0, 0, 0, 0, 0]

/-- GRE, and in it IPv6 with twenty bytes of TCP. -/
def greHeader : List UInt8 :=
  [0, 0, 0x86, 0xDD] ++ [0x60, 0, 0, 0, 0, 20, 6, 64] ++ List.replicate 32 0xFD

/-- TCP on IPv4. -/
def plainPacket : Maja.Packet := ⟨ipv4Frame 6 tcpHeader, [⟨.ipv4, 0, 20⟩, ⟨.tcp, 20, 20⟩]⟩

/-- TCP on IPv6, in a tunnel on IPv4. -/
def tunnelPacket : Maja.Packet :=
  ⟨ipv4Frame 47 (greHeader ++ tcpHeader),
    [⟨.ipv4, 0, 20⟩, ⟨.gre, 20, 4⟩, ⟨.ipv6, 24, 40⟩, ⟨.tcp, 64, 20⟩]⟩

/-- The plain packet is of one level. -/
theorem oneLevel_iff_plain : ∃ levels, splitcapLevels plainPacket = some levels ∧
    OneLevel plainPacket.layers levels .tcp := by
  have hparse : tryParseWithLinkType 41 .ipv4 {} (.new plainPacket.bytes) =
      .ok ((), plainPacket) := by decide +kernel
  have hinfo : (flowInfo plainPacket : Outcome Unit _) =
      .ok (some ⟨.v4 0x0A000001, .v4 0x0A000002, .tcp, 12345, 80⟩) := by decide +kernel
  obtain ⟨levels, hlevels, -, hiff⟩ :=
    (oneLevel_iff (Parsed.of_ok (by decide) hparse).2).1 _ hinfo
  refine ⟨levels, hlevels, hiff.2 fun t ht => ?_⟩
  obtain rfl := Option.some.inj ((by decide : splitcapLevels plainPacket =
    some ⟨⟨.ipv4, 0, 20⟩, some ⟨.tcp, 20, 20⟩⟩).symm.trans hlevels)
  obtain rfl := Option.some.inj ht
  decide

/-- The addresses of a tunnel with the ports of what is in it: a flow that nobody
sent, from `10.0.0.1:12345` to `10.0.0.2:80`. -/
theorem tunnel_levels : tunnelPacket.Parsed ∧
    (∃ info levels, (flowInfo tunnelPacket : Outcome Unit _) = .ok (some info) ∧
      splitcapLevels tunnelPacket = some levels ∧
      ¬OneLevel tunnelPacket.layers levels info.protocol) ∧
    ∃ metadata levels, (extractPacketMetadata tunnelPacket { timestamp := .ofInt 0, length := 84 } :
        Outcome Unit _) = .ok metadata ∧
      flowId metadata = some (.tuple5 (.v4 0x0A000001) (.v4 0x0A000002) 12345 80 .tcp) ∧
      capinfoLevels tunnelPacket = some levels ∧ ¬OneLevel tunnelPacket.layers levels .tcp := by
  have hparse : tryParseWithLinkType 85 .ipv4 {} (.new tunnelPacket.bytes) =
      .ok ((), tunnelPacket) := by decide +kernel
  have hparsed := (Parsed.of_ok (by decide) hparse).2
  have hnot : ∀ protocol, ¬OneLevel tunnelPacket.layers
      ⟨⟨.ipv4, 0, 20⟩, some ⟨.tcp, 64, 20⟩⟩ protocol := fun protocol h => by
    have hnearest := (carries_iff hparsed (by decide) rfl).1 (h _ rfl).1
    revert hnearest
    decide
  exact ⟨hparsed,
    ⟨⟨.v4 0x0A000001, .v4 0x0A000002, .gre, 12345, 80⟩, _, by decide +kernel, by decide, hnot _⟩,
    ⟨.ofInt 0, 84, some (.v4 0x0A000001), some (.v4 0x0A000002), some 6, some 12345, some 80⟩, _,
    by decide +kernel, by decide, by decide, hnot _⟩

end Net
end Maja
