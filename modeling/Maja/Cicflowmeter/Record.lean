/-
# The payload of a TCP packet

`FlowPacket::from_record` of `tools/maja-cicflowmeter/src/flow.rs`.  It takes the
innermost TCP or UDP layer and the last IP header in front of it, and works out from
the length field of this header where the payload ends; the parser cuts the captured
bytes by every length that a header in front of the transport declares.  The two ends
of a TCP payload are compared (`payloadBytes_eq_iff`).
-/

import Maja.Cicflowmeter.Flow
import Maja.Packet.Enclosing

namespace Maja
namespace Cicflowmeter

open Lib Net Packet Capture

variable {ε : Type}

/-- The innermost TCP or UDP layer, and its index. -/
def findTransport (layers : List Layer) : Option (Layer × ℕ) :=
  layers.zipIdx.reverse.find? fun e => hasPorts e.1

/-- The addresses of an IP header, and where the payload ends by its length field. -/
def readNetwork (network : Layer) (bytes : List UInt8) : Outcome ε (IpAddr × IpAddr × ℕ) := do
  let ip ← network.bytes bytes
  if network.protocol = .ipv4 then do
    let total ← Ipv4Viewer.totalLength.get ip
    let src ← Ipv4Viewer.src.get ip
    let dst ← Ipv4Viewer.dst.get ip
    pure (.v4 (BitVec.ofNat 32 src), .v4 (BitVec.ofNat 32 dst),
      min (network.offset + total) bytes.length)
  else do
    let payloadLength ← Ipv6Viewer.payloadLength.get ip
    let src ← Ipv6Viewer.src.get ip
    let dst ← Ipv6Viewer.dst.get ip
    pure (.v6 (BitVec.ofNat 128 src), .v6 (BitVec.ofNat 128 dst),
      min (network.offset + (40 + payloadLength)) bytes.length)

/-- `from_record`, of the parsed packet. -/
def fromPacket (timestamp : I64) (packet : Maja.Packet) : Outcome ε (Option FlowPacket) := do
  match findTransport packet.layers with
  | none => pure none
  | some (transport, transportIndex) =>
    match nearestIp (packet.layers.take transportIndex) with
    | none => pure none
    | some network => do
      let (srcIp, dstIp, ipEnd) ← readNetwork network packet.bytes
      let header ← transport.bytes packet.bytes
      if transport.protocol = .tcp then do
        let srcPort ← TcpViewer.srcPort.get header
        let dstPort ← TcpViewer.dstPort.get header
        let headerLen ← TcpViewer.headerLen header
        let flags ← TcpViewer.flags.get header
        let windowSize ← TcpViewer.windowSize.get header
        pure (some {
          timestamp, srcIp, dstIp
          srcPort := .ofNat srcPort
          dstPort := .ofNat dstPort
          protocol := 6
          payloadBytes := .ofNat (ipEnd - (transport.offset + transport.len))
          headerBytes := .ofNat headerLen
          tcpFlags := ⟨.ofNat flags⟩
          tcpWindow := .ofNat windowSize })
      else do
        let srcPort ← UdpViewer.srcPort.get header
        let dstPort ← UdpViewer.dstPort.get header
        let length ← UdpViewer.length.get header
        let datagramLen := min length (ipEnd - transport.offset)
        pure (some {
          timestamp, srcIp, dstIp
          srcPort := .ofNat srcPort
          dstPort := .ofNat dstPort
          protocol := 17
          payloadBytes := .ofNat (datagramLen - 8)
          headerBytes := 8
          tcpFlags := ⟨0⟩
          tcpWindow := 0 })

/-- `FlowPacket::from_record`. -/
def fromRecord (record : PacketRecord) : Outcome ParseError (Option FlowPacket) :=
  match tryParseWithLinkType (record.data.length + 1) record.linkType {} (.new record.data) with
  | .ok ((), packet) => fromPacket record.timestamp packet
  | .err (err, _) => .err err
  | .panic => .panic
  | .outOfFuel => .outOfFuel

/-! ### What is found -/

/-- The transport is the last one of the layers. -/
theorem findTransport_eq_some {layers : List Layer} {transport : Layer} {index : ℕ}
    (h : findTransport layers = some (transport, index)) :
    layers = layers.take index ++ transport :: layers.drop (index + 1) ∧
      hasPorts transport = true ∧ ∀ l ∈ layers.drop (index + 1), hasPorts l = false := by
  obtain ⟨hports, xs, ys, hsplit, hbehind⟩ := List.find?_eq_some_iff_append.1 h
  have hzip : layers.zipIdx = ys.reverse ++ (transport, index) :: xs.reverse := by
    rw [← List.reverse_reverse layers.zipIdx, hsplit]
    simp
  have hlayers : layers = ys.reverse.map Prod.fst ++ transport :: xs.reverse.map Prod.fst := by
    have hfst := congrArg (List.map Prod.fst) hzip
    rwa [List.zipIdx_map_fst, List.map_append, List.map_cons] at hfst
  -- the index is the number of the layers in front
  have hindex : index = (ys.reverse.map Prod.fst).length := by
    have hsnd := congrArg (fun l => (l.map Prod.snd)[ys.length]?) hzip
    simp only [List.zipIdx_map_snd, List.map_append, List.map_cons] at hsnd
    rw [List.getElem?_append_right (by simp)] at hsnd
    simp only [List.length_map, List.length_reverse, Nat.sub_self, List.getElem?_cons_zero] at hsnd
    obtain ⟨hlt, hvalue⟩ := List.getElem?_eq_some_iff.1 hsnd
    rw [List.getElem_range'] at hvalue
    rw [List.length_map, List.length_reverse]
    omega
  have htake : layers.take index = ys.reverse.map Prod.fst := by
    rw [hlayers, hindex, List.take_left]
  have hdrop : layers.drop (index + 1) = xs.reverse.map Prod.fst := by
    rw [hlayers, hindex, List.drop_length_add_append]
    rfl
  refine ⟨by rw [htake, hdrop, ← hlayers], hports, fun l hl => ?_⟩
  rw [hdrop] at hl
  obtain ⟨e, he, rfl⟩ := List.mem_map.1 hl
  simpa using hbehind e (List.mem_reverse.1 he)

/-- The end of the payload that the length field of an IP header gives. -/
def fieldEnd (bytes : List UInt8) (network : Layer) : ℕ :=
  if network.protocol = .ipv4 then
    min (network.offset + Ipv4Viewer.totalLength.peek (network.header bytes)) bytes.length
  else
    min (network.offset + (40 + Ipv6Viewer.payloadLength.peek (network.header bytes))) bytes.length

/-- The end that `read_network` returns is the one that the length field gives. -/
theorem readNetwork_eq_ok {network : Layer} {bytes : List UInt8} {src dst : IpAddr} {ipEnd : ℕ}
    (h : (readNetwork network bytes : Outcome ε _) = .ok (src, dst, ipEnd)) :
    ipEnd = fieldEnd bytes network := by
  unfold readNetwork at h
  obtain ⟨ip, hip, h⟩ := Outcome.bind_eq_ok.1 h
  have hheader : ip = network.header bytes := by
    unfold Layer.bytes Outcome.slice at hip
    split_ifs at hip
    rw [← Outcome.ok.inj hip, Nat.add_sub_cancel_left, Layer.header]
  unfold fieldEnd
  split_ifs at h ⊢ with hv4
  · obtain ⟨total, htotal, h⟩ := Outcome.bind_eq_ok.1 h
    obtain ⟨src', -, h⟩ := Outcome.bind_eq_ok.1 h
    obtain ⟨dst', -, h⟩ := Outcome.bind_eq_ok.1 h
    cases h
    rw [(Field.get_eq_ok htotal).2, hheader]
  · obtain ⟨payloadLength, hpayload, h⟩ := Outcome.bind_eq_ok.1 h
    obtain ⟨src', -, h⟩ := Outcome.bind_eq_ok.1 h
    obtain ⟨dst', -, h⟩ := Outcome.bind_eq_ok.1 h
    cases h
    rw [(Field.get_eq_ok hpayload).2, hheader]

/-- **What a TCP packet is read from**: the payload is counted from the end of the
TCP header to where the last IP header in front of it says that it ends. -/
theorem fromPacket_eq_some {timestamp : I64} {packet : Maja.Packet} {p : FlowPacket}
    (h : (fromPacket timestamp packet : Outcome ε _) = .ok (some p)) (hp : p.protocol = 6) :
    ∃ tcp index network, findTransport packet.layers = some (tcp, index) ∧ tcp.protocol = .tcp ∧
      nearestIp (packet.layers.take index) = some network ∧
      p.payloadBytes = .ofNat (fieldEnd packet.bytes network - (tcp.offset + tcp.len)) := by
  unfold fromPacket at h
  cases hfind : findTransport packet.layers with
  | none => simp [hfind] at h
  | some found =>
      obtain ⟨tcp, index⟩ := found
      rw [hfind] at h
      dsimp only at h
      cases hip : nearestIp (packet.layers.take index) with
      | none => simp [hip] at h
      | some network =>
          rw [hip] at h
          obtain ⟨⟨src, dst, ipEnd⟩, hnetwork, h⟩ := Outcome.bind_eq_ok.1 h
          obtain rfl := readNetwork_eq_ok hnetwork
          obtain ⟨header, -, h⟩ := Outcome.bind_eq_ok.1 h
          refine ⟨tcp, index, network, rfl, ?_⟩
          split_ifs at h with htcp
          · obtain ⟨_, -, h⟩ := Outcome.bind_eq_ok.1 h
            obtain ⟨_, -, h⟩ := Outcome.bind_eq_ok.1 h
            obtain ⟨_, -, h⟩ := Outcome.bind_eq_ok.1 h
            obtain ⟨_, -, h⟩ := Outcome.bind_eq_ok.1 h
            obtain ⟨_, -, h⟩ := Outcome.bind_eq_ok.1 h
            cases h
            exact ⟨htcp, hip, rfl⟩
          · obtain ⟨_, -, h⟩ := Outcome.bind_eq_ok.1 h
            obtain ⟨_, -, h⟩ := Outcome.bind_eq_ok.1 h
            obtain ⟨_, -, h⟩ := Outcome.bind_eq_ok.1 h
            cases h
            cases hp

/-! ### The two ends -/

/-- Where the parser takes the payload of a layer to end: the captured length, cut by
every length that a header in front of the layer declares. -/
def regionEnd (packet : Maja.Packet) (index : ℕ) : ℕ :=
  cutBy packet.bytes packet.bytes.length (packet.layers.take index)

/-- The length field of an IP header tells the end of a payload that the headers in
front of it leave `outer` bytes for: it is not zero, and it goes beyond `outer` only
where these are all captured bytes; or it is zero, and there is no payload. -/
def FieldTells (bytes : List UInt8) (outer : ℕ) (network tcp : Layer) : Prop :=
  match declaredEnd bytes network with
  | some payloadEnd => payloadEnd ≤ outer ∨ outer = bytes.length
  | none => outer = tcp.offset + tcp.len

/-- An extension header cuts nothing. -/
theorem cutBy_extensions {bytes : List UInt8} {stop : ℕ} {layers : List Layer}
    (h : ∀ m ∈ layers, IsExtension m.protocol) : cutBy bytes stop layers = stop := by
  induction layers with
  | nil => rfl
  | cons l layers ih =>
      have hnone : declaredEnd bytes l = none := by
        unfold declaredEnd
        obtain h | h | h | h | h | h | h | h := h l List.mem_cons_self <;> rw [h]
      show cutBy bytes ((declaredEnd bytes l).elim stop (min stop)) layers = stop
      rw [hnone]
      exact ih fun m hm => h m (List.mem_cons_of_mem _ hm)

/-- The field of an IP header is where it declares its payload to end, or it is zero
and names no place behind the header's first bytes. -/
theorem fieldEnd_cases {bytes : List UInt8} {network : Layer} (hip : isIp network = true) :
    (∃ payloadEnd, declaredEnd bytes network = some payloadEnd ∧
      fieldEnd bytes network = min payloadEnd bytes.length) ∨
    declaredEnd bytes network = none ∧
      fieldEnd bytes network ≤ network.offset + if network.protocol = .ipv6 then 40 else 0 := by
  have hprotocol : network.protocol = .ipv4 ∨ network.protocol = .ipv6 := by simpa [isIp] using hip
  obtain hv4 | hv6 := hprotocol
  · by_cases hzero : Ipv4Viewer.totalLength.peek (network.header bytes) = 0
    · right
      simp [declaredEnd, fieldEnd, hv4, hzero]
    · left
      simp [declaredEnd, fieldEnd, hv4, hzero]
  · by_cases hzero : Ipv6Viewer.payloadLength.peek (network.header bytes) = 0
    · right
      simp [declaredEnd, fieldEnd, hv6, hzero]
    · left
      simp [declaredEnd, fieldEnd, hv6, hzero, Nat.add_assoc]

/-- An IPv6 header has forty bytes. -/
theorem ipv6_headerLen {c : Call} {len : ℕ} (hc : c.protocol = .ipv6)
    (h : c.verdict.headerLen = some len) : len = 40 := by
  obtain ⟨p, depth, r, offset⟩ := c
  obtain rfl : p = .ipv6 := hc
  rw [Call.verdict, decode] at h
  unfold Region.need at h
  split_ifs at h
  · exact (Option.some.inj h).symm
  · cases h

/-- The TCP header of a frame that `from_record` takes, as it was parsed: the last IP
header in front of it, with nothing but extension headers between them, and the call
of the TCP parser, whose region ends at `stop`. -/
structure TcpOf (record : PacketRecord) (packet : Maja.Packet) (front : List Layer)
    (network tcp : Layer) (stop : ℕ) : Prop where
  parsed : tryParseWithLinkType (record.data.length + 1) record.linkType {} (.new record.data) =
    .ok ((), packet)
  is_tcp : tcp.protocol = .tcp
  found : ∃ index between, findTransport packet.layers = some (tcp, index) ∧
    packet.layers.take index = front ++ network :: between ∧ isIp network = true ∧
    (∀ m ∈ between, IsExtension m.protocol) ∧ stop = regionEnd packet index
  called : ∃ options root call, (rootCall packet.bytes root).Leads options call ∧
    tcp = ⟨call.protocol, call.offset, tcp.len⟩ ∧ call.verdict.headerLen = some tcp.len ∧
    call.region.stop = stop

/-- **A TCP packet has a TCP header that was parsed**, and its payload is counted by
the field of the IP header. -/
theorem exists_tcpOf {record : PacketRecord} {p : FlowPacket}
    (h : fromRecord record = .ok (some p)) (hp : p.protocol = 6) :
    ∃ packet front network tcp stop, TcpOf record packet front network tcp stop ∧
      p.payloadBytes = .ofNat (fieldEnd packet.bytes network - (tcp.offset + tcp.len)) := by
  unfold fromRecord at h
  split at h
  case h_2 => cases h
  case h_3 => cases h
  case h_4 => cases h
  case h_1 packet hparse =>
    obtain ⟨-, hparsed⟩ := Parsed.of_ok (Nat.lt_succ_self _) hparse
    obtain ⟨tcp, index, network, hfind, htcp, hnearest, hpayload⟩ := fromPacket_eq_some h hp
    obtain ⟨hsplit, hports, -⟩ := findTransport_eq_some hfind
    obtain ⟨front, ip, between, htake, hip, hbetween⟩ := hparsed.carrier hsplit hports
    obtain rfl : ip = network := by
      rw [htake, nearestIp_eq hip hbetween] at hnearest
      exact Option.some.inj hnearest
    obtain ⟨options, root, call, -, hpasses, hcall, hheader⟩ :=
      hparsed.exists_call hsplit (by rw [htcp]; decide)
    exact ⟨packet, front, ip, tcp, regionEnd packet index,
      ⟨hparse, htcp, ⟨index, between, hfind, htake, hip, hbetween, rfl⟩,
        ⟨options, root, call, hpasses.leads, hcall, hheader, hpasses.region.2⟩⟩, hpayload⟩

namespace TcpOf

variable {record : PacketRecord} {packet : Maja.Packet} {front : List Layer} {network tcp : Layer}
  {stop : ℕ}

/-- The parser's end: what the headers in front of the IP header leave, cut by what it
declares itself. -/
theorem stop_eq (h : TcpOf record packet front network tcp stop) :
    stop = (declaredEnd packet.bytes network).elim
      (cutBy packet.bytes packet.bytes.length front)
      (min (cutBy packet.bytes packet.bytes.length front)) := by
  obtain ⟨index, between, -, htake, -, hbetween, rfl⟩ := h.found
  rw [regionEnd, htake, ← List.singleton_append, ← List.append_assoc, cutBy_append,
    cutBy_extensions hbetween, cutBy_append]
  rfl

/-- The TCP header is in the region. -/
theorem inside (h : TcpOf record packet front network tcp stop) : tcp.offset + tcp.len ≤ stop := by
  obtain ⟨options, root, call, -, hcall, hheader, rfl⟩ := h.called
  have hoffset : tcp.offset = call.offset := congrArg Layer.offset hcall
  rw [hoffset]
  exact (headerLen_sound hheader).2

/-- A zero in the length field of the IP header tells no end behind the TCP header. -/
theorem network_before (h : TcpOf record packet front network tcp stop) :
    network.offset + (if network.protocol = .ipv6 then 40 else 0) ≤ tcp.offset := by
  obtain ⟨-, hparsed⟩ := Parsed.of_ok (Nat.lt_succ_self _) h.parsed
  obtain ⟨index, between, hfind, htake, -, -, -⟩ := h.found
  have hlayers := (findTransport_eq_some hfind).1
  rw [htake, List.append_assoc, List.cons_append] at hlayers
  have hordered := hparsed.table.ordered
  rw [hlayers] at hordered
  have hle := (List.pairwise_cons.1 (List.pairwise_append.1 hordered).2.1).1 tcp (by simp)
  split_ifs with hv6
  · obtain ⟨-, -, d, -, -, hd, hlen⟩ := hparsed.exists_call hlayers (by rw [hv6]; decide)
    have hprotocol : network.protocol = d.protocol := congrArg Layer.protocol hd
    have := ipv6_headerLen (hprotocol.symm.trans hv6) hlen
    omega
  · omega

/-- The network layer of a record is IP. -/
theorem isIp_network (h : TcpOf record packet front network tcp stop) : isIp network = true := by
  obtain ⟨-, -, -, -, hip, -⟩ := h.found
  exact hip

end TcpOf

/-- The end of the network layer lies inside the packet. -/
theorem fieldEnd_le (bytes : List UInt8) (network : Layer) :
    fieldEnd bytes network ≤ bytes.length := by
  unfold fieldEnd
  split_ifs <;> exact Nat.min_le_right _ _

/-- **The payload of a TCP packet is that of the parser** exactly when the length
field of its IP header tells where it ends. -/
theorem payloadBytes_eq_iff {record : PacketRecord} {p : FlowPacket}
    (h : fromRecord record = .ok (some p)) (hp : p.protocol = 6)
    (hlen : record.data.length < 2 ^ 64) :
    ∃ packet front network tcp stop, TcpOf record packet front network tcp stop ∧
      (p.payloadBytes.toNat = stop - (tcp.offset + tcp.len) ↔
        FieldTells packet.bytes (cutBy packet.bytes packet.bytes.length front) network tcp) := by
  obtain ⟨packet, front, network, tcp, stop, hof, hpayload⟩ := exists_tcpOf h hp
  refine ⟨packet, front, network, tcp, stop, hof, ?_⟩
  obtain ⟨hbytes, -⟩ := Parsed.of_ok (Nat.lt_succ_self _) hof.parsed
  have hvalue : p.payloadBytes.toNat = fieldEnd packet.bytes network - (tcp.offset + tcp.len) := by
    have hle := fieldEnd_le packet.bytes network
    have hlt : packet.bytes.length < 2 ^ 64 := by rwa [hbytes]
    rw [hpayload, UInt64.toNat_ofNat']
    exact Nat.mod_eq_of_lt (by omega)
  have hstop := hof.stop_eq
  have hinside := hof.inside
  have hbefore := hof.network_before
  have houter := cutBy_le packet.bytes packet.bytes.length front
  rw [hvalue, FieldTells]
  obtain ⟨payloadEnd, hdeclared, hfield⟩ | ⟨hdeclared, hfield⟩ := fieldEnd_cases hof.isIp_network
  · rw [hdeclared] at hstop ⊢
    rw [Option.elim_some] at hstop
    show _ ↔ payloadEnd ≤ _ ∨ _
    omega
  · rw [hdeclared] at hstop ⊢
    rw [Option.elim_none] at hstop
    show _ ↔ cutBy packet.bytes packet.bytes.length front = _
    omega

/-! ### Segmentation offload -/

/-- `10.0.0.1:12345 -> 10.0.0.2:80` with four bytes of payload, and a total length in
the IPv4 header. -/
def segment (totalLength : UInt8) : PacketRecord where
  timestamp := .ofInt 0
  originalLength := 44
  data := [0x45, 0, 0, totalLength, 0, 0, 0, 0, 64, 6, 0, 0, 10, 0, 0, 1, 10, 0, 0, 2] ++
    [0x30, 0x39, 0, 80, 0, 0, 0, 0, 0, 0, 0, 0, 0x50, 0x18, 0, 0, 0, 0, 0, 0] ++ [1, 2, 3, 4]
  linkType := .ipv4

/-- The packet of a segment. -/
def segmentPacket (payloadBytes : UInt64) : FlowPacket where
  timestamp := .ofInt 0
  srcIp := .v4 0x0A000001
  dstIp := .v4 0x0A000002
  srcPort := 12345
  dstPort := 80
  protocol := 6
  payloadBytes := payloadBytes
  headerBytes := 20
  tcpFlags := ⟨0x18⟩
  tcpWindow := 0

/-- A segment with its total length. -/
theorem payloadBytes_eq_iff_segment : ∃ packet front network tcp stop,
    TcpOf (segment 44) packet front network tcp stop ∧
      ((segmentPacket 4).payloadBytes.toNat = stop - (tcp.offset + tcp.len) ↔
        FieldTells packet.bytes (cutBy packet.bytes packet.bytes.length front) network tcp) := by
  have h : fromRecord (segment 44) = .ok (some (segmentPacket 4)) := by decide +kernel
  exact payloadBytes_eq_iff h rfl (by decide)

/-- A segment that was offloaded: the parser finds the four bytes of payload, and
`from_record` counts none. -/
theorem offloaded_payload : ∃ p packet front network tcp stop,
    fromRecord (segment 0) = .ok (some p) ∧ p.protocol = 6 ∧
      TcpOf (segment 0) packet front network tcp stop ∧
      p.payloadBytes.toNat ≠ stop - (tcp.offset + tcp.len) := by
  have h : fromRecord (segment 0) = .ok (some (segmentPacket 0)) := by decide +kernel
  obtain ⟨packet, front, network, tcp, stop, hof, -⟩ := exists_tcpOf h rfl
  refine ⟨_, packet, front, network, tcp, stop, h, rfl, hof, ?_⟩
  have hparse : tryParseWithLinkType 45 .ipv4 {} (.new (segment 0).data) =
      .ok ((), ⟨(segment 0).data, [⟨.ipv4, 0, 20⟩, ⟨.tcp, 20, 20⟩, ⟨.raw, 40, 4⟩]⟩) := by
    decide +kernel
  obtain rfl := (Prod.ext_iff.1 (Outcome.ok.inj (hparse.symm.trans hof.parsed))).2
  obtain ⟨index, between, hfind, -, -, -, rfl⟩ := hof.found
  have hfound : findTransport [⟨.ipv4, 0, 20⟩, ⟨.tcp, 20, 20⟩, ⟨.raw, 40, 4⟩] =
      some (⟨.tcp, 20, 20⟩, 1) := by decide
  obtain ⟨rfl, rfl⟩ := Prod.ext_iff.1 (Option.some.inj (hfound.symm.trans hfind))
  decide

end Cicflowmeter
end Maja
