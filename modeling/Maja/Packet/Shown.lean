/-
# Showing a packet

`Display for Packet` hands the bytes of every recorded layer to the layer's
`display`, which indexes them without a check: it relies on its parser to have
required what it reads.  Four extension headers go through `parse_ext_header`,
which requires two bytes and compares the declared length, not the recorded one,
with the fixed part; and the length field of an SLL address is compared with
nothing.  Those five aside a recorded layer is always as long as its display reads
(`Call.overreads_iff`), so that the calls of a parse tell whether its packet can be
shown.
-/

import Maja.Packet.Coverage
import Maja.Packet.Path

namespace Maja
namespace Packet

open Lib

/-! ### What a display reads -/

/-- How many bytes of its layer a display needs. -/
def Protocol.shownLen : Protocol → ℕ
  | .eth => 12
  | .vlan => 2
  | .sll => 14
  | .arp => 8
  | .ipv4 => 20
  | .ipv6 => 40
  | .ipv6Hopopt => 2
  | .ipv6DestOpts => 2
  | .ipv6Route => 4
  | .ipv6Frag => 8
  | .ah => 12
  | .ipv6Mobility => 3
  | .ipv6Hip => 4
  | .ipv6Shim6 => 3
  | .esp => 8
  | .gre => 4
  | .tcp => 14
  | .udp => 4
  | .sctp => 4
  | .icmp => 2
  | .icmpv6 => 2
  | .igmp => 8
  | .dns => 8
  | .dhcp => 20
  | .ntp => 2
  | .vxlan => 7
  | .tls => 5
  | .llc => 0
  | .mpls => 0
  | .raw => 0

variable {ε : Type} {α : Type} {bytes header : List UInt8}

/-- Reading a field and going on with its value. -/
theorem Field.get_bind_returns {f : Field} {k : ℕ → Outcome ε α} :
    (f.get header >>= k).Returns ↔ f.hi ≤ header.length ∧ (k (f.peek header)).Returns := by
  by_cases h : f.hi ≤ header.length
  · rw [Field.get_eq h, Outcome.ok_bind, and_iff_right h]
  · have hslice : (Outcome.slice header f.lo f.hi : Outcome ε _) = .panic :=
      Outcome.slice_eq_panic fun hle => h hle.2
    rw [Field.get, hslice]
    exact iff_of_false id fun h' => h h'.1

/-- Indexing an octet and going on. -/
theorem index_bind_returns {i : ℕ} {k : UInt8 → Outcome ε α} (hk : ∀ b, (k b).Returns) :
    (Outcome.index header i >>= k).Returns ↔ i < header.length := by
  by_cases h : i < header.length
  · rw [Outcome.index_eq_ok h, Outcome.ok_bind]
    exact iff_of_true (hk _) h
  · rw [Outcome.index_eq_panic (Nat.le_of_not_lt h)]
    exact iff_of_false id h

/-- The length of an extension header is read from its second byte. -/
theorem extHeaderLen_bind_returns {k : ℕ → Outcome ε α} (hk : ∀ n, (k n).Returns) :
    (Ipv6ExtHeaderViewer.headerLen header >>= k).Returns ↔ 1 < header.length := by
  rw [Ipv6ExtHeaderViewer.headerLen, Outcome.bind_assoc]
  exact index_bind_returns fun b => hk _

/-- The address is cut to its stated length after it was read. -/
theorem Sll.display_returns : (Sll.display header).Returns ↔
    14 ≤ header.length ∧ SllViewer.linkLayerAddrLen.peek header ≤ 8 := by
  have haddr : ∀ (addr len : ℕ) (k : List UInt8 → List Piece),
      (Outcome.slice (beBytes 8 addr) 0 len >>= fun shown => (pure (k shown) : Shown)).Returns ↔
        len ≤ 8 := fun addr len k => by
    rw [Outcome.returns_bind, Outcome.slice_returns, length_beBytes]
    exact ⟨fun h => h.1.2, fun h => ⟨⟨Nat.zero_le _, h⟩, fun _ _ => trivial⟩⟩
  unfold Sll.display
  simp only [Field.get_bind_returns, haddr, ← and_assoc]
  refine and_congr_left fun _ => ?_
  simp only [SllViewer.packetType, SllViewer.arphrdType, SllViewer.linkLayerAddr,
    SllViewer.linkLayerAddrLen]
  omega

/-- The first label is read when there is one. -/
theorem Mpls.display_returns : (Mpls.display header).Returns := by
  unfold Mpls.display MplsEntries.next
  by_cases h : header.length < 4
  · simp [h]
  · have hslice : (Outcome.slice header 0 4 : Outcome Empty _) = .ok (header.take 4) :=
      Outcome.slice_eq_ok (by omega) (by omega)
    have hlen : (header.take 4).length = 4 := by simp; omega
    have hbottom : MplsEntry.bottomOfStack.hi ≤ (header.take 4).length := hlen.ge
    simp [h, hslice, Field.get_eq hbottom, Field.get_bind_returns, hlen, MplsEntry.label]

/-- A message is asked for its types only when it is as long as an Ethernet one. -/
theorem Arp.isEthernetIpv4_ok (header : List UInt8) : ∃ b : Bool,
    (ArpViewer.isEthernetIpv4 header : Outcome Empty Bool) = .ok b ∧
      (b = true → 28 ≤ header.length) := by
  unfold ArpViewer.isEthernetIpv4
  by_cases h : header.length ≥ Arp.ETHERNET_IPV4_LEN
  · have hlen : 28 ≤ header.length := h
    rw [if_pos h, Field.get_eq (by show 2 ≤ _; omega), Outcome.ok_bind,
      Field.get_eq (by show 4 ≤ _; omega), Outcome.ok_bind,
      Field.get_eq (by show 5 ≤ _; omega), Outcome.ok_bind,
      Field.get_eq (by show 6 ≤ _; omega), Outcome.ok_bind]
    exact ⟨_, rfl, fun _ => hlen⟩
  · rw [if_neg h]
    exact ⟨false, rfl, fun hb => by simp at hb⟩

/-- An ARP header is shown when it has its fixed part. -/
theorem Arp.display_returns : (Arp.display header).Returns ↔ 8 ≤ header.length := by
  obtain ⟨b, hb, hlen⟩ := Arp.isEthernetIpv4_ok header
  unfold Arp.display
  rw [hb, Outcome.ok_bind]
  cases b with
  | true =>
    have := hlen rfl
    simp [Field.get_bind_returns, ArpViewer.operation, ArpViewer.senderProtocolAddr,
      ArpViewer.targetProtocolAddr]
    omega
  | false =>
    simp [Field.get_bind_returns, ArpViewer.hardwareType, ArpViewer.protocolType,
      ArpViewer.operation]
    omega

/-- The handshake type is looked up, so that a record without one is shown too. -/
theorem Tls.display_returns : (Tls.display header).Returns ↔ 5 ≤ header.length := by
  unfold Tls.display TlsViewer.handshakeType
  rw [Outcome.bind_assoc, Field.get_bind_returns]
  split_ifs with h₁ h₂
  · simp [Field.get_bind_returns, TlsViewer.contentType, TlsViewer.legacyVersion, TlsViewer.length]
    omega
  · have htype : 6 ≤ header.length := h₂
    simp [Outcome.bind_assoc, Field.get_bind_returns, TlsViewer.contentType,
      TlsViewer.legacyVersion, TlsViewer.length, TlsViewer.FIELD_HANDSHAKE_TYPE]
    omega
  · simp [Field.get_bind_returns, TlsViewer.contentType, TlsViewer.legacyVersion, TlsViewer.length]
    omega

/-- A Shim6 header is shown when it has three bytes. -/
theorem Ipv6Shim6.display_returns : (Ipv6Shim6.display header).Returns ↔ 3 ≤ header.length := by
  unfold Ipv6Shim6.display
  rw [Field.get_bind_returns]
  split_ifs
  · simp [Field.get_bind_returns, Ipv6Shim6Viewer.isPayloadExtension,
      Ipv6ExtHeaderViewer.nextHeader]
    omega
  · simp [Field.get_bind_returns, extHeaderLen_bind_returns, Ipv6Shim6Viewer.isPayloadExtension,
      Ipv6Shim6Viewer.messageType]
    omega

/-- **A display returns when its bytes are there**, and the address of an SLL header
is as long as stated. -/
theorem display_returns_iff (p : Protocol) (header : List UInt8) : (p.display header).Returns ↔
    p.shownLen ≤ header.length ∧
      (p = .sll → SllViewer.linkLayerAddrLen.peek header ≤ 8) := by
  cases p with
  | eth =>
    simp [Protocol.display, Eth.display, EthViewer.dst, EthViewer.src, Field.get_bind_returns,
      Protocol.shownLen]
    omega
  | vlan =>
    simp [Protocol.display, Vlan.display, VlanViewer.vid, Field.get_bind_returns, Protocol.shownLen]
  | ipv4 =>
    simp [Protocol.display, Ipv4.display, Ipv4Viewer.src, Ipv4Viewer.dst, Ipv4Viewer.totalLength,
      Field.get_bind_returns, Protocol.shownLen]
    omega
  | ipv6 =>
    simp [Protocol.display, Ipv6.display, Ipv6Viewer.src, Ipv6Viewer.dst, Ipv6Viewer.payloadLength,
      Field.get_bind_returns, Protocol.shownLen]
    omega
  | ipv6Hopopt =>
    simp [Protocol.display, Ipv6Hopopt.display, displayOptions, Ipv6ExtHeaderViewer.nextHeader,
      extHeaderLen_bind_returns, Field.get_bind_returns, Protocol.shownLen]
    omega
  | ipv6DestOpts =>
    simp [Protocol.display, Ipv6DestOpts.display, displayOptions, Ipv6ExtHeaderViewer.nextHeader,
      extHeaderLen_bind_returns, Field.get_bind_returns, Protocol.shownLen]
    omega
  | ipv6Route =>
    simp [Protocol.display, Ipv6Route.display, Ipv6RouteViewer.routingType,
      Ipv6RouteViewer.segmentsLeft, Ipv6ExtHeaderViewer.nextHeader, Field.get_bind_returns,
      Protocol.shownLen]
    omega
  | ipv6Frag =>
    simp [Protocol.display, Ipv6Frag.display, Ipv6FragViewer.fragmentOffset, Ipv6FragViewer.mFlag,
      Ipv6FragViewer.identification, Ipv6FragViewer.nextHeader, Field.get_bind_returns,
      Protocol.shownLen]
    omega
  | ah =>
    simp [Protocol.display, Ah.display, AhViewer.spi, AhViewer.sequence, AhViewer.nextHeader,
      Field.get_bind_returns, Protocol.shownLen]
    omega
  | ipv6Mobility =>
    simp [Protocol.display, Ipv6Mobility.display, Ipv6MobilityViewer.mhType,
      Ipv6ExtHeaderViewer.nextHeader, extHeaderLen_bind_returns, Field.get_bind_returns,
      Protocol.shownLen]
    omega
  | ipv6Hip =>
    simp [Protocol.display, Ipv6Hip.display, Ipv6HipViewer.packetType, Ipv6HipViewer.version,
      extHeaderLen_bind_returns, Field.get_bind_returns, Protocol.shownLen]
    omega
  | esp =>
    simp [Protocol.display, Esp.display, EspViewer.spi, EspViewer.sequence, Field.get_bind_returns,
      Protocol.shownLen]
    omega
  | gre =>
    simp [Protocol.display, Gre.display, GreViewer.protocolType, GreViewer.flags,
      Field.get_bind_returns, Protocol.shownLen]
    omega
  | tcp =>
    simp [Protocol.display, Tcp.display, TcpViewer.srcPort, TcpViewer.dstPort, TcpViewer.flags,
      Field.get_bind_returns, Protocol.shownLen]
    omega
  | udp =>
    simp [Protocol.display, Udp.display, displayPorts, UdpViewer.srcPort, UdpViewer.dstPort,
      Field.get_bind_returns, Protocol.shownLen]
    omega
  | sctp =>
    simp [Protocol.display, Sctp.display, displayPorts, UdpViewer.srcPort, UdpViewer.dstPort,
      Field.get_bind_returns, Protocol.shownLen]
    omega
  | icmp =>
    simp [Protocol.display, Icmp.display, displayMessage, IcmpViewer.messageType, IcmpViewer.code,
      Field.get_bind_returns, Protocol.shownLen]
    omega
  | icmpv6 =>
    simp [Protocol.display, Icmpv6.display, displayMessage, IcmpViewer.messageType, IcmpViewer.code,
      Field.get_bind_returns, Protocol.shownLen]
    omega
  | igmp =>
    simp [Protocol.display, Igmp.display, IgmpViewer.messageType, IgmpViewer.groupAddr,
      Field.get_bind_returns, Protocol.shownLen]
    omega
  | dns =>
    simp [Protocol.display, Dns.display, DnsViewer.id, DnsViewer.opcode, DnsViewer.qdcount,
      DnsViewer.ancount, Field.get_bind_returns, Protocol.shownLen]
    omega
  | dhcp =>
    simp [Protocol.display, Dhcp.display, DhcpViewer.op, DhcpViewer.xid, DhcpViewer.yiaddr,
      Field.get_bind_returns, Protocol.shownLen]
    omega
  | ntp =>
    simp [Protocol.display, Ntp.display, NtpViewer.version, NtpViewer.mode, NtpViewer.stratum,
      Field.get_bind_returns, Protocol.shownLen]
    omega
  | vxlan =>
    simp [Protocol.display, Vxlan.display, VxlanViewer.vni, Field.get_bind_returns,
      Protocol.shownLen]
  | sll => simpa [Protocol.display, Protocol.shownLen] using Sll.display_returns
  | mpls => simpa [Protocol.display, Protocol.shownLen] using Mpls.display_returns
  | arp => simpa [Protocol.display, Protocol.shownLen] using Arp.display_returns
  | tls => simpa [Protocol.display, Protocol.shownLen] using Tls.display_returns
  | ipv6Shim6 => simpa [Protocol.display, Protocol.shownLen] using Ipv6Shim6.display_returns
  | llc => simp [Protocol.display, Llc.display, Protocol.shownLen]
  | raw => simp [Protocol.display, Raw.display, Protocol.shownLen]

/-! ### What a parser records -/

/-- The layer of the call is shorter than its display reads: two or three bytes of
a routing or HIP header, two of a mobility or Shim6 header, or an SLL address with
a stated length of more than the eight bytes of its field. -/
def Call.Overreads (c : Call) : Prop :=
  match c.protocol with
  | .sll => c.offset + 16 ≤ c.region.stop ∧
      8 < SllViewer.linkLayerAddrLen.peek ((c.region.bytes.drop c.offset).take 16)
  | .ipv6Route => c.offset + 2 ≤ c.region.stop ∧ c.region.stop < c.offset + 4
  | .ipv6Mobility => c.region.stop = c.offset + 2
  | .ipv6Shim6 => c.region.stop = c.offset + 2
  | .ipv6Hip => c.offset + 2 ≤ c.region.stop ∧ c.region.stop < c.offset + 4 ∧
      40 ≤ (lengthOctet ((c.region.bytes.drop c.offset).take 2) + 1) * 8
  | _ => False

/-- The captured bytes can be shown as the layer. -/
def Layer.Shows (bytes : List UInt8) (l : Layer) : Prop :=
  (l.bytes bytes >>= l.protocol.display).Returns

/-- A layer of captured bytes is shown when it is as long as its display reads. -/
theorem Layer.shows_iff {l : Layer} (h : l.offset + l.len ≤ bytes.length) : l.Shows bytes ↔
    l.protocol.shownLen ≤ l.len ∧
      (l.protocol = .sll →
        SllViewer.linkLayerAddrLen.peek ((bytes.drop l.offset).take l.len) ≤ 8) := by
  have hlen : ((bytes.drop l.offset).take l.len).length = l.len := by simp; omega
  rw [Layer.Shows, Layer.bytes, Outcome.slice_eq_ok (Nat.le_add_right _ _) h,
    Nat.add_sub_cancel_left, Outcome.ok_bind, display_returns_iff, hlen]

section Recorded

variable {r : Region} {p : Protocol} {offset len n : ℕ}

/-- A header behind a length check passed it. -/
theorem need_headerLen_iff {k : List UInt8 → Verdict} :
    (r.need p offset n k).headerLen = some len ↔
      offset + n ≤ r.stop ∧ (k ((r.bytes.drop offset).take n)).headerLen = some len := by
  unfold Region.need
  split_ifs with h
  · rw [and_iff_right h]
  · exact iff_of_false (by simp [Verdict.headerLen]) fun h' => h h'.1

/-- A header that takes what its declared length and the region allow. -/
theorem decodeDeclared_headerLen_iff {declared : ℕ} :
    (decodeDeclared r p offset declared).headerLen = some len ↔
      offset + min declared (r.stop - offset) ≤ r.stop ∧ min declared (r.stop - offset) = len := by
  rw [decodeDeclared, need_headerLen_iff]
  simp [Verdict.headerLen]

/-- The length that is recorded of an extension header. -/
theorem decodeExtHeader_headerLen_iff {fixedLen : ℕ} :
    (decodeExtHeader r p fixedLen offset).headerLen = some len ↔
      offset + 2 ≤ r.stop ∧
        fixedLen ≤ (lengthOctet ((r.bytes.drop offset).take 2) + 1) * 8 ∧
        min ((lengthOctet ((r.bytes.drop offset).take 2) + 1) * 8) (r.stop - offset) = len := by
  rw [decodeExtHeader, need_headerLen_iff]
  refine and_congr_right fun h => ?_
  split_ifs with hfixed
  · exact iff_of_false (by simp [Verdict.headerLen]) fun h' => by omega
  · rw [decodeDeclared_headerLen_iff]
    omega

/-- The length that is recorded of a header up to the end. -/
theorem decodeToEnd_headerLen_iff {minLen : ℕ} :
    (decodeToEnd r p minLen offset).headerLen = some len ↔
      offset + minLen ≤ r.stop ∧ r.stop - offset = len := by
  rw [decodeToEnd, need_headerLen_iff]
  simp [Verdict.headerLen]

/-- The five displays that may read more than their parser required. -/
def Protocol.MayOverread (p : Protocol) : Prop :=
  p = .sll ∨ p = .ipv6Route ∨ p = .ipv6Mobility ∨ p = .ipv6Shim6 ∨ p = .ipv6Hip

/-- All other parsers require what their display reads. -/
theorem shownLen_le (hp : ¬p.MayOverread) (h : (decode p r offset).headerLen = some len) :
    p.shownLen ≤ len := by
  have hpos := (headerLen_sound h).1
  cases p with
  | sll => exact absurd (.inl rfl) hp
  | ipv6Route => exact absurd (.inr (.inl rfl)) hp
  | ipv6Mobility => exact absurd (.inr (.inr (.inl rfl))) hp
  | ipv6Shim6 => exact absurd (.inr (.inr (.inr (.inl rfl)))) hp
  | ipv6Hip => exact absurd (.inr (.inr (.inr (.inr rfl)))) hp
  | llc => exact Nat.zero_le _
  | mpls => exact Nat.zero_le _
  | raw => exact Nat.zero_le _
  | eth => rw [decode, need_headerLen_iff] at h; obtain rfl := Option.some.inj h.2; decide
  | vlan => rw [decode, need_headerLen_iff] at h; obtain rfl := Option.some.inj h.2; decide
  | ipv6 => rw [decode, need_headerLen_iff] at h; obtain rfl := Option.some.inj h.2; decide
  | ipv6Frag => rw [decode, need_headerLen_iff] at h; obtain rfl := Option.some.inj h.2; decide
  | esp => rw [decode, need_headerLen_iff] at h; obtain rfl := Option.some.inj h.2; decide
  | udp => rw [decode, need_headerLen_iff] at h; obtain rfl := Option.some.inj h.2; decide
  | igmp => rw [decode, need_headerLen_iff] at h; obtain rfl := Option.some.inj h.2; decide
  | vxlan => rw [decode, need_headerLen_iff] at h; obtain rfl := Option.some.inj h.2; decide
  | arp =>
    rw [decode, need_headerLen_iff, need_headerLen_iff] at h
    obtain rfl := Option.some.inj h.2.2
    exact Nat.le_add_right _ _
  | gre =>
    rw [decode, need_headerLen_iff, need_headerLen_iff] at h
    obtain rfl := Option.some.inj h.2.2
    exact GreViewer.le_lenOfFlags _
  | tls =>
    rw [decode, need_headerLen_iff, need_headerLen_iff] at h
    obtain rfl := Option.some.inj h.2.2
    exact Nat.le_add_right _ _
  | tcp =>
    rw [decode, need_headerLen_iff] at h
    obtain ⟨-, h⟩ := h
    dsimp only at h
    split_ifs at h with hmin
    · cases h
    · rw [need_headerLen_iff] at h
      obtain rfl := Option.some.inj h.2
      show 14 ≤ _
      omega
  | ipv4 =>
    rw [decode, need_headerLen_iff] at h
    obtain ⟨-, h⟩ := h
    dsimp only at h
    split_ifs at h with hmin
    · cases h
    · rw [need_headerLen_iff] at h
      obtain ⟨-, h⟩ := h
      show 20 ≤ _
      split_ifs at h <;> obtain rfl := Option.some.inj h <;> omega
  | ah =>
    rw [decode, need_headerLen_iff] at h
    obtain ⟨hmin, h⟩ := h
    split_ifs at h with hdeclared
    · cases h
    · rw [decodeDeclared_headerLen_iff] at h
      show 12 ≤ _
      omega
  | ipv6Hopopt =>
    rw [decode, decodeExtHeader_headerLen_iff] at h
    show 2 ≤ _
    omega
  | ipv6DestOpts =>
    rw [decode, decodeExtHeader_headerLen_iff] at h
    show 2 ≤ _
    omega
  | sctp => rw [decode, decodeToEnd_headerLen_iff] at h; show 4 ≤ _; omega
  | icmp => rw [decode, decodeToEnd_headerLen_iff] at h; show 2 ≤ _; omega
  | icmpv6 => rw [decode, decodeToEnd_headerLen_iff] at h; show 2 ≤ _; omega
  | dns => rw [decode, decodeToEnd_headerLen_iff] at h; show 8 ≤ _; omega
  | dhcp => rw [decode, decodeToEnd_headerLen_iff] at h; show 20 ≤ _; omega
  | ntp => rw [decode, decodeToEnd_headerLen_iff] at h; show 2 ≤ _; omega

end Recorded

/-- A recorded layer is captured. -/
theorem Call.recorded_inside {c : Call} {len : ℕ} (h : c.verdict.headerLen = some len) :
    c.offset + len ≤ c.region.bytes.length :=
  (headerLen_sound h).2.trans c.region.stop_le

/-- An extension header is shown if the region has the bytes its display reads; its
declared length has been compared with more than that. -/
theorem extHeader_unshown_iff {r : Region} {p : Protocol} {offset fixedLen : ℕ} (hp : p ≠ .sll)
    (hdecode : decode p r offset = decodeExtHeader r p fixedLen offset)
    (hfixed : p.shownLen ≤ max 8 fixedLen) :
    (∃ len, (decode p r offset).headerLen = some len ∧ ¬(⟨p, offset, len⟩ : Layer).Shows r.bytes) ↔
      offset + 2 ≤ r.stop ∧ r.stop < offset + p.shownLen ∧
        fixedLen ≤ (lengthOctet ((r.bytes.drop offset).take 2) + 1) * 8 := by
  constructor
  · rintro ⟨len, hlen, hshows⟩
    rw [Layer.shows_iff (Call.recorded_inside (c := ⟨p, 0, r, offset⟩) hlen)] at hshows
    rw [hdecode, decodeExtHeader_headerLen_iff] at hlen
    have hshort : ¬p.shownLen ≤ len := fun h => hshows ⟨h, fun h' => absurd h' hp⟩
    omega
  · rintro ⟨hmin, hshort, hdeclared⟩
    have hlen : (decode p r offset).headerLen =
        some (min ((lengthOctet ((r.bytes.drop offset).take 2) + 1) * 8) (r.stop - offset)) := by
      rw [hdecode, decodeExtHeader_headerLen_iff]
      exact ⟨hmin, hdeclared, rfl⟩
    refine ⟨_, hlen, fun hshows => ?_⟩
    rw [Layer.shows_iff (Call.recorded_inside (c := ⟨p, 0, r, offset⟩) hlen)] at hshows
    have := hshows.1
    dsimp only at this
    omega

/-- **A call overreads exactly when it records a layer that cannot be shown.** -/
theorem Call.overreads_iff (c : Call) : c.Overreads ↔
    ∃ len, c.verdict.headerLen = some len ∧
      ¬(⟨c.protocol, c.offset, len⟩ : Layer).Shows c.region.bytes := by
  obtain ⟨p, depth, r, offset⟩ := c
  show Call.Overreads _ ↔ ∃ len, (decode p r offset).headerLen = some len ∧
    ¬(⟨p, offset, len⟩ : Layer).Shows r.bytes
  by_cases hp : p.MayOverread
  · obtain rfl | rfl | rfl | rfl | rfl := hp
    · constructor
      · rintro ⟨hmin, hlong⟩
        have hlen : (decode .sll r offset).headerLen = some 16 := by
          rw [decode, need_headerLen_iff]
          exact ⟨hmin, rfl⟩
        refine ⟨16, hlen, fun hshows => ?_⟩
        rw [Layer.shows_iff (hmin.trans r.stop_le)] at hshows
        exact absurd (hshows.2 rfl) (Nat.not_le.2 hlong)
      · rintro ⟨len, hlen, hshows⟩
        rw [decode, need_headerLen_iff] at hlen
        obtain ⟨hmin, hlen⟩ := hlen
        obtain rfl := Option.some.inj hlen
        rw [Layer.shows_iff (hmin.trans r.stop_le)] at hshows
        exact ⟨hmin, Nat.lt_of_not_le fun h => hshows ⟨show 14 ≤ 16 by omega, fun _ => h⟩⟩
    · rw [extHeader_unshown_iff (by decide) rfl (by decide)]
      show offset + 2 ≤ r.stop ∧ r.stop < offset + 4 ↔ _ ∧ r.stop < offset + 4 ∧ 4 ≤ _
      omega
    · rw [extHeader_unshown_iff (by decide) rfl (by decide)]
      show r.stop = offset + 2 ↔ _ ∧ r.stop < offset + 3 ∧ 6 ≤ _
      omega
    · rw [extHeader_unshown_iff (by decide) rfl (by decide)]
      show r.stop = offset + 2 ↔ _ ∧ r.stop < offset + 3 ∧ 6 ≤ _
      omega
    · rw [extHeader_unshown_iff (by decide) rfl (by decide)]
      rfl
  · have hfalse : ¬Call.Overreads ⟨p, depth, r, offset⟩ := by
      cases p <;> first
        | exact id
        | exact fun _ => hp (by simp [Protocol.MayOverread])
    refine iff_of_false hfalse ?_
    rintro ⟨len, hlen, hshows⟩
    rw [Layer.shows_iff (Call.recorded_inside (c := ⟨p, 0, r, offset⟩) hlen)] at hshows
    exact hshows ⟨shownLen_le hp hlen, fun h => absurd (.inl h) hp⟩

/-! ### What a parse leaves to be shown -/

section Descend

variable {options : ParseOptions} {r : Region} {p : Protocol} {offset depth len : ℕ}

/-- A raw layer is shown. -/
theorem shows_rawLayers : ∀ l ∈ rawLayers r offset, l.Shows r.bytes := by
  intro l hl
  unfold rawLayers at hl
  split_ifs at hl with hlt
  · obtain rfl := List.mem_singleton.1 hl
    have hstop := r.stop_le
    rw [Layer.shows_iff (show offset + (r.stop - offset) ≤ _ by omega)]
    exact ⟨Nat.zero_le _, fun h => by cases h⟩
  · cases hl

/-- A trailer is shown. -/
theorem shows_trailingLayers (payloadEnd : Option ℕ) :
    ∀ l ∈ trailingLayers r payloadEnd, l.Shows r.bytes := by
  cases payloadEnd with
  | none => exact fun l hl => by cases hl
  | some e => exact shows_rawLayers

/-- A header that is recorded and turned down afterwards is shown. -/
theorem not_overreads_of_reject (depth : ℕ) {err : ParseError} (h : decode p r offset = .reject len err) :
    ¬Call.Overreads ⟨p, depth, r, offset⟩ := by
  have hext : ∀ fixedLen, decodeExtHeader r p fixedLen offset ≠ .reject len err := by
    intro fixedLen h
    simp only [decodeExtHeader, decodeDeclared, Region.need] at h
    split_ifs at h
  cases p with
  | sll =>
      simp only [decode, Region.need] at h
      split_ifs at h
  | ipv6Route => exact absurd h (hext _)
  | ipv6Mobility => exact absurd h (hext _)
  | ipv6Hip => exact absurd h (hext _)
  | ipv6Shim6 => exact absurd h (hext _)
  | _ => exact id

/-- A call that goes on to nothing does not overread. -/
theorem not_overreads_of_last {c : Call} (hheader : ∀ len next, c.verdict ≠ .header len next)
    (hdatagram : ∀ len payloadEnd next, c.verdict ≠ .datagram len payloadEnd next) :
    ∀ d, Call.Leads options c d → ¬d.Overreads := by
  rw [Call.forall_leads_of_noStep (Call.not_step hheader hdatagram), Call.overreads_iff]
  rintro ⟨len, hlen, hshows⟩
  cases hverdict : c.verdict with
  | reject n err =>
      refine not_overreads_of_reject c.depth hverdict ?_
      exact (Call.overreads_iff c).2 ⟨len, hlen, hshows⟩
  | header n next => exact hheader n next hverdict
  | datagram n payloadEnd next => exact hdatagram n payloadEnd next hverdict
  | _ =>
      rw [hverdict] at hlen
      cases hlen

/-- The layers that a header encloses, and the raw ones behind them. -/
theorem shows_enclose_iff (depth : ℕ) {t : Trace} {payloadEnd : Option ℕ}
    (hlen : (decode p r offset).headerLen = some len) :
    (∀ l ∈ (t.enclose r ⟨p, offset, len⟩ payloadEnd).layers, l.Shows r.bytes) ↔
      ¬Call.Overreads ⟨p, depth, r, offset⟩ ∧ ∀ l ∈ t.layers, l.Shows r.bytes := by
  have hheader : (⟨p, offset, len⟩ : Layer).Shows r.bytes ↔
      ¬Call.Overreads ⟨p, depth, r, offset⟩ := by
    rw [Call.overreads_iff]
    constructor
    · rintro hshows ⟨len', hlen', hnot⟩
      obtain rfl := Option.some.inj (hlen.symm.trans hlen')
      exact hnot hshows
    · intro h
      by_contra hnot
      exact h ⟨len, hlen, hnot⟩
  unfold Trace.enclose
  cases t.error with
  | none =>
      dsimp only
      rw [List.cons_append, List.forall_mem_cons, List.forall_mem_append, hheader,
        and_iff_left (shows_trailingLayers payloadEnd)]
  | some err =>
      dsimp only
      rw [List.forall_mem_cons, hheader]

/-- What is recorded behind a header is shown if no call from there on overreads. -/
theorem shows_follow_iff {fuel : ℕ} (hfuel : r.stop - offset < fuel) (next : Next)
    (ih : ∀ protocol, (∀ l ∈ (descend options fuel depth r protocol offset).layers, l.Shows r.bytes) ↔
      ∀ d, Call.Leads options ⟨protocol, depth, r, offset⟩ d → ¬d.Overreads) :
    (∀ l ∈ (follow options (fun child => descend options fuel depth r child offset) depth r offset
        next).layers, l.Shows r.bytes) ↔
      ∀ child, next = .child child → options.AllowsLayer depth →
        ∀ d, Call.Leads options ⟨child, depth, r, offset⟩ d → ¬d.Overreads := by
  cases next with
  | stop => exact iff_of_true (fun l hl => by cases hl) fun _ h => by cases h
  | raw => exact iff_of_true shows_rawLayers fun _ h => by cases h
  | child protocol =>
      simp only [Next.child.injEq, forall_eq']
      rw [follow]
      split_ifs with hallow
      · rw [forall_prop_of_true hallow]
        unfold Trace.fallback
        cases herror : (descend options fuel depth r protocol offset).error with
        | none => exact ih protocol
        | some err =>
            dsimp only
            split_ifs with hfallback
            · -- The child that failed is the last call, and what it recorded is dropped.
              obtain ⟨fuel, rfl⟩ : ∃ n, fuel = n + 1 := ⟨fuel - 1, by omega⟩
              have hfail := (error_descend_iff hfallback).1 (by rw [herror]; simp)
              refine iff_of_true shows_rawLayers (not_overreads_of_last ?_ ?_)
              all_goals
                intros
                rcases hfail with ⟨_, hfail⟩ | ⟨_, _, hfail⟩ <;> simp [Call.verdict, hfail]
            · exact ih protocol
      · exact iff_of_true shows_rawLayers fun h => absurd h hallow

/-- **The layers of a descent are shown exactly when none of its calls overreads.**
The induction is on the fuel, along the verdicts. -/
theorem shows_descend_iff {fuel : ℕ} (hfuel : r.stop - offset < fuel) :
    (∀ l ∈ (descend options fuel depth r p offset).layers, l.Shows r.bytes) ↔
      ∀ d, Call.Leads options ⟨p, depth, r, offset⟩ d → ¬d.Overreads := by
  induction fuel generalizing depth r p offset with
  | zero => omega
  | succ fuel ih =>
      have hsound := decode_sound p r offset
      rw [descend]
      cases hverdict : decode p r offset with
      | fail err =>
          refine iff_of_true (fun l hl => by cases hl) (not_overreads_of_last ?_ ?_) <;>
            simp [Call.verdict, hverdict]
      | skip =>
          refine iff_of_true (fun l hl => by cases hl) (not_overreads_of_last ?_ ?_) <;>
            simp [Call.verdict, hverdict]
      | unparsed =>
          refine iff_of_true shows_rawLayers (not_overreads_of_last ?_ ?_) <;>
            simp [Call.verdict, hverdict]
      | reject len err =>
          have hlen : (decode p r offset).headerLen = some len := by rw [hverdict]; rfl
          have hshows := @shows_enclose_iff r p offset len depth ⟨some err, []⟩ none hlen
          refine iff_of_true (hshows.2 ⟨not_overreads_of_reject depth hverdict, fun l hl => by cases hl⟩)
            (not_overreads_of_last ?_ ?_) <;> simp [Call.verdict, hverdict]
      | header len next =>
          have hlen : (decode p r offset).headerLen = some len := by rw [hverdict]; rfl
          rw [hverdict] at hsound
          obtain ⟨hpos, hend⟩ := hsound
          dsimp only
          rw [shows_enclose_iff depth hlen,
            shows_follow_iff (by omega) next (fun protocol => ih (by omega)),
            Call.forall_leads_iff,
            @Call.forall_step_header options ⟨p, depth, r, offset⟩ len next _ hverdict]
      | datagram len payloadEnd next =>
          have hlen : (decode p r offset).headerLen = some len := by rw [hverdict]; rfl
          rw [hverdict] at hsound
          obtain ⟨hpos, hend, -⟩ := hsound
          have hstop := narrow_stop_le r payloadEnd
          have hbytes : r.bytes = (r.narrow payloadEnd).bytes := by cases payloadEnd <;> rfl
          dsimp only
          rw [shows_enclose_iff depth hlen, hbytes,
            shows_follow_iff (by omega) next (fun protocol => ih (by omega)),
            Call.forall_leads_iff,
            @Call.forall_step_datagram options ⟨p, depth, r, offset⟩ len payloadEnd next _ hverdict]

end Descend

/-- The loop over the layers returns when every layer is shown. -/
theorem displayLayers_returns (i : ℕ) (layers : List Layer) :
    (displayLayers bytes i layers).Returns ↔ ∀ l ∈ layers, l.Shows bytes := by
  induction layers generalizing i with
  | nil => exact iff_of_true trivial fun l hl => by cases hl
  | cons l layers ih =>
      rw [displayLayers, List.forall_mem_cons, ← ih (i + 1), ← Outcome.bind_assoc,
        Outcome.returns_bind]
      refine and_congr_right fun hl => ?_
      constructor
      · intro h
        cases hshown : (l.bytes bytes >>= l.protocol.display : Shown) with
        | ok shown => exact (Outcome.returns_bind.1 (h shown hshown)).1
        | err e => exact e.elim
        | panic => rw [hshown] at hl; exact hl.elim
        | outOfFuel => rw [hshown] at hl; exact hl.elim
      · intro h shown _
        exact Outcome.returns_bind.2 ⟨h, fun _ _ => trivial⟩

/-- **When a parsed packet can be displayed.**  Whether the parse returned `Ok` or
`Err`, `Display` returns if and only if none of the calls of the parse overreads. -/
theorem display_returns_parsed (linkType : Capture.LinkType) (bytes : List UInt8)
    (options : ParseOptions) (fuel : ℕ) (hfuel : bytes.length < fuel) :
    ∃ packet : Maja.Packet,
      Leaves (tryParseWithLinkType fuel linkType options (new bytes)) packet ∧
      (packet.display.Returns ↔ ∀ call, Reaches options linkType bytes call → ¬call.Overreads) := by
  rw [tryParseWithLinkType_new linkType hfuel]
  refine ⟨_, Trace.leaves_toPacket _ _, ?_⟩
  rw [display, displayLayers_returns]
  show (∀ l ∈ (parseTrace options fuel bytes linkType).layers, l.Shows bytes) ↔ _
  unfold parseTrace Reaches
  cases rootOf bytes linkType with
  | protocol p =>
      simp only [Root.protocol.injEq, exists_eq_left', rootTrace]
      split_ifs with hallow
      · simp only [hallow, true_and]
        exact shows_descend_iff (r := .whole bytes) hfuel
      · exact iff_of_true (fun l hl => by cases hl) fun call h => absurd h.1 hallow
  | unparsed =>
      refine iff_of_true (shows_rawLayers (r := .whole bytes)) ?_
      rintro call ⟨p, hp, -⟩
      cases hp
  | unsupported =>
      refine iff_of_true (fun l hl => by cases hl) ?_
      rintro call ⟨p, hp, -⟩
      cases hp

/-- An IPv6 packet that was cut two bytes into its routing header. -/
def cutRoute : List UInt8 :=
  [0x60, 0, 0, 0, 0, 24, 43, 64] ++ List.replicate 32 0 ++ [59, 2]

/-- **The routing type is read behind the end of the recorded layer.** -/
theorem cutRoute_not_displayed :
    tryParseWithLinkType 43 .ipv6 {} (new cutRoute) =
      .ok ((), ⟨cutRoute, [⟨.ipv6, 0, 40⟩, ⟨.ipv6Route, 40, 2⟩]⟩) ∧
    (⟨cutRoute, [⟨.ipv6, 0, 40⟩, ⟨.ipv6Route, 40, 2⟩]⟩ : Maja.Packet).display = .panic := by
  decide +kernel

/-- The cut packet makes the call that overreads. -/
theorem display_returns_parsed_cutRoute :
    ∃ packet : Maja.Packet, Leaves (tryParseWithLinkType 43 .ipv6 {} (new cutRoute)) packet ∧
      (packet.display.Returns ↔ ∀ call, Reaches {} .ipv6 cutRoute call → ¬call.Overreads) :=
  display_returns_parsed .ipv6 cutRoute {} 43 (by decide)

end Packet
end Maja
