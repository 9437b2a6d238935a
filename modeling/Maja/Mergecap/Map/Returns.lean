/-
# When checksums are set right without a panic

What `fix_checksums` of `tools/maja-mergecap/src/map.rs` needs of a packet whose
addresses were written.  The layers of a parsed packet are long enough for whatever the
rewriter reads, with one exception: the extension headers are recorded as far as the
packet reaches, and `pseudo_header_dst` reads the fourth byte of a routing header.  And
the sum of a checksum is a `u32`, which a segment of more than 131 KB may overflow.  So
`Fixable` names the two, and `fixChecksums_returns` says that there is nothing else.
-/

import Maja.Mergecap.Map.Fixed
import Maja.Packet.FullHeaders
import Maja.Packet.Rfc1071

namespace Maja
namespace Mergecap

open Lib Packet

variable {ε : Type}

/-! ### Reading a readable packet -/

section Reading

variable {p q : Maja.Packet}

/-- A packet with the layers and the length of a readable one is readable. -/
theorem readable_congr (h : Readable p) (hlayers : q.layers = p.layers)
    (hlength : q.bytes.length = p.bytes.length) : Readable q where
  inside l hl := hlength ▸ h.inside l (hlayers ▸ hl)
  full l hl := h.full l (hlayers ▸ hl)

/-- A field inside the fixed part of a layer can be set, and the packet stays readable. -/
theorem setField_returns (h : Readable p) {l : Layer} (hl : l ∈ p.layers) {f : Field}
    (hf : f.hi ≤ l.protocol.minLen) (value : ℕ) :
    ∃ q, (p.setField l f value : Outcome ε _) = .ok q ∧ Readable q := by
  obtain ⟨header, hheader, hlen⟩ := h.bytes (ε := ε) hl
  obtain ⟨header', hput⟩ : ∃ header', (f.put header value : Outcome ε _) = .ok header' := by
    rw [Field.put, Outcome.slice_eq_ok f.lo_le_hi (hf.trans hlen)]
    exact ⟨_, rfl⟩
  have hset : (p.setField l f value : Outcome ε _) = .ok { p with
      bytes := p.bytes.take l.offset ++ header' ++ p.bytes.drop (l.offset + l.len) } := by
    rw [setField, hheader, Outcome.ok_bind, hput]
    rfl
  obtain ⟨hlayers, -, -, hbytes⟩ := setField_eq_ok hset
  exact ⟨_, hset, readable_congr h hlayers hbytes.length⟩

/-- The extension headers are layers of the packet. -/
theorem mem_of_chainLayers {chain : List Layer} (h : chainLayers p = some chain) {l : Layer}
    (hl : l ∈ chain) : l ∈ p.layers ∧ isChainLayer l = true := by
  obtain ⟨start, -, rfl⟩ := Option.map_eq_some_iff.1 h
  exact ⟨List.mem_of_mem_drop ((List.takeWhile_prefix _).subset hl), List.mem_takeWhile_imp hl⟩

/-- An extension header has its first byte. -/
theorem minLen_of_isChainLayer {l : Layer} (h : isChainLayer l = true) : 2 ≤ l.protocol.minLen := by
  obtain ⟨protocol, offset, len⟩ := l
  cases protocol <;> first | exact Nat.le_of_ble_eq_true rfl | cases h

/-- The extension headers of a readable packet can be followed. -/
theorem followChain_returns (h : Readable p) {chain : List Layer}
    (hchain : ∀ l ∈ chain, l ∈ p.layers ∧ isChainLayer l = true) (first : ℕ) :
    ∃ last, (followChain p.bytes first chain : Outcome ε _) = .ok last := by
  induction chain generalizing first with
  | nil => exact ⟨first, rfl⟩
  | cons l chain ih =>
    obtain ⟨hl, hext⟩ := hchain l List.mem_cons_self
    obtain ⟨header, hheader, hlen⟩ := h.bytes (ε := ε) hl
    have hpos : 0 < header.length :=
      (show 0 < 2 by decide).trans_le ((minLen_of_isChainLayer hext).trans hlen)
    rw [followChain, hheader, Outcome.ok_bind, Outcome.index_eq_ok hpos, Outcome.ok_bind]
    exact ih (fun l hl => hchain l (List.mem_cons_of_mem _ hl)) _

/-- The protocol behind the extension headers of a readable packet is found. -/
theorem nextHeader_returns (h : Readable p) :
    ∃ found, (nextHeader p : Outcome ε _) = .ok found := by
  unfold nextHeader
  split
  · rename_i ipv6 chain hipv6 hchain
    obtain ⟨header, hheader, hlen⟩ := h.bytes (ε := ε) (List.mem_of_find?_eq_some hipv6)
    have hprotocol : ipv6.protocol = .ipv6 := by simpa using List.find?_some hipv6
    rw [hprotocol] at hlen
    rw [hheader, Outcome.ok_bind]
    refine Field.get_bind ((show Ipv6Viewer.nextHeader.hi ≤ 40 by decide).trans hlen) fun first => ?_
    obtain ⟨last, hlast⟩ := followChain_returns (ε := ε) h (fun l => mem_of_chainLayers hchain) first
    rw [hlast]
    exact ⟨_, rfl⟩
  · exact ⟨none, rfl⟩

/-- The transport of a readable packet is found. -/
theorem outerTransport_returns (h : Readable p) :
    ∃ found, (outerTransport p : Outcome ε _) = .ok found := by
  unfold outerTransport
  split_ifs
  · refine h.viewer_bind ⟨none, rfl⟩ fun ipv4 hlen => ?_
    exact Field.get_bind ((show Ipv4Viewer.protocol.hi ≤ 20 by decide).trans hlen)
      fun protocol => ⟨_, rfl⟩
  · obtain ⟨found, hfound⟩ := nextHeader_returns (ε := ε) h
    rw [hfound]
    exact ⟨_, rfl⟩

/-- The ports of a readable packet can be read. -/
theorem ports_returns (h : Readable p) : ∃ found, (ports p : Outcome ε _) = .ok found := by
  have hports : ∀ (protocol : Protocol) (src dst : Field), src.hi ≤ protocol.minLen →
      dst.hi ≤ protocol.minLen → ∃ found, (portsOf p protocol src dst : Outcome ε _) = .ok found := by
    intro protocol src dst hsrc hdst
    refine h.viewer_bind ⟨_, rfl⟩ fun header hlen => ?_
    exact Field.get_bind (hsrc.trans hlen) fun _ =>
      Field.get_bind (hdst.trans hlen) fun _ => ⟨_, rfl⟩
  obtain ⟨found, hfound⟩ := outerTransport_returns (ε := ε) h
  rw [ports, hfound, Outcome.ok_bind]
  split
  · exact hports .tcp _ _ (by decide) (by decide)
  · exact hports .udp _ _ (by decide) (by decide)
  · exact ⟨_, rfl⟩

/-- The fragment header of a readable packet can be read. -/
theorem fragmentOf_returns (h : Readable p) (src dst : IpAddr) :
    ∃ found, (outerFragment p >>= PacketInfo.fragmentOf src dst : Outcome ε _) = .ok found := by
  unfold outerFragment chainViewer
  cases hlayer : (chainLayers p).bind (List.find? fun layer => layer.protocol = .ipv6Frag) with
  | none => exact ⟨_, rfl⟩
  | some l =>
    obtain ⟨chain, hchain, hfind⟩ := Option.bind_eq_some_iff.1 hlayer
    have hl := (mem_of_chainLayers hchain (List.mem_of_find?_eq_some hfind)).1
    have hprotocol : l.protocol = .ipv6Frag := by simpa using List.find?_some hfind
    obtain ⟨header, hheader, hlen⟩ := h.bytes (ε := ε) hl
    rw [hprotocol] at hlen
    dsimp only
    rw [hheader]
    refine Field.get_bind ((show Ipv6FragViewer.nextHeader.hi ≤ 8 by decide).trans hlen) fun _ => ?_
    exact Field.get_bind ((show Ipv6FragViewer.identification.hi ≤ 8 by decide).trans hlen)
      fun _ => ⟨_, rfl⟩

/-- **What a rewriter wants to know of a readable packet is read.** -/
theorem read_returns (h : Readable p) : ∃ info, (PacketInfo.read p : Outcome ε _) = .ok info := by
  obtain ⟨⟨srcPort, dstPort, hasPorts⟩, hports⟩ := ports_returns (ε := ε) h
  unfold PacketInfo.read
  split
  · refine h.viewer_bind ⟨_, rfl⟩ fun ipv4 hlen => ?_
    have hget : ∀ {f : Field} {α : Type} {k : ℕ → Outcome ε α}, f.hi ≤ 20 →
        (∀ value, ∃ a, k value = .ok a) → ∃ a, (f.get ipv4 >>= k) = .ok a :=
      fun hf hk => Field.get_bind (hf.trans hlen) hk
    have hinfo : ∃ info, (PacketInfo.fromIpv4 p ipv4 : Outcome ε _) = .ok info := by
      rw [PacketInfo.fromIpv4, hports, Outcome.ok_bind]
      exact hget (by decide) fun _ => hget (by decide) fun _ => hget (by decide) fun _ =>
        hget (by decide) fun _ => hget (by decide) fun _ => hget (by decide) fun _ => ⟨_, rfl⟩
    obtain ⟨info, hinfo⟩ := hinfo
    dsimp only
    rw [hinfo]
    exact ⟨_, rfl⟩
  · refine h.viewer_bind ⟨_, rfl⟩ fun ipv6 hlen => ?_
    have hget : ∀ {f : Field} {α : Type} {k : ℕ → Outcome ε α}, f.hi ≤ 40 →
        (∀ value, ∃ a, k value = .ok a) → ∃ a, (f.get ipv6 >>= k) = .ok a :=
      fun hf hk => Field.get_bind (hf.trans hlen) hk
    have hinfo : ∃ info, (PacketInfo.fromIpv6 p ipv6 : Outcome ε _) = .ok info := by
      obtain ⟨behind, hbehind⟩ := nextHeader_returns (ε := ε) h
      rw [PacketInfo.fromIpv6, hports, Outcome.ok_bind]
      refine hget (by decide) fun src => hget (by decide) fun dst => hget (by decide) fun _ => ?_
      rw [hbehind, Outcome.ok_bind]
      obtain ⟨frag, hfrag⟩ := fragmentOf_returns (ε := ε) h (.v6 (BitVec.ofNat 128 src))
        (.v6 (BitVec.ofNat 128 dst))
      dsimp only
      rw [← Outcome.bind_assoc, hfrag]
      exact ⟨_, rfl⟩
    obtain ⟨info, hinfo⟩ := hinfo
    dsimp only
    rw [hinfo]
    exact ⟨_, rfl⟩
  · exact ⟨none, rfl⟩

/-- The segment of a readable packet is found, or there is none. -/
theorem transportSegment_returns (h : Readable p) :
    ∃ found, (transportSegment p : Outcome ε _) = .ok found := by
  have hbehind : ∀ ipOffset headerLen payloadLen,
      ∃ found, (segmentBehind p ipOffset headerLen payloadLen : Outcome ε _) = .ok found := by
    intro ipOffset headerLen payloadLen
    obtain ⟨protocol, hprotocol⟩ := outerTransport_returns (ε := ε) h
    rw [segmentBehind, hprotocol, Outcome.ok_bind]
    split
    · exact ⟨_, rfl⟩
    · dsimp only
      split_ifs <;> exact ⟨_, rfl⟩
  unfold transportSegment
  split
  · exact ⟨_, rfl⟩
  · refine h.viewer_bind ⟨_, rfl⟩ fun ipv4 hlen => ?_
    have hihl : ∃ n, (Ipv4Viewer.headerLen ipv4 : Outcome ε _) = .ok n :=
      Field.get_bind ((show Ipv4Viewer.ihl.hi ≤ 20 by decide).trans hlen) fun _ => ⟨_, rfl⟩
    obtain ⟨headerLen, hihl⟩ := hihl
    dsimp only
    rw [hihl, Outcome.ok_bind]
    refine Field.get_bind ((show Ipv4Viewer.totalLength.hi ≤ 20 by decide).trans hlen) fun _ => ?_
    split_ifs
    · exact ⟨_, rfl⟩
    · split
      · exact ⟨_, rfl⟩
      · exact hbehind _ _ _
  · split
    · exact ⟨_, rfl⟩
    · refine h.viewer_bind ⟨_, rfl⟩ fun ipv6 hlen => ?_
      exact Field.get_bind ((show Ipv6Viewer.payloadLength.hi ≤ 40 by decide).trans hlen)
        fun _ => hbehind _ _ _

/-- Whether the checksum of UDP is off can be read. -/
theorem udpDisabled_returns (h : Readable p) :
    ∃ off, (udpDisabled p : Outcome ε _) = .ok off :=
  h.viewer_bind ⟨_, rfl⟩ fun _ hlen =>
    Field.get_bind ((show UdpViewer.checksum.hi ≤ 8 by decide).trans hlen) fun _ => ⟨_, rfl⟩

/-- A field of the outermost header of a protocol can be set. -/
theorem setOutermost_returns (h : Readable p) {protocol : Protocol} {f : Field}
    (hf : f.hi ≤ protocol.minLen) (value : ℕ) :
    ∃ q, (setOutermost p protocol f value : Outcome ε _) = .ok q ∧ Readable q := by
  unfold setOutermost
  cases hlayer : p.nthLayer protocol (-1) with
  | none => exact ⟨p, rfl, h⟩
  | some l =>
    obtain ⟨hl, rfl⟩ := nthLayer_eq_some hlayer
    exact setField_returns h hl hf value

/-- A checksum that can be calculated over the segment is set. -/
theorem fixSegment_returns (h : Readable p) {protocol : Protocol} {f : Field}
    {calculate : List UInt8 → Outcome ε ℕ} (hf : f.hi ≤ protocol.minLen)
    (hcalculate : ∀ segment, (transportSegment p : Outcome ε _) = .ok (some segment) →
      ∃ checksum, calculate segment = .ok checksum) :
    ∃ q, fixSegment p protocol f calculate = .ok q := by
  obtain ⟨found, hfound⟩ := transportSegment_returns (ε := ε) h
  rw [fixSegment, hfound, Outcome.ok_bind]
  cases found with
  | none => exact ⟨p, rfl⟩
  | some segment =>
    obtain ⟨checksum, hchecksum⟩ := hcalculate segment hfound
    dsimp only
    rw [hchecksum, Outcome.ok_bind]
    obtain ⟨q, hq, -⟩ := setOutermost_returns (ε := ε) h hf checksum
    exact ⟨q, hq⟩

end Reading

/-! ### Sums -/

/-- What is added up for the transport checksum of a segment below an IP header: the
pseudo header, and the data with the stored checksum left out. -/
def segmentTerms (ip transport : Protocol) (src dst : ℕ) (segment : List UInt8) : List ℕ :=
  let datagram := segment.take (min (UdpViewer.length.peek segment) segment.length)
  match ip, transport with
  | .ipv4, .tcp => ipv4Terms src dst 6 segment.length (zeroing TcpViewer.checksum.range segment)
  | .ipv4, .udp => ipv4Terms src dst 17 datagram.length (zeroing UdpViewer.checksum.range datagram)
  | .ipv6, .tcp => ipv6Terms src dst 6 segment.length (zeroing TcpViewer.checksum.range segment)
  | .ipv6, .udp => ipv6Terms src dst 17 datagram.length (zeroing UdpViewer.checksum.range datagram)
  | .ipv6, .icmpv6 =>
      ipv6Terms src dst 58 segment.length (zeroing Icmpv6Viewer.checksum.range segment)
  | _, _ => []

section Sums

variable {checks : Bool} {src dst : ℕ} {segment : List UInt8}

/-- A sum that fits a `u32`, or that is not checked, is added up. -/
theorem addAll_returns {ns : List ℕ} (h : checks = true → ns.sum < 2 ^ 32) :
    ∃ sum, (addAll checks 0 ns : Outcome ε ℕ) = .ok sum := by
  cases checks with
  | false => exact ⟨_, addAll_false 0 (by decide) ns⟩
  | true => exact ⟨_, addAll_of_lt (by rw [Nat.zero_add]; exact h rfl)⟩

/-- An IPv4 transport checksum whose terms fit is calculated. -/
theorem ipv4Checksum_returns {protocol : ℕ} {data : List UInt8} {zeroed : ℕ × ℕ}
    (h : checks = true → (ipv4Terms src dst protocol data.length (zeroing zeroed data)).sum < 2 ^ 32) :
    ∃ checksum, (ipv4TransportChecksumZeroing checks src dst protocol data zeroed : Outcome ε ℕ) =
      .ok checksum := by
  obtain ⟨sum, hsum⟩ := addAll_returns (ε := ε) h
  rw [ipv4TransportChecksumZeroing_eq, hsum]
  exact ⟨_, rfl⟩

/-- An IPv6 transport checksum whose terms fit is calculated. -/
theorem ipv6Checksum_returns {protocol : ℕ} {data : List UInt8} {zeroed : ℕ × ℕ}
    (h : checks = true → (ipv6Terms src dst protocol data.length (zeroing zeroed data)).sum < 2 ^ 32) :
    ∃ checksum, (ipv6TransportChecksumZeroing checks src dst protocol data zeroed : Outcome ε ℕ) =
      .ok checksum := by
  obtain ⟨sum, hsum⟩ := addAll_returns (ε := ε) h
  rw [ipv6TransportChecksumZeroing_eq, hsum]
  exact ⟨_, rfl⟩

/-- The bytes that the length field of a UDP header covers. -/
theorem datagram_eq (h : 8 ≤ segment.length) : (UdpViewer.datagram segment : Outcome ε _) =
    .ok (segment.take (min (UdpViewer.length.peek segment) segment.length)) := by
  rw [UdpViewer.datagram, Field.get_eq ((show UdpViewer.length.hi ≤ 8 by decide).trans h)]
  rfl

/-- Over a segment of up to `0xFFFF` bytes the sum always fits. -/
theorem sum_segmentTerms_lt (h : segment.length ≤ 0xFFFF) (ip transport : Protocol) :
    (segmentTerms ip transport src dst segment).sum < 2 ^ 32 := by
  have hdatagram : (segment.take (min (UdpViewer.length.peek segment) segment.length)).length ≤
      0xFFFF := (List.length_take_le' _ _).trans h
  have hipv4 : ∀ (protocol : UInt8) (zeroed : ℕ × ℕ) {data : List UInt8}, data.length ≤ 0xFFFF →
      (ipv4Terms src dst protocol.toNat data.length (zeroing zeroed data)).sum < 2 ^ 32 :=
    fun _ zeroed data hdata => sum_ipv4Terms_lt hdata ((length_zeroing zeroed data).trans_le hdata)
  have hipv6 : ∀ (protocol : UInt8) (zeroed : ℕ × ℕ) {data : List UInt8}, data.length ≤ 0xFFFF →
      (ipv6Terms src dst protocol.toNat data.length (zeroing zeroed data)).sum < 2 ^ 32 :=
    fun _ zeroed data hdata => sum_ipv6Terms_lt hdata ((length_zeroing zeroed data).trans_le hdata)
  unfold segmentTerms
  split
  · exact hipv4 6 _ h
  · exact hipv4 17 _ hdatagram
  · exact hipv6 6 _ h
  · exact hipv6 17 _ hdatagram
  · exact hipv6 58 _ h
  · decide

end Sums

/-! ### The packet whose addresses were written -/

/-- The packet whose transport checksum is set: the header checksum of IPv4 comes first.
-/
def headed (checks : Bool) (ip : Layer) (packet : Maja.Packet) : Outcome ε Maja.Packet :=
  if ip.protocol = .ipv4 then fixHeader checks packet else pure packet

/-- What setting the checksums needs of a packet below its outermost IP header. -/
structure Fixable (ε : Type) (checks : Bool) (ip : Layer) (packet : Maja.Packet) : Prop where
  /-- The routing header that may name the final destination has its fourth byte. -/
  route : ip.protocol = .ipv6 → ¬Fragmented packet ip → ∀ l,
    (extensions packet.layers).find? (fun l => l.protocol = .ipv6Route) = some l → 4 ≤ l.len
  /-- In a build with overflow checks the sum of the transport checksum fits a `u32`. -/
  sums : checks = true → ∀ q t dst segment, (headed checks ip packet : Outcome ε _) = .ok q →
    ¬Fragmented q ip → ¬UdpOff q ip → carried q.layers = some t → pseudoDst q ip = some dst →
    (transportSegment q : Outcome ε _) = .ok (some segment) →
    (segmentTerms ip.protocol t.protocol (srcOf q ip) dst segment).sum < 2 ^ 32

section Fixing

variable {options : ParseOptions} {p q : Maja.Packet} (o : Outermost p options) {checks : Bool}

/-- The terms of the segment of a packet fit a `u32`, in a build with overflow checks. -/
def SumsFit (ε : Type) (checks : Bool) (ip : Layer) (q : Maja.Packet) : Prop :=
  checks = true → ¬UdpOff q ip → ∀ t dst segment, carried q.layers = some t →
    pseudoDst q ip = some dst → (transportSegment q : Outcome ε _) = .ok (some segment) →
    (segmentTerms ip.protocol t.protocol (srcOf q ip) dst segment).sum < 2 ^ 32

include o in
/-- A segment that is found starts with the header of its transport. -/
theorem segment_layer (h : Rewrites p q) (htable : LayerTable p.bytes p.layers)
    {protocol : IpProtocol} {l : Protocol} {segment : List UInt8}
    (hprotocol : (outerTransport q : Outcome ε _) = .ok (some protocol))
    (hl : segmentLayer protocol = some l)
    (hsegment : (transportSegment q : Outcome ε _) = .ok (some segment)) :
    ∃ t, carried q.layers = some t ∧ t ∈ q.layers ∧ t.protocol = l ∧ t.len ≤ segment.length := by
  obtain ⟨protocol', t, stop, hat, rfl⟩ := (transportSegment_eq_ok_iff o h htable).1 hsegment
  obtain ⟨hcarried, hcovers⟩ := hat.covers h htable
  obtain ⟨l', hl', ht⟩ := hat.layer
  obtain rfl := Option.some.inj (Outcome.ok.inj (hat.transport.symm.trans hprotocol))
  obtain rfl := Option.some.inj (hl'.symm.trans hl)
  obtain ⟨hmem, hprotocol⟩ := nthLayer_eq_some ht
  refine ⟨t, h.layers.symm ▸ hcarried, hmem, hprotocol, ?_⟩
  have hstop := hat.stop_le
  rw [List.length_take, List.length_drop]
  omega

/-- The header length of IPv4 is at most 15 words. -/
theorem ihl_le (header : List UInt8) : Ipv4Viewer.ihl.peek header ≤ 15 := by
  show (_ &&& 0x0F : ℕ) ≤ 15
  exact Nat.and_le_right

include o in
/-- The header checksum of a readable packet is set. -/
theorem fixHeader_returns (h : Readdresses p q) (htable : LayerTable p.bytes p.layers)
    (hread : Readable q) (hip : o.ip.protocol = .ipv4) :
    ∃ q', (fixHeader checks q : Outcome ε _) = .ok q' ∧ Readable q' := by
  have hlen := ip_len o (.inl hip)
  rw [hip] at hlen
  have hview := h.rewrites.outerIp_viewer (ε := ε) o htable
  rw [hip] at hview
  have hheader := h.rewrites.length_header o htable
  obtain ⟨checksum, hchecksum⟩ : ∃ checksum, (Ipv4Viewer.calculateChecksum checks
      (Outermost.header o q.bytes) : Outcome ε ℕ) = .ok checksum := by
    have hihl : Ipv4Viewer.ihl.hi ≤ (Outermost.header o q.bytes).length := by
      rw [hheader]
      exact le_trans (by decide) hlen
    have hshort : ((Outermost.header o q.bytes).take (min (Ipv4Viewer.ihl.peek
        (Outermost.header o q.bytes) * 4) (Outermost.header o q.bytes).length)).length ≤ 0xFFFF := by
      have hwords := ihl_le (Outermost.header o q.bytes)
      rw [List.length_take]
      omega
    rw [Ipv4Viewer.calculateChecksum, Ipv4Viewer.headerLen, Field.get_eq hihl, Outcome.ok_bind,
      Outcome.pure_eq, Outcome.ok_bind, internetChecksumZeroing_eq]
    have hfits := sum_words_lt ((length_zeroing Ipv4Viewer.checksum.range _).trans_le hshort)
    obtain ⟨sum, hsum⟩ := addAll_returns (ε := ε) fun _ : checks = true => hfits
    rw [hsum]
    exact ⟨_, rfl⟩
  rw [fixHeader, outerIpv4, hview, Outcome.ok_bind]
  dsimp only
  rw [hchecksum, Outcome.ok_bind]
  exact setOutermost_returns hread (by decide) checksum

include o in
/-- The transport checksum over IPv4 is set where its sum fits. -/
theorem fixTransportIpv4_returns (h : Rewrites p q) (htable : LayerTable p.bytes p.layers)
    (hread : Readable q) (hip : o.ip.protocol = .ipv4) (hsums : SumsFit ε checks o.ip q) :
    ∃ q', (fixTransportIpv4 checks q : Outcome ε _) = .ok q' := by
  have hlen := ip_len o (.inl hip)
  rw [hip] at hlen
  have hview := h.outerIp_viewer (ε := ε) o htable
  rw [hip] at hview
  have hsrc : srcOf q o.ip = Ipv4Viewer.src.peek (headerOf q o.ip) := if_pos hip
  have hdst : dstOf q o.ip = Ipv4Viewer.dst.peek (headerOf q o.ip) := if_pos hip
  have hpseudo : pseudoDst q o.ip = some (dstOf q o.ip) := if_pos hip
  obtain ⟨found, hfound⟩ := outerTransport_returns (ε := ε) hread
  rw [fixTransportIpv4, hfound, Outcome.ok_bind]
  cases found with
  | none => exact ⟨q, rfl⟩
  | some protocol =>
    dsimp only
    rw [outerIpv4, hview, Outcome.ok_bind]
    dsimp only
    rw [h.addr_get_eq o htable (show 16 ≤ _ from le_trans (by decide) hlen), Outcome.ok_bind,
      h.addr_get_eq o htable (show 20 ≤ _ from hlen), Outcome.ok_bind, ← hsrc, ← hdst]
    split
    · refine fixSegment_returns hread (by decide) fun segment hsegment => ?_
      obtain ⟨t, ht, -, htcp, -⟩ := segment_layer o h htable hfound rfl hsegment
      refine ipv4Checksum_returns fun hchecks => ?_
      have hoff : ¬UdpOff q o.ip := by
        rintro ⟨-, t', ht', hudp, -⟩
        obtain rfl := Option.some.inj (ht.symm.trans ht')
        cases htcp.symm.trans hudp
      have hsum := hsums hchecks hoff t _ segment ht hpseudo hsegment
      rwa [hip, htcp] at hsum
    · obtain ⟨off, hoff⟩ := udpDisabled_returns (ε := ε) hread
      rw [hoff, Outcome.ok_bind]
      split_ifs with htrue
      · exact ⟨q, rfl⟩
      · have hon := mt (udpDisabled_eq_ok o checks h htable hip hfound hoff).1.2 htrue
        refine fixSegment_returns hread (by decide) fun segment hsegment => ?_
        obtain ⟨t, ht, hmem, hudp, hcovers⟩ := segment_layer o h htable hfound rfl hsegment
        have hfull := hread.full t hmem
        rw [hudp] at hfull
        have hsum : checks = true → _ := fun hchecks => hsums hchecks hon t _ segment ht hpseudo hsegment
        rw [hip, hudp] at hsum
        obtain ⟨checksum, hchecksum⟩ := ipv4Checksum_returns (ε := ε) hsum
        rw [UdpViewer.calculateChecksumIpv4, datagram_eq (hfull.trans hcovers), Outcome.ok_bind,
          hchecksum]
        exact ⟨_, rfl⟩
    · exact ⟨q, rfl⟩

/-- A routing header with its fourth byte names a final destination or none. -/
theorem finalDst_returns {route : List UInt8} (h : 4 ≤ route.length) :
    ∃ dst, (finalDst route : Outcome ε _) = .ok dst := by
  have hpayload : ∀ type parse, ∃ data,
      (Ipv6RouteViewer.payload type parse route : Outcome ε _) = .ok data := by
    intro type parse
    refine Field.get_bind ((show Ipv6RouteViewer.routingType.hi ≤ 4 by decide).trans h) fun _ => ?_
    split_ifs
    · exact ⟨_, rfl⟩
    · have hdata : (Ipv6RouteViewer.data route : Outcome ε _) = .ok _ := Outcome.slice_eq_ok h le_rfl
      rw [hdata]
      exact ⟨_, rfl⟩
  have haddrs : ∀ data : List UInt8, ∃ addrs,
      ((Ipv6RouteType0.parse data).elim (pure []) Ipv6RouteType0.addrs : Outcome ε _) = .ok addrs := by
    intro data
    unfold Ipv6RouteType0.parse
    split_ifs with hlen
    · rw [Option.elim_some, Ipv6RouteType0.addrs, Outcome.slice_eq_ok hlen le_rfl]
      exact ⟨_, rfl⟩
    · exact ⟨_, rfl⟩
  have hsegments : ∀ data : List UInt8, ∃ segments,
      ((Ipv6Srh.parse data).elim (pure []) Ipv6Srh.segments : Outcome ε _) = .ok segments := by
    intro data
    unfold Ipv6Srh.parse
    split_ifs with hlen
    · rw [Option.elim_some, Ipv6Srh.segments, Ipv6Srh.segmentListLen,
        Field.get_eq ((show Ipv6Srh.lastEntry.hi ≤ 4 by decide).trans hlen), Outcome.ok_bind,
        Outcome.pure_eq, Outcome.ok_bind, Outcome.slice_eq_ok (Nat.le_add_right _ _) (by omega)]
      exact ⟨_, rfl⟩
    · exact ⟨_, rfl⟩
  obtain ⟨type0, htype0⟩ := hpayload Ipv6RouteViewer.SOURCE_ROUTE Ipv6RouteType0.parse
  obtain ⟨srh, hsrh⟩ := hpayload Ipv6RouteViewer.SEGMENT_ROUTING Ipv6Srh.parse
  obtain ⟨addrs, haddrs⟩ : ∃ addrs,
      (type0.elim (pure []) Ipv6RouteType0.addrs : Outcome ε _) = .ok addrs := by
    rw [payload_eq_ok htype0]
    split_ifs
    · exact haddrs _
    · exact ⟨[], rfl⟩
  obtain ⟨segments, hsegments⟩ : ∃ segments,
      (srh.elim (pure []) Ipv6Srh.segments : Outcome ε _) = .ok segments := by
    rw [payload_eq_ok hsrh]
    split_ifs
    · exact hsegments _
    · exact ⟨[], rfl⟩
  rw [finalDst, Ipv6RouteViewer.type0, htype0, Outcome.ok_bind, haddrs, Outcome.ok_bind]
  split
  · exact ⟨_, rfl⟩
  · rw [Ipv6RouteViewer.srh, hsrh, Outcome.ok_bind, hsegments]
    exact ⟨_, rfl⟩

include o in
/-- The destination of the pseudo header is found where the routing header has its
fourth byte. -/
theorem pseudoHeaderDst_returns (h : Rewrites p q) (htable : LayerTable p.bytes p.layers)
    (hip : o.ip.protocol = .ipv6) (hroute : ∀ l,
      (extensions q.layers).find? (fun l => l.protocol = .ipv6Route) = some l → 4 ≤ l.len)
    (dst : ℕ) : ∃ found, (pseudoHeaderDst q dst : Outcome ε _) = .ok found := by
  rw [pseudoHeaderDst, h.chainViewer_eq o htable hip, Outcome.ok_bind]
  rw [h.layers] at hroute
  cases hfind : (extensions p.layers).find? fun l => l.protocol = .ipv6Route with
  | none => exact ⟨_, rfl⟩
  | some l =>
    have hinside := htable.inside l (extensions_mem (List.mem_of_find?_eq_some hfind)).1
    have hlen : 4 ≤ (headerOf q l).length := by
      have hfour := hroute l hfind
      have hlength := h.bytes.length
      rw [headerOf, List.length_take, List.length_drop]
      omega
    rw [Option.map_some]
    dsimp only
    refine Field.get_bind ((show Ipv6RouteViewer.segmentsLeft.hi ≤ 4 by decide).trans hlen) fun _ => ?_
    split_ifs
    · exact ⟨_, rfl⟩
    · exact finalDst_returns hlen

include o in
/-- The transport checksum over IPv6 is set where its sum fits and the routing header
has its fourth byte. -/
theorem fixTransportIpv6_returns (h : Rewrites p q) (htable : LayerTable p.bytes p.layers)
    (hread : Readable q) (hip : o.ip.protocol = .ipv6) (hroute : ∀ l,
      (extensions q.layers).find? (fun l => l.protocol = .ipv6Route) = some l → 4 ≤ l.len)
    (hsums : SumsFit ε checks o.ip q) : ∃ q', (fixTransportIpv6 checks q : Outcome ε _) = .ok q' := by
  have hlen := ip_len o (.inr hip)
  rw [hip] at hlen
  have hne : ¬o.ip.protocol = .ipv4 := by rw [hip]; decide
  have hview := h.outerIp_viewer (ε := ε) o htable
  rw [hip] at hview
  have hsrc : srcOf q o.ip = Ipv6Viewer.src.peek (headerOf q o.ip) := if_neg hne
  have hdst : dstOf q o.ip = Ipv6Viewer.dst.peek (headerOf q o.ip) := if_neg hne
  have hoff : ¬UdpOff q o.ip := fun hoff => hne hoff.1
  obtain ⟨found, hfound⟩ := outerTransport_returns (ε := ε) hread
  rw [fixTransportIpv6, hfound, Outcome.ok_bind]
  cases found with
  | none => exact ⟨q, rfl⟩
  | some protocol =>
    dsimp only
    rw [outerIpv6, hview, Outcome.ok_bind]
    dsimp only
    rw [h.addr_get_eq o htable (show 24 ≤ _ from le_trans (by decide) hlen), Outcome.ok_bind,
      h.addr_get_eq o htable (show 40 ≤ _ from hlen), Outcome.ok_bind, ← hsrc, ← hdst]
    obtain ⟨final, hfinal⟩ := pseudoHeaderDst_returns (ε := ε) o h htable hip hroute (dstOf q o.ip)
    rw [hfinal, Outcome.ok_bind]
    obtain rfl := pseudoHeaderDst_eq_ok o h htable hip hfinal
    cases hpseudo : pseudoDst q o.ip with
    | none => exact ⟨q, rfl⟩
    | some dst =>
      dsimp only
      have hsum : ∀ segment l, segmentLayer protocol = some l →
          (transportSegment q : Outcome ε _) = .ok (some segment) → checks = true →
          (segmentTerms .ipv6 l (srcOf q o.ip) dst segment).sum < 2 ^ 32 := by
        intro segment l hl hsegment hchecks
        obtain ⟨t, ht, -, hprotocol, -⟩ := segment_layer o h htable hfound hl hsegment
        have hsum := hsums hchecks hoff t dst segment ht hpseudo hsegment
        rwa [hip, hprotocol] at hsum
      split
      · exact fixSegment_returns hread (by decide) fun segment hsegment =>
          ipv6Checksum_returns (hsum segment .tcp rfl hsegment)
      · refine fixSegment_returns hread (by decide) fun segment hsegment => ?_
        obtain ⟨t, ht, hmem, hudp, hcovers⟩ := segment_layer o h htable hfound rfl hsegment
        have hfull := hread.full t hmem
        rw [hudp] at hfull
        obtain ⟨checksum, hchecksum⟩ :=
          ipv6Checksum_returns (ε := ε) (hsum segment .udp rfl hsegment)
        rw [UdpViewer.calculateChecksumIpv6, datagram_eq (hfull.trans hcovers), Outcome.ok_bind,
          hchecksum]
        exact ⟨_, rfl⟩
      · exact fixSegment_returns hread (by decide) fun segment hsegment =>
          ipv6Checksum_returns (hsum segment .icmpv6 rfl hsegment)
      · exact ⟨q, rfl⟩

include o in
/-- The checksums of a packet of up to `0xFFFF` bytes can be set, if its routing header has
its fourth byte. -/
theorem Fixable.of_short (h : Readdresses p q) (htable : LayerTable p.bytes p.layers)
    (hshort : p.bytes.length ≤ 0xFFFF) (hroute : ∀ l,
      (extensions p.layers).find? (fun l => l.protocol = .ipv6Route) = some l → 4 ≤ l.len) :
    Fixable ε checks o.ip q where
  route _ _ l hl := hroute l (h.layers ▸ hl)
  sums _ q' t dst segment hheaded _ _ _ _ hsegment := by
    have h' : Readdresses p q' := by
      unfold headed at hheaded
      split_ifs at hheaded with hip
      · exact (fixHeader_eq_ok o h htable hip hheaded).1
      · cases hheaded
        exact h
    obtain ⟨_, t', stop, -, rfl⟩ := (transportSegment_eq_ok_iff o h'.rewrites htable).1 hsegment
    have hlength := h'.bytes.length
    refine sum_segmentTerms_lt ?_ _ _
    rw [List.length_take, List.length_drop]
    omega

include o in
/-- **`fix_checksums` returns** on a readable packet whose addresses were written. -/
theorem fixChecksums_returns (h : Readdresses p q) (htable : LayerTable p.bytes p.layers)
    (hread : Readable q) (hfix : Fixable ε checks o.ip q) :
    ∃ q', (fixChecksums checks q : Outcome ε _) = .ok q' := by
  obtain ⟨hfamily, -, hip, -⟩ | ⟨hfamily, -, hip, -⟩ := h.rewrites.family_cases o htable
  · obtain ⟨q₁, hq₁, hread₁⟩ : ∃ q₁, (fixHeader checks q : Outcome ε _) = .ok q₁ ∧ Readable q₁ :=
      fixHeader_returns o h htable hread hip
    obtain ⟨info, hinfo⟩ := read_returns (ε := ε) hread₁
    have h₁ := (fixHeader_eq_ok o h htable hip hq₁).1
    have hfragment := read_fragment o h₁.rewrites htable hip hinfo
    rw [fixChecksums, hfamily]
    dsimp only
    rw [hq₁, Outcome.ok_bind, hinfo, Outcome.ok_bind]
    split_ifs with hsome
    · exact ⟨q₁, rfl⟩
    · refine fixTransportIpv4_returns o h₁.rewrites htable hread₁ hip ?_
      intro hchecks hoff t dst segment
      exact hfix.sums hchecks q₁ t dst segment (by rw [headed, if_pos hip, hq₁])
        (mt hfragment.2 hsome) hoff
  · obtain ⟨found, hfound⟩ : ∃ found, (outerFragment q : Outcome ε _) = .ok found :=
      ⟨_, h.rewrites.chainViewer_eq o htable hip _⟩
    have hfragment := outerFragment_eq_ok o h.rewrites htable hip hfound
    rw [fixChecksums, hfamily]
    dsimp only
    rw [hfound, Outcome.ok_bind]
    cases found with
    | some frag => exact ⟨q, rfl⟩
    | none =>
      have hwhole : ¬Fragmented q o.ip := mt hfragment.2 Bool.false_ne_true
      refine fixTransportIpv6_returns o h.rewrites htable hread hip (hfix.route hip hwhole) ?_
      intro hchecks hoff t dst segment
      exact hfix.sums hchecks q t dst segment
        (by rw [headed, if_neg (by rw [hip]; decide)]; rfl) hwhole hoff

end Fixing

end Mergecap
end Maja
