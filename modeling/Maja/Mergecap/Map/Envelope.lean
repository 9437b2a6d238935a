/-
# What the outermost IP header carries

`outer_transport` names the transport of the outermost IP header by the numbers in
the headers, and the tool then takes the first layer of that protocol.  The layers of
a parsed packet are one chain of calls, so that layer is the one right behind the IP
header, or behind its chain of extension headers (`carried_ipv4`, `carried_ipv6`),
and never one inside a tunnel.
-/

import Maja.Mergecap.Map.Rewriter
import Maja.Packet.Outermost

namespace Maja
namespace Mergecap

open Lib Packet

variable {ε : Type}

/-- The layer that the outermost IP header carries: the one behind it, or behind its
extension headers. -/
def carried (layers : List Layer) : Option Layer :=
  match outerIp layers with
  | some ip =>
    if ip.protocol = .ipv4 then (behindIp layers).head?
    else ((behindIp layers).dropWhile isChainLayer).head?
  | none => none

section Envelope

variable {packet : Maja.Packet} {options : ParseOptions} (o : Outermost packet options)

/-- A parsed packet without an IP header has no family. -/
theorem outerIpFamily_eq_none (h : ∀ l ∈ packet.layers, isIp l = false) :
    outerIpFamily packet = none := by
  have hnone : ∀ p, p = .ipv4 ∨ p = .ipv6 → packet.nthLayer p (-1) = none := by
    intro p hp
    have hfilter : packet.layers.filter (fun l => l.protocol = p) = [] := by
      refine List.filter_eq_nil_iff.2 fun l hl => ?_
      have := h l hl
      simp only [isIp, decide_eq_false_iff_not, not_or] at this
      obtain rfl | rfl := hp
      · simpa using this.1
      · simpa using this.2
    rw [nthLayer, hfilter]
    rfl
  rw [outerIpFamily, hnone .ipv4 (.inl rfl), hnone .ipv6 (.inr rfl)]

/-- The family of an IP header. -/
def familyOf (ip : Layer) : IpFamily := if ip.protocol = .ipv4 then .v4 else .v6

/-- A link layer is no layer that the rewriter looks for. -/
theorem isLink_ne {p : Protocol} (h : IsLink p) : p ≠ .ipv4 ∧ p ≠ .ipv6 ∧ p ≠ .tcp ∧ p ≠ .udp ∧
    p ≠ .icmpv6 := by
  obtain rfl | rfl | rfl | rfl | rfl | rfl := h <;> decide

include o in
/-- The outermost IP header is the first of its protocol, and gives the packet its
family. -/
theorem outermost_family (htable : LayerTable packet.bytes packet.layers) :
    outerIpFamily packet = some (familyOf o.ip) ∧
      packet.nthLayer o.ip.protocol (-1) = some o.ip := by
  have hpos : 0 < o.ip.len := htable.nonempty o.ip (by rw [o.layers_eq]; simp [Outermost.ip])
  have hafter : ∀ {p : Protocol} {l : Layer}, o.after.find? (fun l => l.protocol = p) = some l →
      o.ip.offset < l.offset := fun h => by
    have := o.ip_before htable _ (List.mem_of_find?_eq_some h)
    omega
  have h4 : ¬IsLink .ipv4 := fun h => (isLink_ne h).1 rfl
  have h6 : ¬IsLink .ipv6 := fun h => (isLink_ne h).2.1 rfl
  rw [outerIpFamily, o.nthLayer_eq h4, o.nthLayer_eq h6]
  obtain hip | hip := (show o.ip.protocol = .ipv4 ∨ o.ip.protocol = .ipv6 from o.isIp)
  · have hfirst : (o.ip :: o.after).find? (fun l => l.protocol = .ipv4) = some o.ip :=
      List.find?_cons_of_pos (by simp [hip])
    have hsecond : (o.ip :: o.after).find? (fun l => l.protocol = .ipv6) =
        o.after.find? fun l => l.protocol = .ipv6 := List.find?_cons_of_neg (by simp [hip])
    rw [hfirst, hsecond, hip, o.nthLayer_eq h4, hfirst]
    refine ⟨?_, rfl⟩
    cases hfind : o.after.find? fun l => l.protocol = .ipv6 with
    | none => simp [familyOf, hip]
    | some l => simp [familyOf, hip, hafter hfind]
  · have hfirst : (o.ip :: o.after).find? (fun l => l.protocol = .ipv6) = some o.ip :=
      List.find?_cons_of_pos (by simp [hip])
    have hsecond : (o.ip :: o.after).find? (fun l => l.protocol = .ipv4) =
        o.after.find? fun l => l.protocol = .ipv4 := List.find?_cons_of_neg (by simp [hip])
    rw [hfirst, hsecond, hip, o.nthLayer_eq h6, hfirst]
    refine ⟨?_, rfl⟩
    cases hfind : o.after.find? fun l => l.protocol = .ipv4 with
    | none => simp [familyOf, hip]
    | some l =>
        have := hafter hfind
        simp [familyOf, hip, Nat.not_lt.2 this.le]

/-- The bytes of the IP header. -/
theorem ip_bytes_eq (htable : LayerTable packet.bytes packet.layers) :
    (o.ip.bytes packet.bytes : Outcome ε _) = .ok (o.call.header o.len) := by
  have hinside : o.call.offset + o.len ≤ packet.bytes.length := htable.inside o.ip o.ip_mem
  show Outcome.slice packet.bytes o.call.offset (o.call.offset + o.len) = _
  rw [Outcome.slice_eq_ok (Nat.le_add_right _ _) hinside, Nat.add_sub_cancel_left, Call.header,
    o.bytes]

/-- The outermost IP header has the length of its layer. -/
theorem length_ip_header (htable : LayerTable packet.bytes packet.layers) :
    (o.call.header o.len).length = o.len := by
  have hinside : o.call.offset + o.len ≤ packet.bytes.length := htable.inside o.ip o.ip_mem
  rw [Call.header, o.bytes, List.length_take, List.length_drop]
  omega

/-- The protocols with a checksum over the pseudo header. -/
def IsTransport (p : Protocol) : Prop := p = .tcp ∨ p = .udp ∨ p = .icmpv6

/-- `transport_segment` looks for a transport layer. -/
theorem isTransport_of_segmentLayer {protocol : IpProtocol} {p : Protocol}
    (h : segmentLayer protocol = some p) : IsTransport p := by
  unfold segmentLayer at h
  split at h <;> cases h
  · exact .inl rfl
  · exact .inr (.inl rfl)
  · exact .inr (.inr rfl)

/-- A transport layer is no link layer. -/
theorem IsTransport.not_link {p : Protocol} (h : IsTransport p) : ¬IsLink p := by
  rintro (rfl | rfl | rfl | rfl | rfl | rfl) <;> obtain h | h | h := h <;> cases h

/-- The parser for a transport is that of its layer. -/
theorem nextIpv4_eq_child {protocol : IpProtocol} {p q : Protocol}
    (hseg : segmentLayer protocol = some p) (h : protocol.nextIpv4 = .child q) : q = p := by
  cases protocol <;> simp_all [segmentLayer, IpProtocol.nextIpv4]

/-- Behind the extension headers comes the layer that `transport_segment` looks for. -/
theorem nextIpv6_eq_child {protocol : IpProtocol} {p q : Protocol}
    (hseg : segmentLayer protocol = some p) (h : protocol.nextIpv6 = .child q) : q = p := by
  cases protocol <;> simp_all [segmentLayer, IpProtocol.nextIpv6]

/-- **IPv4 carries the transport that its header names.**  The first layer of that
protocol is the one behind the header, in the declared payload. -/
theorem carried_ipv4 (hip : o.ip.protocol = .ipv4) {p : Protocol} {t : Layer}
    (hseg : segmentLayer (.ofCode (Ipv4Viewer.protocol.peek (o.call.header o.len))) = some p)
    (ht : packet.nthLayer p (-1) = some t) :
    carried packet.layers = some t ∧
      (Ipv4Viewer.totalLength.peek (o.call.header o.len) ≠ 0 →
        t.offset + t.len ≤ o.ip.offset + Ipv4Viewer.totalLength.peek (o.call.header o.len)) := by
  have hp := isTransport_of_segmentLayer hseg
  have hne : ¬o.ip.protocol = p := by
    rw [hip]
    obtain rfl | rfl | rfl := hp <;> decide
  rw [o.nthLayer_eq hp.not_link, List.find?_cons_of_neg (by simpa using hne)] at ht
  obtain hraw | ⟨d, hstep, hpath⟩ := o.behind
  · have hl := hraw t (List.mem_of_find?_eq_some ht)
    have hprotocol : t.protocol = p := by simpa using List.find?_some ht
    obtain rfl | rfl | rfl := hp <;> rw [hl] at hprotocol <;> cases hprotocol
  · obtain ⟨-, -, hchild, hregion⟩ := ipv4_step hip hstep o.headerLen
    obtain rfl := nextIpv4_eq_child hseg hchild
    have hraw : d.protocol ≠ .raw := by
      rintro hd
      obtain h | h | h := hp <;> rw [hd] at h <;> cases h
    obtain ⟨hhead, -, hstop⟩ := hpath.find hraw ht
    refine ⟨?_, fun htotal => ?_⟩
    · rw [carried, o.outerIp_eq, o.behindIp_eq]
      exact (if_pos hip).trans hhead
    · rw [hregion, if_pos htotal] at hstop
      exact hstop.trans (Nat.min_le_right _ _)

/-! ### Extension headers -/

/-- `is_chain_layer` holds of the extension headers. -/
theorem isChainLayer_iff {l : Layer} : isChainLayer l = true ↔ IsExtension l.protocol := by
  obtain ⟨p, offset, len⟩ := l
  cases p <;> simp [isChainLayer, IsExtension]

/-- The first octet of an extension header is its next header. -/
theorem nextHeader_peek {header : List UInt8} {b : UInt8}
    (h : (Outcome.index header 0 : Outcome ε _) = .ok b) :
    Ipv6ExtHeaderViewer.nextHeader.peek header = b.toNat := by
  cases header with
  | nil => cases h
  | cons a header =>
      obtain rfl := Outcome.ok.inj h
      simp [Field.peek, Ipv6ExtHeaderViewer.nextHeader, FieldSpec.raw, ByteOrder.read, beNat]

/-- The bytes of a recorded header. -/
theorem header_bytes_eq {c : Call} {len : ℕ} (h : c.verdict.headerLen = some len) :
    ((⟨c.protocol, c.offset, len⟩ : Layer).bytes c.region.bytes : Outcome ε _) =
      .ok (c.header len) := by
  have hinside : c.offset + len ≤ c.region.bytes.length :=
    (headerLen_sound h).2.trans c.region.stop_le
  show Outcome.slice c.region.bytes c.offset (c.offset + len) = _
  rw [Outcome.slice_eq_ok (Nat.le_add_right _ _) hinside, Nat.add_sub_cancel_left]
  rfl

/-- **The numbers of the extension headers name the layer behind them.**  The
induction is along the path; each header names the child that it was parsed for. -/
theorem followChain_path {c : Call} {layers : List Layer} {first last : ℕ}
    (hpath : c.Path options layers)
    (hfirst : (IpProtocol.ofCode first).nextIpv6 = .child c.protocol)
    (hlast : (followChain c.region.bytes first (layers.takeWhile isChainLayer) : Outcome ε ℕ) =
      .ok last) :
    AllRaw (layers.dropWhile isChainLayer) ∨
      ∃ d : Call, (IpProtocol.ofCode last).nextIpv6 = .child d.protocol ∧ d.region = c.region ∧
        d.Path options (layers.dropWhile isChainLayer) := by
  have hraw : ∀ layers : List Layer, AllRaw layers → layers.dropWhile isChainLayer = layers := by
    intro layers h
    cases layers with
    | nil => rfl
    | cons l layers =>
        have hl : isChainLayer l = false := by simp [isChainLayer, h l List.mem_cons_self]
        rw [List.dropWhile_cons, hl]
        rfl
  induction hpath generalizing first with
  | raws hlayers =>
      left
      rwa [hraw _ hlayers]
  | @last c len layers hlen hlayers =>
      by_cases hc : isChainLayer ⟨c.protocol, c.offset, len⟩ = true
      · left
        rw [List.dropWhile_cons_of_pos hc, hraw _ hlayers]
        exact hlayers
      · right
        rw [List.takeWhile_cons_of_neg hc] at hlast
        rw [List.dropWhile_cons_of_neg hc]
        cases hlast
        exact ⟨c, hfirst, rfl, .last hlen hlayers⟩
  | @cons c d len layers hlen hstep hpath ih =>
      by_cases hc : isChainLayer ⟨c.protocol, c.offset, len⟩ = true
      · rw [List.dropWhile_cons_of_pos hc]
        rw [List.takeWhile_cons_of_pos hc, followChain, header_bytes_eq hlen, Outcome.ok_bind] at hlast
        obtain ⟨b, hb, hlast⟩ := Outcome.bind_eq_ok.1 hlast
        obtain ⟨-, hregion, hcode⟩ := extension_step (isChainLayer_iff.1 hc) hstep hlen
        rw [nextHeader_peek hb] at hcode
        rw [← hregion] at hlast ⊢
        exact ih hcode hlast
      · right
        rw [List.takeWhile_cons_of_neg hc] at hlast
        rw [List.dropWhile_cons_of_neg hc]
        cases hlast
        exact ⟨c, hfirst, rfl, .cons hlen hstep hpath⟩

/-- The extension headers of the outermost IPv6 header. -/
theorem chainLayers_eq (hip : o.ip.protocol = .ipv6) :
    packet.layers.find? (fun l => l.protocol = .ipv6) = some o.ip ∧
      chainLayers packet = some (o.after.takeWhile isChainLayer) := by
  have hbefore : ∀ l ∈ o.before, ¬l.protocol = .ipv6 := fun l hl h =>
    (isLink_ne (o.before_link l hl)).2.1 h
  have hip' : o.call.protocol = .ipv6 := hip
  constructor
  · rw [o.layers_eq, List.find?_append, List.find?_eq_none.2 fun l hl => by simpa using hbefore l hl,
      Option.none_or]
    exact List.find?_cons_of_pos (by simp [hip'])
  · have hindex : packet.layers.findIdx? (fun l => l.protocol = .ipv6) = some o.before.length := by
      rw [o.layers_eq, List.findIdx?_append, List.findIdx?_eq_none_iff.2 fun l hl => by
        simpa using hbefore l hl, Option.none_or, List.findIdx?_cons]
      simp [hip']
    rw [chainLayers, hindex, Option.map_some, o.layers_eq, List.drop_length_add_append]
    rfl

/-- An extension header is no transport. -/
theorem find_behind_chain {p : Protocol} (hp : IsTransport p) (layers : List Layer) :
    layers.find? (fun l => l.protocol = p) =
      (layers.dropWhile isChainLayer).find? fun l => l.protocol = p := by
  have hchain : (layers.takeWhile isChainLayer).find? (fun l => l.protocol = p) = none := by
    refine List.find?_eq_none.2 fun l hl => ?_
    have hl := isChainLayer_iff.1 (List.mem_takeWhile_imp hl)
    simp only [decide_eq_true_eq]
    rintro rfl
    obtain h | h | h := hp <;> rw [h] at hl <;> simp [IsExtension] at hl
  conv_lhs => rw [← List.takeWhile_append_dropWhile (p := isChainLayer) (l := layers)]
  rw [List.find?_append, hchain, Option.none_or]

/-- **IPv6 carries the transport that its last extension header names.** -/
theorem carried_ipv6 (htable : LayerTable packet.bytes packet.layers)
    (hip : o.ip.protocol = .ipv6) {p : Protocol} {t : Layer} {last : ℕ}
    (hlast : (nextHeader packet : Outcome ε _) = .ok (some last))
    (hseg : segmentLayer (.ofCode last) = some p) (ht : packet.nthLayer p (-1) = some t) :
    carried packet.layers = some t ∧
      (Ipv6Viewer.payloadLength.peek (o.call.header o.len) ≠ 0 →
        t.offset + t.len ≤
          o.ip.offset + 40 + Ipv6Viewer.payloadLength.peek (o.call.header o.len)) := by
  have hp := isTransport_of_segmentLayer hseg
  have hne : ¬o.ip.protocol = p := by
    rw [hip]
    obtain rfl | rfl | rfl := hp <;> decide
  have hnotRaw : ∀ layers : List Layer, AllRaw layers →
      layers.find? (fun l => l.protocol = p) ≠ some t := by
    intro layers hraw ht
    have hl := hraw t (List.mem_of_find?_eq_some ht)
    have hprotocol : t.protocol = p := by simpa using List.find?_some ht
    obtain rfl | rfl | rfl := hp <;> rw [hl] at hprotocol <;> cases hprotocol
  obtain ⟨hfind, hchain⟩ := chainLayers_eq o hip
  rw [o.nthLayer_eq hp.not_link, List.find?_cons_of_neg (by simpa using hne),
    find_behind_chain hp] at ht
  rw [nextHeader, hfind, hchain] at hlast
  dsimp only at hlast
  rw [ip_bytes_eq o htable, Outcome.ok_bind] at hlast
  obtain ⟨first, hfirst, hlast⟩ := Outcome.bind_eq_ok.1 hlast
  obtain ⟨last', hfollow, hlast⟩ := Outcome.bind_eq_ok.1 hlast
  obtain rfl := Option.some.inj (Outcome.ok.inj hlast)
  obtain hraw | ⟨d, hstep, hpath⟩ := o.behind
  · have hdrop : AllRaw (o.after.dropWhile isChainLayer) := fun l hl =>
      hraw l (List.dropWhile_suffix isChainLayer |>.subset hl)
    exact absurd ht (hnotRaw _ hdrop)
  · obtain ⟨hlen, -, hchild, hregion⟩ := ipv6_step hip hstep o.headerLen
    have hheader : 7 ≤ (o.call.header o.len).length := by
      rw [length_ip_header o htable, hlen]
      decide
    rw [Field.get_eq hheader] at hfirst
    obtain rfl := Outcome.ok.inj hfirst
    rw [← hlen] at hchild
    rw [← o.bytes, ← step_bytes hstep] at hfollow
    obtain hraw | ⟨e, hcode, hsame, hbehind⟩ := followChain_path hpath hchild hfollow
    · exact absurd ht (hnotRaw _ hraw)
    · obtain rfl := nextIpv6_eq_child hseg hcode
      have hraw : e.protocol ≠ .raw := by
        intro he
        obtain h | h | h := hp <;> rw [he] at h <;> cases h
      obtain ⟨hhead, -, hstop⟩ := hbehind.find hraw ht
      refine ⟨?_, fun hpayload => ?_⟩
      · rw [carried, o.outerIp_eq, o.behindIp_eq]
        exact (if_neg (by rw [hip]; decide)).trans hhead
      · rw [hlen] at hpayload ⊢
        rw [hsame, hregion, if_pos hpayload] at hstop
        exact hstop.trans (Nat.min_le_right _ _)

end Envelope

end Mergecap
end Maja
