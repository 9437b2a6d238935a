/-
# The transport segment

`transport_segment` finds the carried transport by its protocol and the end of its
segment by the lengths that the IP header declares.  Neither is rewritten, so a
packet and its rewritings have their segments at the same place (`SegmentAt.congr`),
and the transport header lies inside (`SegmentAt.covers`): the parser narrowed the
region to the same declared length.
-/

import Maja.Mergecap.Map.Frame

namespace Maja
namespace Mergecap

open Lib Packet

variable {ε : Type} {options : ParseOptions} {p q q' : Maja.Packet} (o : Outermost p options)

/-- The header length and the declared payload length, unless the header is
malformed. -/
def declaredPayload : Option (ℕ × ℕ) :=
  let header := Outermost.header o p.bytes
  if o.ip.protocol = .ipv4 then
    let headerLen := Ipv4Viewer.ihl.peek header * 4
    let totalLength := Ipv4Viewer.totalLength.peek header
    if totalLength ≠ 0 ∧ totalLength < headerLen then none
    else some (headerLen, totalLength - headerLen)
  else some (40, Ipv6Viewer.payloadLength.peek header)

/-- The segment of a rewritten packet is told by the lengths of the original. -/
theorem transportSegment_eq (h : Rewrites p q) (htable : LayerTable p.bytes p.layers) :
    (transportSegment q : Outcome ε _) = (declaredPayload o).elim (.ok none) fun lens =>
      segmentBehind q o.ip.offset lens.1 lens.2 := by
  have hview := h.outerIp_viewer (ε := ε) o htable
  have hrange : q.nthLayerRange o.ip.protocol (-1) = some o.ip.range := by
    rw [nthLayerRange, h.nthLayer_eq, (outermost_family o htable).2]
    rfl
  have hfamily := (outermost_family o htable).1
  rw [← h.outerIpFamily_eq, familyOf] at hfamily
  rw [transportSegment, declaredPayload]
  obtain hip | hip := (show o.ip.protocol = .ipv4 ∨ o.ip.protocol = .ipv6 from o.isIp)
  · have hlen := ip_len o (.inl hip)
    rw [hip] at hlen hview hrange
    have hfields : ∀ g ∈ ipFields o.ip, 10 ≤ g.lo := by rw [ipFields, if_pos hip]; decide
    have hihl := h.ip_get_eq (ε := ε) o htable (f := Ipv4Viewer.ihl)
      (show 1 ≤ _ from le_trans (by decide) hlen) fun g hg => le_trans (by decide) (hfields g hg)
    have htotal := h.ip_get_eq (ε := ε) o htable (f := Ipv4Viewer.totalLength)
      (show 4 ≤ _ from le_trans (by decide) hlen) fun g hg => le_trans (by decide) (hfields g hg)
    rw [if_pos hip] at hfamily
    rw [hfamily, if_pos hip, outerIpv4, hview]
    simp only [Outcome.ok_bind, Ipv4Viewer.headerLen, hihl, htotal, Outcome.bind_assoc,
      Outcome.pure_eq, hrange]
    split_ifs <;> rfl
  · have hlen := ip_len o (.inr hip)
    rw [hip] at hlen hview hrange
    have hne : ¬o.ip.protocol = .ipv4 := by rw [hip]; decide
    have hpayload := h.ip_get_eq (ε := ε) o htable (f := Ipv6Viewer.payloadLength)
      (show 6 ≤ _ from le_trans (by decide) hlen) (by rw [ipFields, if_neg hne]; decide)
    rw [if_neg hne] at hfamily
    rw [hfamily, if_neg hne]
    simp only [hrange, outerIpv6, hview, Outcome.ok_bind, hpayload]
    rfl

/-- The end of the segment, for the declared lengths. -/
def stopOf (q : Maja.Packet) (ipOffset : ℕ) (lens : ℕ × ℕ) : ℕ :=
  if lens.2 = 0 then q.bytes.length else ipOffset + lens.1 + lens.2

/-- Where `transport_segment` finds a segment: the protocol, its layer, and the end. -/
structure SegmentAt (q : Maja.Packet) (ε : Type) (protocol : IpProtocol) (t : Layer) (stop : ℕ) :
    Prop where
  transport : (outerTransport q : Outcome ε _) = .ok (some protocol)
  layer : ∃ l, segmentLayer protocol = some l ∧ q.nthLayer l (-1) = some t
  stop_eq : ∃ lens ∈ declaredPayload o, o.ip.offset + lens.1 ≤ t.offset ∧
    stop = stopOf q o.ip.offset lens
  start_le : t.offset ≤ stop
  stop_le : stop ≤ q.bytes.length

/-- **What `transport_segment` returns.** -/
theorem transportSegment_eq_ok_iff (h : Rewrites p q) (htable : LayerTable p.bytes p.layers)
    {segment : List UInt8} :
    (transportSegment q : Outcome ε _) = .ok (some segment) ↔
      ∃ protocol t stop, SegmentAt o q ε protocol t stop ∧
        segment = (q.bytes.drop t.offset).take (stop - t.offset) := by
  rw [transportSegment_eq o h htable]
  constructor
  · intro hsegment
    cases hpayload : declaredPayload o with
    | none =>
        rw [hpayload] at hsegment
        cases hsegment
    | some lens =>
        rw [hpayload, Option.elim_some, segmentBehind] at hsegment
        obtain ⟨found, htransport, hsegment⟩ := Outcome.bind_eq_ok.1 hsegment
        cases hrange : (found.bind segmentLayer).bind fun layer => q.nthLayerRange layer (-1) with
        | none =>
            rw [hrange] at hsegment
            cases hsegment
        | some range =>
            rw [hrange] at hsegment
            obtain ⟨l, hfound, hlayer⟩ := Option.bind_eq_some_iff.1 hrange
            obtain ⟨protocol, rfl, hl⟩ := Option.bind_eq_some_iff.1 hfound
            obtain ⟨t, ht, rfl⟩ := Option.map_eq_some_iff.1 hlayer
            change (if t.offset < o.ip.offset + lens.1 then pure none
              else if t.offset ≤ stopOf q o.ip.offset lens ∧ stopOf q o.ip.offset lens ≤ q.bytes.length
                then pure (some ((q.bytes.drop t.offset).take (stopOf q o.ip.offset lens - t.offset)))
                else pure none) = _ at hsegment
            split_ifs at hsegment with hbehind hle
            · cases hsegment
            · refine ⟨protocol, t, _, ⟨htransport, ⟨l, hl, ht⟩,
                ⟨lens, hpayload, Nat.not_lt.1 hbehind, rfl⟩, hle.1, hle.2⟩, ?_⟩
              exact (Option.some.inj (Outcome.ok.inj hsegment)).symm
            · cases hsegment
  · rintro ⟨protocol, t, stop, ⟨htransport, ⟨l, hl, ht⟩, ⟨lens, hlens, hbehind, rfl⟩, hstart, hstop⟩,
      rfl⟩
    rw [Option.mem_def.1 hlens, Option.elim_some, segmentBehind, htransport, Outcome.ok_bind]
    have hrange : ((some protocol).bind segmentLayer).bind (fun layer => q.nthLayerRange layer (-1)) =
        some t.range := by
      rw [Option.bind_some, hl, Option.bind_some, nthLayerRange, ht]
      rfl
    rw [hrange]
    exact (if_neg (Nat.not_lt.2 hbehind)).trans (if_pos ⟨hstart, hstop⟩)

namespace SegmentAt

variable {o} {protocol : IpProtocol} {t : Layer} {stop : ℕ}

/-- A rewriting has its segment at the same place. -/
theorem congr (hat : SegmentAt o q ε protocol t stop) (h : Rewrites p q) (h' : Rewrites q q')
    (htable : LayerTable p.bytes p.layers) : SegmentAt o q' ε protocol t stop := by
  obtain ⟨htransport, ⟨l, hl, ht⟩, ⟨lens, hlens, hbehind, hstop⟩, hstart, hle⟩ := hat
  have hlength := h'.bytes.length
  refine ⟨?_, ⟨l, hl, ?_⟩, ⟨lens, hlens, hbehind, ?_⟩, hstart, hlength ▸ hle⟩
  · rw [(h.trans h').outerTransport_eq o htable, ← h.outerTransport_eq o htable, htransport]
  · rw [h'.nthLayer_eq, ht]
  · rw [hstop, stopOf, stopOf, hlength]

/-- **The segment starts at the carried transport, and covers its header.** -/
theorem covers (hat : SegmentAt o q ε protocol t stop) (h : Rewrites p q)
    (htable : LayerTable p.bytes p.layers) :
    carried p.layers = some t ∧ t.offset + t.len ≤ stop := by
  obtain ⟨htransport, ⟨l, hl, ht⟩, ⟨lens, hlens, -, rfl⟩, -, -⟩ := hat
  rw [h.nthLayer_eq] at ht
  have hinside : t.offset + t.len ≤ q.bytes.length := by
    have hmem : t ∈ p.layers := (nthLayer_eq_some ht).1
    exact h.bytes.length ▸ htable.inside t hmem
  rw [declaredPayload] at hlens
  obtain hip | hip := (show o.ip.protocol = .ipv4 ∨ o.ip.protocol = .ipv6 from o.isIp)
  · rw [h.outerTransport_ipv4 o htable hip] at htransport
    obtain rfl := Option.some.inj (Outcome.ok.inj htransport)
    rw [header_eq] at hl hlens
    obtain ⟨hcarried, hend⟩ := carried_ipv4 o hip hl ht
    refine ⟨hcarried, ?_⟩
    rw [if_pos hip] at hlens
    dsimp only at hlens
    split_ifs at hlens with hbad
    · cases hlens
    · obtain rfl := Option.some.inj hlens
      unfold stopOf
      split_ifs with hzero
      · exact hinside
      · dsimp only at hzero ⊢
        have := hend (by omega)
        omega
  · have hne : ¬o.ip.protocol = .ipv4 := by rw [hip]; decide
    have hfamily : ¬outerIpFamily q = some .v4 := by
      rw [h.outerIpFamily_eq, (outermost_family o htable).1, familyOf, if_neg hne]
      decide
    rw [outerTransport, if_neg hfamily, h.nextHeader_eq o htable hip] at htransport
    obtain ⟨last, hlast, htransport⟩ := Outcome.bind_eq_ok.1 htransport
    obtain ⟨last, rfl, rfl⟩ := Option.map_eq_some_iff.1 (Outcome.ok.inj htransport)
    obtain ⟨hcarried, hend⟩ := carried_ipv6 o htable hip hlast hl ht
    refine ⟨hcarried, ?_⟩
    rw [if_neg hne] at hlens
    obtain rfl := Option.some.inj hlens
    unfold stopOf
    split_ifs with hzero
    · exact hinside
    · rw [header_eq] at hzero ⊢
      exact hend hzero

end SegmentAt

end Mergecap
end Maja
