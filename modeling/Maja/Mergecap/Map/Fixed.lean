/-
# Rewriting keeps the frame and fixes the checksums

A checksum is calculated over bytes that its own field is no part of, and nothing is
written behind it that it covers, so that it validates in the packet that is
returned: the header checksum because the transport lies behind the header, the
transport checksum because it is the last thing that is written
(`storedEquals_setField`).  With `Readdress` and `Segment` this is the law of
`Rewriter::rewrite` (`rewrite_keeps_frame`).
-/

import Maja.Mergecap.Map.Families
import Maja.Mergecap.Map.Fragments
import Maja.Mergecap.Map.PseudoHeader
import Maja.Mergecap.Map.Readdress
import Maja.Mergecap.Map.Segment

namespace Maja
namespace Mergecap

open Lib Packet

variable {ε : Type} {options : ParseOptions} {p q q' : Maja.Packet}

/-! ### What is fixed -/

/-- The packet is one fragment: an IPv4 header with an offset or with more fragments
to come, or an IPv6 header with a fragment header. -/
def Fragmented (packet : Maja.Packet) (ip : Layer) : Prop :=
  if ip.protocol = .ipv4 then
    Ipv4Viewer.fragmentOffset.peek (headerOf packet ip) ≠ 0 ∨
      Ipv4Viewer.flags.peek (headerOf packet ip) &&& FRAG_MORE ≠ 0
  else ∃ l ∈ extensions packet.layers, l.protocol = .ipv6Frag

/-- A stored zero of UDP over IPv4: the checksum is off. -/
def UdpOff (packet : Maja.Packet) (ip : Layer) : Prop :=
  ip.protocol = .ipv4 ∧ ∃ t, carried packet.layers = some t ∧ t.protocol = .udp ∧
    UdpViewer.checksum.peek (headerOf packet t) = 0

/-- The validation of the checksum of a transport below an IP header. -/
def validator (checks : Bool) : Protocol → Protocol → Option (ℕ → ℕ → List UInt8 → Outcome ε Bool)
  | .ipv4, .tcp => some (TcpViewer.validateChecksumIpv4 checks)
  | .ipv4, .udp => some (UdpViewer.validateChecksumIpv4 checks)
  | .ipv6, .tcp => some (TcpViewer.validateChecksumIpv6 checks)
  | .ipv6, .udp => some (UdpViewer.validateChecksumIpv6 checks)
  | .ipv6, .icmpv6 => some (Icmpv6Viewer.validateChecksumIpv6 checks)
  | _, _ => none

/-- The checksums of a packet below an IP header, after it was rewritten from
`packet`. -/
structure ChecksumsFixed (ε : Type) (checks : Bool) (ip : Layer) (packet packet' : Maja.Packet) :
    Prop where
  /-- The header checksum is right. -/
  header : ip.protocol = .ipv4 →
    Ipv4Viewer.validateChecksum checks (headerOf packet' ip) = (.ok true : Outcome ε Bool)
  /-- The transport checksum is right over the whole segment, unless the packet is a
  fragment. -/
  transport : ∀ t validate segment dst, carried packet'.layers = some t →
    validator checks ip.protocol t.protocol = some validate →
    (transportSegment packet' : Outcome ε _) = .ok (some segment) →
    ¬Fragmented packet' ip → pseudoDst packet' ip = some dst →
    validate (srcOf packet' ip) dst segment = (.ok true : Outcome ε Bool)
  /-- A transport checksum that cannot be calculated, or is off, is left alone. -/
  left : Fragmented packet' ip ∨ (transportSegment packet' : Outcome ε _) = .ok none ∨
    pseudoDst packet' ip = none ∨ UdpOff packet ip → Readdresses packet packet'

/-! ### Stored checksums -/

/-- **A checksum that is set is right**, over any bytes from the start of its layer on
that reach as far as the layer. -/
theorem storedEquals_setField {f : Field} {calculate : List UInt8 → Outcome ε ℕ}
    (hstores : StoresIn f calculate) (hspec : f.spec = { size := 2 }) {l : Layer} {n checksum : ℕ}
    (hn : l.len ≤ n) (hcalculate : calculate ((q.bytes.drop l.offset).take n) = .ok checksum)
    (hset : (q.setField l f checksum : Outcome ε _) = .ok q') :
    storedEquals f ((q'.bytes.drop l.offset).take n)
      (calculate ((q'.bytes.drop l.offset).take n)) = .ok true := by
  obtain ⟨-, hhi, hinside, hbytes⟩ := setField_eq_ok hset
  obtain ⟨header, hheader, hget⟩ := get_setField (by rw [hspec]) (by rw [hspec]) hset
  rw [Layer.bytes, Outcome.slice_eq_ok (Nat.le_add_right _ _) (hbytes.length ▸ hinside),
    Nat.add_sub_cancel_left] at hheader
  obtain rfl := Outcome.ok.inj hheader
  refine hstores.storedEquals (by rw [hspec]) ((hbytes.take_drop l.offset n).mono ?_) hcalculate ?_
  · rintro k ⟨hlo, hhi⟩
    exact ⟨by omega, by omega⟩
  · have hlength : (q'.bytes.drop l.offset).length = q.bytes.length - l.offset := by
      rw [List.length_drop, hbytes.length]
    rw [← hget, Field.get_eq (by rw [List.length_take, hlength]; omega),
      Field.get_eq (by rw [List.length_take, hlength]; omega), f.peek_take hhi,
      f.peek_take (hhi.trans hn)]

section Fixing

variable (o : Outermost p options)

/-- **The header checksum is set right.** -/
theorem fixHeader_eq_ok {checks : Bool} (h : Readdresses p q) (htable : LayerTable p.bytes p.layers)
    (hip : o.ip.protocol = .ipv4) (hfix : (fixHeader checks q : Outcome ε _) = .ok q') :
    Readdresses p q' ∧
      Ipv4Viewer.validateChecksum checks (headerOf q' o.ip) = (.ok true : Outcome ε Bool) := by
  have hview := h.rewrites.outerIp_viewer (ε := ε) o htable
  have hlayer := (outermost_family o htable).2
  rw [← h.rewrites.nthLayer_eq] at hlayer
  rw [hip] at hview hlayer
  rw [fixHeader, outerIpv4, hview, Outcome.ok_bind] at hfix
  obtain ⟨checksum, hchecksum, hset⟩ := Outcome.bind_eq_ok.1 hfix
  rw [setOutermost, hlayer] at hset
  have hfield : Ipv4Viewer.checksum ∈ ipFields o.ip := by
    rw [ipFields, if_pos hip]
    exact List.mem_cons_self
  exact ⟨h.setField o.outerIp_eq hfield hset,
    storedEquals_setField Ipv4Viewer.storesIn rfl le_rfl hchecksum hset⟩

/-- The field of a checksum of a transport. -/
theorem checksumField_spec {l : Protocol} {f : Field} (hf : checksumField l = some f) :
    f.spec = { size := 2 } := by
  unfold checksumField at hf
  split at hf <;> cases hf <;> rfl

include o in
/-- **A transport checksum is set right over the whole segment**, or there is none. -/
theorem fixSegment_eq_ok {protocol : IpProtocol} {l : Protocol} {f : Field}
    {calculate : List UInt8 → Outcome ε ℕ} (h : Rewrites p q)
    (htable : LayerTable p.bytes p.layers)
    (hprotocol : (outerTransport q : Outcome ε _) = .ok (some protocol))
    (hl : segmentLayer protocol = some l) (hf : checksumField l = some f)
    (hstores : StoresIn f calculate) (hfix : fixSegment q l f calculate = .ok q') :
    (transportSegment q : Outcome ε _) = .ok none ∧ q' = q ∨
      ∃ t segment, carried p.layers = some t ∧ t.protocol = l ∧ Rewrites p q' ∧
        AgreesOutside (fieldRange t f) q.bytes q'.bytes ∧
        (transportSegment q' : Outcome ε _) = .ok (some segment) ∧
        storedEquals f segment (calculate segment) = .ok true := by
  obtain ⟨found, hfound, hfix⟩ := Outcome.bind_eq_ok.1 hfix
  cases found with
  | none => exact .inl ⟨hfound, (Outcome.ok.inj hfix).symm⟩
  | some segment =>
      obtain ⟨checksum, hchecksum, hset⟩ := Outcome.bind_eq_ok.1 hfix
      obtain ⟨protocol', t, stop, hat, rfl⟩ := (transportSegment_eq_ok_iff o h htable).1 hfound
      obtain ⟨hcarried, hcovers⟩ := hat.covers h htable
      obtain ⟨l', hl', ht⟩ := hat.layer
      obtain rfl := Option.some.inj (Outcome.ok.inj (hprotocol.symm.trans hat.transport))
      obtain rfl := Option.some.inj (hl.symm.trans hl')
      have htl : t.protocol = l := (nthLayer_eq_some ht).2
      rw [setOutermost, ht] at hset
      have hq' := h.setField hcarried (htl ▸ hf) hset
      have hstep : Rewrites q q' := by
        obtain ⟨hlayers, hbytes⟩ := fieldRange_of_setField hset
        refine ⟨hlayers, hbytes.mono fun k hk => .inr ⟨t, f, ?_, htl ▸ hf, hk⟩⟩
        rw [h.layers, hcarried]
      refine .inr ⟨t, _, hcarried, htl, hq', (fieldRange_of_setField hset).2,
        (transportSegment_eq_ok_iff o hq' htable).2
          ⟨protocol, t, stop, hat.congr h hstep htable, rfl⟩, ?_⟩
      exact storedEquals_setField hstores (checksumField_spec hf) (by omega) hchecksum hset

/-! ### The transport -/

/-- What is done about the transport checksum of `q`: a checksum that is there is right,
and nothing else has changed. -/
structure TransportFixed (ε : Type) (checks : Bool) (dst : ℕ) (ip : Layer) (q q' : Maja.Packet) :
    Prop where
  valid : ∀ t validate segment, carried q.layers = some t →
    validator checks ip.protocol t.protocol = some validate →
    (transportSegment q' : Outcome ε _) = .ok (some segment) →
    validate (srcOf q ip) dst segment = (.ok true : Outcome ε Bool)
  kept : q' = q ∨ ∃ t f, carried q.layers = some t ∧ checksumField t.protocol = some f ∧
    q'.layers = q.layers ∧ AgreesOutside (fieldRange t f) q.bytes q'.bytes ∧ ¬UdpOff q ip ∧
    (transportSegment q' : Outcome ε _) ≠ .ok none

include o in
/-- The segment of a carried transport starts with its header. -/
theorem Rewrites.segment_carried (h : Rewrites p q) (htable : LayerTable p.bytes p.layers)
    {t : Layer} {segment : List UInt8} (ht : carried q.layers = some t)
    (hsegment : (transportSegment q : Outcome ε _) = .ok (some segment)) :
    ∃ protocol, (outerTransport q : Outcome ε _) = .ok (some protocol) ∧
      segmentLayer protocol = some t.protocol ∧ segment.take t.len = headerOf q t := by
  obtain ⟨protocol, t', stop, hat, rfl⟩ := (transportSegment_eq_ok_iff o h htable).1 hsegment
  obtain ⟨hcarried, hcovers⟩ := hat.covers h htable
  rw [h.layers] at ht
  obtain rfl := Option.some.inj (ht.symm.trans hcarried)
  obtain ⟨l, hl, ht⟩ := hat.layer
  have hprotocol : t.protocol = l := (nthLayer_eq_some ht).2
  refine ⟨protocol, hat.transport, hprotocol ▸ hl, ?_⟩
  rw [List.take_take, Nat.min_eq_left (by omega), headerOf]

include o in
/-- A transport without a checksum over the pseudo header is left alone. -/
theorem TransportFixed.of_other {checks : Bool} {dst : ℕ} (h : Rewrites p q)
    (htable : LayerTable p.bytes p.layers)
    (hother : ∀ protocol l, (outerTransport q : Outcome ε _) = .ok (some protocol) →
      segmentLayer protocol = some l →
      (validator checks o.ip.protocol l : Option (ℕ → ℕ → List UInt8 → Outcome ε Bool)) = none) :
    TransportFixed ε checks dst o.ip q q where
  valid t validate segment ht hvalidate hsegment := by
    obtain ⟨protocol, hprotocol, hl, -⟩ := h.segment_carried o htable ht hsegment
    rw [hother _ _ hprotocol hl] at hvalidate
    cases hvalidate
  kept := .inl rfl

include o in
/-- A checksum that is set is right. -/
theorem TransportFixed.of_fixSegment {checks : Bool} {dst : ℕ} {protocol : IpProtocol}
    {l : Protocol} {f : Field} {calculate : List UInt8 → Outcome ε ℕ}
    {validate : ℕ → ℕ → List UInt8 → Outcome ε Bool} (h : Rewrites p q)
    (htable : LayerTable p.bytes p.layers)
    (hprotocol : (outerTransport q : Outcome ε _) = .ok (some protocol))
    (hl : segmentLayer protocol = some l) (hf : checksumField l = some f)
    (hstores : StoresIn f calculate) (hvalidator : validator checks o.ip.protocol l = some validate)
    (hvalidate : ∀ segment, storedEquals f segment (calculate segment) = .ok true →
      validate (srcOf q o.ip) dst segment = .ok true)
    (hoff : l = .udp → ¬UdpOff q o.ip) (hfix : fixSegment q l f calculate = .ok q') :
    TransportFixed ε checks dst o.ip q q' := by
  obtain ⟨hnone, rfl⟩ | ⟨t, segment, ht, rfl, hq', hbytes, hsegment, hstored⟩ :=
    fixSegment_eq_ok o h htable hprotocol hl hf hstores hfix
  · refine ⟨fun t validate segment _ _ hsegment => ?_, .inl rfl⟩
    rw [hnone] at hsegment
    cases hsegment
  · rw [← h.layers] at ht
    refine ⟨fun t' validate' segment' ht' hvalidate' hsegment' => ?_,
      .inr ⟨t, f, ht, hf, hq'.layers.trans h.layers.symm, hbytes, ?_, ?_⟩⟩
    · obtain rfl := Option.some.inj (ht.symm.trans ht')
      obtain rfl := Option.some.inj (hvalidator.symm.trans hvalidate')
      obtain rfl := Option.some.inj (Outcome.ok.inj (hsegment.symm.trans hsegment'))
      exact hvalidate segment hstored
    · rintro ⟨hip, t', ht', hudp, hzero⟩
      obtain rfl := Option.some.inj (ht.symm.trans ht')
      exact hoff hudp ⟨hip, t, ht, hudp, hzero⟩
    · rw [hsegment]
      simp

/-- The UDP header that IPv4 carries is the outermost one. -/
theorem nthLayer_udp_of_carried (hip : o.ip.protocol = .ipv4) {t : Layer}
    (ht : carried p.layers = some t) (hudp : t.protocol = .udp) :
    p.nthLayer .udp (-1) = some t := by
  have hhead : o.after.head? = some t := by
    rw [carried, o.outerIp_eq, o.behindIp_eq] at ht
    dsimp only at ht
    rwa [if_pos hip] at ht
  obtain ⟨rest, hafter⟩ : ∃ rest, o.after = t :: rest := by
    cases hlist : o.after with
    | nil => rw [hlist] at hhead; cases hhead
    | cons a rest =>
        rw [hlist] at hhead
        obtain rfl := Option.some.inj hhead
        exact ⟨rest, rfl⟩
  have hlink : ¬IsLink .udp := IsTransport.not_link (.inr (.inl rfl))
  rw [o.nthLayer_eq hlink, List.find?_cons_of_neg (by simp [hip]), hafter]
  exact List.find?_cons_of_pos (by simp [hudp])

/-- **What `fix_checksums` asks of the UDP header**: whether the checksum is off.  If it
is, any segment from that header on is valid. -/
theorem udpDisabled_eq_ok {off : Bool} (checks : Bool) (h : Rewrites p q)
    (htable : LayerTable p.bytes p.layers) (hip : o.ip.protocol = .ipv4)
    (hprotocol : (outerTransport q : Outcome ε _) = .ok (some .udp))
    (hoff : (udpDisabled q : Outcome ε _) = .ok off) :
    (off = true ↔ UdpOff q o.ip) ∧ (off = true → ∀ t segment src dst, carried q.layers = some t →
      segment.take t.len = headerOf q t →
      UdpViewer.validateChecksumIpv4 checks src dst segment = (.ok true : Outcome ε Bool)) := by
  have hview : ∀ t, q.nthLayer .udp (-1) = some t → carried q.layers = some t ∧
      t.protocol = .udp ∧ UdpViewer.checksum.hi ≤ (headerOf q t).length ∧
        off = decide (UdpViewer.checksum.peek (headerOf q t) = 0) := by
    intro t ht
    have ht' := ht
    rw [h.nthLayer_eq] at ht'
    have htl := nthLayer_eq_some ht'
    have hseg := (h.outerTransport_ipv4 o htable hip).symm.trans hprotocol
    have hcode := Option.some.inj (Outcome.ok.inj hseg)
    rw [header_eq] at hcode
    refine ⟨?_, htl.2, ?_⟩
    · rw [h.layers]
      exact (carried_ipv4 o hip (by rw [hcode]; rfl) ht').1
    · rw [udpDisabled, nthLayerViewer, ht] at hoff
      dsimp only at hoff
      rw [h.bytes_headerOf htable htl.1, Outcome.ok_bind, Outcome.pure_eq, Outcome.ok_bind] at hoff
      obtain ⟨stored, hstored, hoff⟩ := Outcome.bind_eq_ok.1 hoff
      obtain ⟨hhi, rfl⟩ := Field.get_eq_ok hstored
      exact ⟨hhi, (Outcome.ok.inj hoff).symm⟩
  have hnone : q.nthLayer .udp (-1) = none → off = false := by
    intro hnone
    rw [udpDisabled, nthLayerViewer, hnone] at hoff
    exact (Outcome.ok.inj hoff).symm
  have hiff : off = true ↔ UdpOff q o.ip := by
    constructor
    · rintro rfl
      cases hlayer : q.nthLayer .udp (-1) with
      | none => exact absurd (hnone hlayer) (by decide)
      | some t =>
          obtain ⟨ht, hudp, -, hzero⟩ := hview t hlayer
          exact ⟨hip, t, ht, hudp, of_decide_eq_true hzero.symm⟩
    · rintro ⟨-, t, ht, hudp, hzero⟩
      rw [h.layers] at ht
      have hlayer := nthLayer_udp_of_carried o hip ht hudp
      rw [← h.nthLayer_eq] at hlayer
      rw [(hview t hlayer).2.2.2]
      exact decide_eq_true hzero
  refine ⟨hiff, fun htrue t segment src dst ht hsegment => ?_⟩
  obtain ⟨-, t', ht', hudp, hzero⟩ := hiff.1 htrue
  obtain rfl := Option.some.inj (ht.symm.trans ht')
  have hlayer : q.nthLayer .udp (-1) = some t := by
    rw [h.nthLayer_eq]
    exact nthLayer_udp_of_carried o hip (h.layers ▸ ht) hudp
  obtain ⟨-, -, hhi, -⟩ := hview t hlayer
  rw [← hsegment] at hhi hzero
  rw [List.length_take] at hhi
  rw [UdpViewer.checksum.peek_take (by omega)] at hzero
  rw [UdpViewer.validateChecksumIpv4, Field.get_eq (by omega), Outcome.ok_bind, if_pos hzero]
  rfl

/-- The addresses of the rewritten header are read. -/
theorem Rewrites.addr_get_eq (h : Rewrites p q) (htable : LayerTable p.bytes p.layers) {f : Field}
    (hhi : f.hi ≤ o.ip.len) :
    (f.get (Outermost.header o q.bytes) : Outcome ε ℕ) = .ok (f.peek (headerOf q o.ip)) :=
  Field.get_eq (by rwa [h.length_header o htable])

/-- A UDP checksum that was stored validates. -/
theorem validateChecksumIpv4_of_stored {checks : Bool} {src dst : ℕ} {segment : List UInt8}
    (h : storedEquals UdpViewer.checksum segment
      (UdpViewer.calculateChecksumIpv4 checks src dst segment : Outcome ε ℕ) = .ok true) :
    UdpViewer.validateChecksumIpv4 checks src dst segment = (.ok true : Outcome ε Bool) := by
  obtain ⟨stored, hstored, -⟩ := Outcome.bind_eq_ok.1 h
  rw [UdpViewer.validateChecksumIpv4, hstored, Outcome.ok_bind]
  split_ifs
  · rfl
  · exact h

/-- **The transport over IPv4.** -/
theorem fixTransportIpv4_eq_ok {checks : Bool} (h : Rewrites p q)
    (htable : LayerTable p.bytes p.layers) (hip : o.ip.protocol = .ipv4)
    (hfix : (fixTransportIpv4 checks q : Outcome ε _) = .ok q') :
    TransportFixed ε checks (dstOf q o.ip) o.ip q q' := by
  have hlen := ip_len o (.inl hip)
  rw [hip] at hlen
  have hview := h.outerIp_viewer (ε := ε) o htable
  rw [hip] at hview
  have hsrc : srcOf q o.ip = Ipv4Viewer.src.peek (headerOf q o.ip) := if_pos hip
  have hdst : dstOf q o.ip = Ipv4Viewer.dst.peek (headerOf q o.ip) := if_pos hip
  rw [fixTransportIpv4] at hfix
  obtain ⟨found, hprotocol, hfix⟩ := Outcome.bind_eq_ok.1 hfix
  obtain rfl := Outcome.ok.inj (hprotocol.symm.trans (h.outerTransport_ipv4 o htable hip))
  generalize IpProtocol.ofCode _ = protocol at hprotocol hfix
  dsimp only at hfix
  rw [outerIpv4, hview, Outcome.ok_bind] at hfix
  dsimp only at hfix
  rw [h.addr_get_eq o htable (show 16 ≤ _ from le_trans (by decide) hlen), Outcome.ok_bind,
    h.addr_get_eq o htable (show 20 ≤ _ from hlen), Outcome.ok_bind, ← hsrc, ← hdst] at hfix
  split at hfix
  · exact .of_fixSegment o h htable hprotocol rfl rfl TcpViewer.storesIn_ipv4
      (by rw [hip]; rfl) (fun _ hstored => hstored) (fun htcp => by cases htcp) hfix
  · obtain ⟨off, hoff, hfix⟩ := Outcome.bind_eq_ok.1 hfix
    obtain ⟨hiff, hvalid⟩ := udpDisabled_eq_ok o checks h htable hip hprotocol hoff
    split_ifs at hfix with htrue
    · obtain rfl := Outcome.ok.inj hfix
      refine ⟨fun t validate segment ht hvalidate hsegment => ?_, .inl rfl⟩
      obtain ⟨protocol', hprotocol', hl, htake⟩ := h.segment_carried o htable ht hsegment
      obtain rfl := Option.some.inj (Outcome.ok.inj (hprotocol.symm.trans hprotocol'))
      rw [hip, ← Option.some.inj hl] at hvalidate
      obtain rfl := Option.some.inj hvalidate
      exact hvalid htrue t segment _ _ ht htake
    · exact .of_fixSegment o h htable hprotocol rfl rfl UdpViewer.storesIn_ipv4
        (by rw [hip]; rfl) (fun _ hstored => validateChecksumIpv4_of_stored hstored)
        (fun _ hoff => htrue (hiff.2 hoff)) hfix
  · rename_i htcp hudp
    obtain rfl := Outcome.ok.inj hfix
    refine .of_other o h htable fun protocol' l hprotocol' hl => ?_
    obtain rfl := Option.some.inj (Outcome.ok.inj (hprotocol.symm.trans hprotocol'))
    unfold segmentLayer at hl
    split at hl
    · exact absurd rfl htcp
    · exact absurd rfl hudp
    · obtain rfl := Option.some.inj hl
      rw [hip]
      rfl
    · cases hl

/-- **The transport over IPv6.** -/
theorem fixTransportIpv6_eq_ok {checks : Bool} (h : Rewrites p q)
    (htable : LayerTable p.bytes p.layers) (hip : o.ip.protocol = .ipv6)
    (hfix : (fixTransportIpv6 checks q : Outcome ε _) = .ok q') :
    (∀ dst, pseudoDst q o.ip = some dst → TransportFixed ε checks dst o.ip q q') ∧
      (pseudoDst q o.ip = none → q' = q) := by
  have hlen := ip_len o (.inr hip)
  rw [hip] at hlen
  have hne : ¬o.ip.protocol = .ipv4 := by rw [hip]; decide
  have hview := h.outerIp_viewer (ε := ε) o htable
  rw [hip] at hview
  have hsrc : srcOf q o.ip = Ipv6Viewer.src.peek (headerOf q o.ip) := if_neg hne
  have hdst : dstOf q o.ip = Ipv6Viewer.dst.peek (headerOf q o.ip) := if_neg hne
  have hoff : ¬UdpOff q o.ip := fun hoff => hne hoff.1
  rw [fixTransportIpv6] at hfix
  obtain ⟨found, hprotocol, hfix⟩ := Outcome.bind_eq_ok.1 hfix
  cases found with
  | none =>
      obtain rfl := Outcome.ok.inj hfix
      refine ⟨fun dst _ => .of_other o h htable fun protocol l hprotocol' _ => ?_, fun _ => rfl⟩
      cases hprotocol.symm.trans hprotocol'
  | some protocol =>
      dsimp only at hfix
      rw [outerIpv6, hview, Outcome.ok_bind] at hfix
      dsimp only at hfix
      rw [h.addr_get_eq o htable (show 24 ≤ _ from le_trans (by decide) hlen), Outcome.ok_bind,
        h.addr_get_eq o htable (show 40 ≤ _ from hlen), Outcome.ok_bind, ← hsrc, ← hdst] at hfix
      obtain ⟨found, hfound, hfix⟩ := Outcome.bind_eq_ok.1 hfix
      obtain rfl := pseudoHeaderDst_eq_ok o h htable hip hfound
      cases hpseudo : pseudoDst q o.ip with
      | none =>
          rw [hpseudo] at hfix
          exact ⟨fun dst' hdst' => (Option.some_ne_none dst' hdst'.symm).elim,
            fun _ => (Outcome.ok.inj hfix).symm⟩
      | some dst =>
          rw [hpseudo] at hfix
          dsimp only at hfix
          refine ⟨fun dst' hdst' => ?_, fun hnone => (Option.some_ne_none dst hnone).elim⟩
          obtain rfl := Option.some.inj hdst'
          split at hfix
          · have hvalidator : validator checks o.ip.protocol .tcp =
                some (TcpViewer.validateChecksumIpv6 checks : _ → _ → _ → Outcome ε Bool) := by
              rw [hip]
              rfl
            exact .of_fixSegment o h htable hprotocol rfl rfl TcpViewer.storesIn_ipv6 hvalidator
              (fun _ hstored => hstored) (fun _ => hoff) hfix
          · have hvalidator : validator checks o.ip.protocol .udp =
                some (UdpViewer.validateChecksumIpv6 checks : _ → _ → _ → Outcome ε Bool) := by
              rw [hip]
              rfl
            exact .of_fixSegment o h htable hprotocol rfl rfl UdpViewer.storesIn_ipv6 hvalidator
              (fun _ hstored => hstored) (fun _ => hoff) hfix
          · have hvalidator : validator checks o.ip.protocol .icmpv6 =
                some (Icmpv6Viewer.validateChecksumIpv6 checks : _ → _ → _ → Outcome ε Bool) := by
              rw [hip]
              rfl
            exact .of_fixSegment o h htable hprotocol rfl rfl Icmpv6Viewer.storesIn_ipv6 hvalidator
              (fun _ hstored => hstored) (fun _ => hoff) hfix
          · rename_i htcp hudp hicmp
            obtain rfl := Outcome.ok.inj hfix
            refine .of_other o h htable fun protocol' l hprotocol' hl => ?_
            obtain rfl := Option.some.inj (Outcome.ok.inj (hprotocol.symm.trans hprotocol'))
            unfold segmentLayer at hl
            split at hl
            · exact absurd rfl htcp
            · exact absurd rfl hudp
            · exact absurd rfl hicmp
            · cases hl

/-! ### The whole packet -/

/-- `fix_checksums` sees the fragments. -/
theorem read_fragment {info : Option PacketInfo} (h : Rewrites p q)
    (htable : LayerTable p.bytes p.layers) (hip : o.ip.protocol = .ipv4)
    (hinfo : (PacketInfo.read q : Outcome ε _) = .ok info) :
    (info.any fun info => info.fragment.isSome) = true ↔ Fragmented q o.ip := by
  have hview := h.outerIp_viewer (ε := ε) o htable
  have hfamily : outerIpFamily q = some .v4 := by
    rw [h.outerIpFamily_eq, (outermost_family o htable).1, familyOf, if_pos hip]
  rw [hip] at hview
  rw [PacketInfo.read, hfamily] at hinfo
  dsimp only at hinfo
  rw [outerIpv4, hview, Outcome.ok_bind] at hinfo
  obtain ⟨found, hfound, hinfo⟩ := Outcome.bind_eq_ok.1 hinfo
  obtain rfl := Outcome.ok.inj hinfo
  obtain ⟨⟨srcPort, dstPort, hasPorts⟩, -, hfound⟩ := Outcome.bind_eq_ok.1 hfound
  obtain ⟨flags, hflags, hfound⟩ := Outcome.bind_eq_ok.1 hfound
  obtain ⟨fragmentOffset, hoffset, hfound⟩ := Outcome.bind_eq_ok.1 hfound
  simp only [Outcome.bind_eq_ok] at hfound
  obtain ⟨src, -, dst, -, proto, -, id, -, hfound⟩ := hfound
  obtain rfl := Outcome.ok.inj hfound
  obtain rfl := (Field.get_eq_ok hflags).2
  obtain rfl := (Field.get_eq_ok hoffset).2
  rw [Fragmented, if_pos hip, Option.any_some]
  split_ifs with hfragment
  · exact iff_of_true rfl hfragment
  · exact iff_of_false Bool.false_ne_true hfragment

include o in
/-- `fix_checksums` sees the fragment header. -/
theorem outerFragment_eq_ok {found : Option (List UInt8)} (h : Rewrites p q)
    (htable : LayerTable p.bytes p.layers) (hip : o.ip.protocol = .ipv6)
    (hfound : (outerFragment q : Outcome ε _) = .ok found) :
    found.isSome = true ↔ Fragmented q o.ip := by
  rw [outerFragment, h.chainViewer_eq o htable hip] at hfound
  obtain rfl := Outcome.ok.inj hfound
  rw [Option.isSome_map, List.find?_isSome, Fragmented, if_neg (by rw [hip]; decide), h.layers]
  simp

/-- What a reader of the IP header and its extensions sees is not changed by a
checksum of the transport. -/
theorem headers_eq (h : Readdresses p q) (htable : LayerTable p.bytes p.layers) {t : Layer}
    {f : Field} (ht : carried q.layers = some t) (hf : checksumField t.protocol = some f)
    (hlayers : q'.layers = q.layers) (hbytes : AgreesOutside (fieldRange t f) q.bytes q'.bytes) :
    headerOf q' o.ip = headerOf q o.ip ∧ (Fragmented q' o.ip ↔ Fragmented q o.ip) ∧
      pseudoDst q' o.ip = pseudoDst q o.ip := by
  rw [h.layers] at ht
  have hne : ∀ l, l.protocol = .ipv4 ∨ l.protocol = .ipv6 ∨ IsExtension l.protocol → l ≠ t := by
    rintro l hl rfl
    obtain hl | hl | hl := hl
    · rw [hl] at hf
      cases hf
    · rw [hl] at hf
      cases hf
    · rw [(checksumField_of_extension hl).2] at hf
      cases hf
  have hip : headerOf q' o.ip = headerOf q o.ip :=
    headerOf_eq htable o.ip_mem (carried_mem ht) (hne _ (o.isIp.imp_right .inl)) hbytes
  have hroute : ∀ l ∈ extensions q.layers, headerOf q' l = headerOf q l := by
    intro l hl
    rw [h.layers] at hl
    obtain ⟨hmem, hext⟩ := extensions_mem hl
    exact headerOf_eq htable hmem (carried_mem ht) (hne l (.inr (.inr hext))) hbytes
  refine ⟨hip, by rw [Fragmented, Fragmented, hip, hlayers], ?_⟩
  rw [pseudoDst, pseudoDst, dstOf, dstOf, hip, hlayers]
  cases hfind : (extensions q.layers).find? fun l => l.protocol = .ipv6Route with
  | none => rfl
  | some l =>
      dsimp only
      rw [hroute l (List.mem_of_find?_eq_some hfind)]

/-- Rewriting addresses leaves a UDP checksum off. -/
theorem Readdresses.udpOff (h : Readdresses p q) (htable : LayerTable p.bytes p.layers)
    (hoff : UdpOff p o.ip) : UdpOff q o.ip := by
  obtain ⟨hip, t, ht, hudp, hzero⟩ := hoff
  have hheader : headerOf q t = headerOf p t := by
    refine h.bytes.take_drop_eq fun k hlo hhi hk => ?_
    obtain ⟨ip, f, hip', -, hk⟩ := hk
    obtain rfl := Option.some.inj (o.outerIp_eq.symm.trans hip')
    have hne : t ≠ o.ip := by
      rintro rfl
      rw [hip] at hudp
      cases hudp
    have hdisjoint := htable.disjoint (carried_mem ht) o.ip_mem hne
    have hlt := hk.2
    have hge := hk.1
    omega
  exact ⟨hip, t, h.layers.symm ▸ ht, hudp, hheader ▸ hzero⟩

/-- A packet whose transport checksum is left alone. -/
theorem ChecksumsFixed.of_left {checks : Bool} (h : Readdresses p q)
    (hheader : o.ip.protocol = .ipv4 →
      Ipv4Viewer.validateChecksum checks (headerOf q o.ip) = (.ok true : Outcome ε Bool))
    (hleft : Fragmented q o.ip ∨ pseudoDst q o.ip = none) :
    ChecksumsFixed ε checks o.ip p q where
  header := hheader
  transport t validate segment dst _ _ _ hfragment hdst := by
    obtain hleft | hleft := hleft
    · exact absurd hleft hfragment
    · rw [hleft] at hdst
      cases hdst
  left _ := h

/-- A packet whose transport checksum is fixed. -/
theorem ChecksumsFixed.of_transport {checks : Bool} {dst : ℕ} (h : Readdresses p q)
    (htable : LayerTable p.bytes p.layers)
    (hheader : o.ip.protocol = .ipv4 →
      Ipv4Viewer.validateChecksum checks (headerOf q o.ip) = (.ok true : Outcome ε Bool))
    (hfragment : ¬Fragmented q o.ip) (hdst : pseudoDst q o.ip = some dst)
    (hfixed : TransportFixed ε checks dst o.ip q q') :
    Rewrites p q' ∧ ChecksumsFixed ε checks o.ip p q' := by
  obtain ⟨hvalid, rfl | ⟨t, f, ht, hf, hlayers, hbytes, hoff, hsegment⟩⟩ := hfixed
  · refine ⟨h.rewrites, hheader, fun t validate segment dst' ht hvalidate hsegment _ hdst' => ?_,
      fun _ => h⟩
    obtain rfl := Option.some.inj (hdst.symm.trans hdst')
    exact hvalid t validate segment ht hvalidate hsegment
  · obtain ⟨hip, hfragment', hpseudo⟩ := headers_eq o h htable ht hf hlayers hbytes
    have hsrc : srcOf q' o.ip = srcOf q o.ip := by rw [srcOf, srcOf, hip]
    have hstep : Rewrites q q' := ⟨hlayers, hbytes.mono fun k hk => .inr ⟨t, f, ht, hf, hk⟩⟩
    refine ⟨h.rewrites.trans hstep, hip.symm ▸ hheader,
      fun t validate segment dst' ht hvalidate hsegment _ hdst' => ?_, fun hleft => ?_⟩
    · rw [hlayers] at ht
      rw [hpseudo, hdst] at hdst'
      obtain rfl := Option.some.inj hdst'
      rw [hsrc]
      exact hvalid t validate segment ht hvalidate hsegment
    · obtain hleft | hleft | hleft | hleft := hleft
      · exact absurd (hfragment'.1 hleft) hfragment
      · exact absurd hleft hsegment
      · rw [hpseudo, hdst] at hleft
        cases hleft
      · exact absurd (h.udpOff o htable hleft) hoff

/-- **`fix_checksums`** behind a rewritten header. -/
theorem fixChecksums_eq_ok {checks : Bool} (h : Readdresses p q)
    (htable : LayerTable p.bytes p.layers)
    (hfix : (fixChecksums checks q : Outcome ε _) = .ok q') :
    Rewrites p q' ∧ ChecksumsFixed ε checks o.ip p q' := by
  obtain ⟨hfamily, -, hip, -⟩ | ⟨hfamily, -, hip, -⟩ := h.rewrites.family_cases o htable
  · rw [fixChecksums, hfamily] at hfix
    obtain ⟨q₁, hfixed, hfix⟩ := Outcome.bind_eq_ok.1 hfix
    obtain ⟨info, hinfo, hfix⟩ := Outcome.bind_eq_ok.1 hfix
    obtain ⟨h₁, hheader⟩ := fixHeader_eq_ok o h htable hip hfixed
    have hfragment := read_fragment o h₁.rewrites htable hip hinfo
    split_ifs at hfix with hsome
    · obtain rfl := Outcome.ok.inj hfix
      exact ⟨h₁.rewrites, .of_left o h₁ (fun _ => hheader) (.inl (hfragment.1 hsome))⟩
    · exact ChecksumsFixed.of_transport o h₁ htable (fun _ => hheader) (mt hfragment.2 hsome)
        (if_pos hip) (fixTransportIpv4_eq_ok o h₁.rewrites htable hip hfix)
  · have hheader : o.ip.protocol = .ipv4 →
        Ipv4Viewer.validateChecksum checks (headerOf q o.ip) = (.ok true : Outcome ε Bool) := by
      rw [hip]
      nofun
    rw [fixChecksums, hfamily] at hfix
    obtain ⟨found, hfound, hfix⟩ := Outcome.bind_eq_ok.1 hfix
    have hfragment := outerFragment_eq_ok o h.rewrites htable hip hfound
    cases found with
    | some frag =>
        obtain rfl := Outcome.ok.inj hfix
        exact ⟨h.rewrites, .of_left o h hheader (.inl (hfragment.1 rfl))⟩
    | none =>
        obtain ⟨hdst, hnone⟩ := fixTransportIpv6_eq_ok o h.rewrites htable hip hfix
        cases hpseudo : pseudoDst q o.ip with
        | none =>
            obtain rfl := hnone hpseudo
            exact ⟨h.rewrites, .of_left o h hheader (.inr hpseudo)⟩
        | some dst =>
            exact ChecksumsFixed.of_transport o h htable hheader
              (mt hfragment.2 Bool.false_ne_true) hpseudo (hdst dst hpseudo)

end Fixing

variable {ρ : Type} [StdRng ρ]

/-- **The frame and checksum law of address rewriting.** -/
theorem rewrite_keeps_frame {checks changed : Bool} {group : ℕ} {packet packet' : Maja.Packet}
    {rewriter rewriter' : MapRewriter ρ} (hp : packet.Parsed) (hfix : rewriter.fixChecksum = true)
    (h : MapRewriter.rewrite checks packet group rewriter = .ok ((changed, packet'), rewriter')) :
    Rewrites packet packet' ∧ (changed = true → ∀ ip, outerIp packet.layers = some ip →
      ChecksumsFixed (Empty × MapRewriter ρ) checks ip packet packet') := by
  obtain ⟨q, hq, hfixed⟩ := rewrite_eq_ok hp h
  rw [hfix, Bool.and_true] at hfixed
  cases changed with
  | false =>
      obtain rfl := hfixed
      exact ⟨hq.rewrites, nofun⟩
  | true =>
      obtain hnone | ⟨options, ⟨o⟩⟩ := hp.outermost
      · rw [if_pos rfl, fixChecksums, hq.rewrites.outerIpFamily_eq,
          outerIpFamily_eq_none hnone] at hfixed
        obtain rfl := Outcome.ok.inj hfixed
        refine ⟨hq.rewrites, fun _ ip hip => ?_⟩
        have hisIp := List.find?_some hip
        rw [hnone ip (List.mem_of_find?_eq_some hip)] at hisIp
        cases hisIp
      · obtain ⟨hrewrites, hchecksums⟩ := fixChecksums_eq_ok o hq hp.table hfixed
        refine ⟨hrewrites, fun _ ip hip => ?_⟩
        obtain rfl := Option.some.inj (o.outerIp_eq.symm.trans hip)
        exact hchecksums


/-- A packet of two hosts of `192.168.0.0/16=>10.0.0.0/30`. -/
theorem rewrite_keeps_frame_twoHosts :
    ∃ rewriter rewriter' : MapRewriter LeastRng, ∃ packet',
      MapRewriter.rewrite true (FlowState.tcpPacket [192, 168, 0, 1] [192, 168, 0, 2] 99 80) 0
        rewriter = .ok ((true, packet'), rewriter') ∧
      Rewrites (FlowState.tcpPacket [192, 168, 0, 1] [192, 168, 0, 2] 99 80) packet' ∧
      ChecksumsFixed (Empty × MapRewriter LeastRng) true ⟨.ipv4, 0, 20⟩
        (FlowState.tcpPacket [192, 168, 0, 1] [192, 168, 0, 2] 99 80) packet' := by
  let rewriter : MapRewriter LeastRng :=
    ⟨none, some (FlowState.new AllocSlot.twoHostsCfg 1 2 1 .perGroup none), true⟩
  have hreturns : (MapRewriter.rewrite true
      (FlowState.tcpPacket [192, 168, 0, 1] [192, 168, 0, 2] 99 80) 0 rewriter).toOption.any
        (fun r => r.1.1) = true := by
    decide +kernel
  obtain ⟨⟨⟨changed, packet'⟩, rewriter'⟩, hrun, hchanged⟩ :=
    (Option.any_eq_true _ _).1 hreturns
  obtain rfl : changed = true := hchanged
  have hrun := Outcome.toOption_eq_some.1 hrun
  have hparsed : (FlowState.tcpPacket [192, 168, 0, 1] [192, 168, 0, 2] 99 80).Parsed :=
    ⟨41, .ipv4, {}, by decide, .inl (by decide +kernel)⟩
  obtain ⟨hrewrites, hfixed⟩ := rewrite_keeps_frame hparsed rfl hrun
  exact ⟨rewriter, rewriter', packet', hrun, hrewrites, hfixed rfl _ (by decide)⟩

/-- TCP over IPv6, behind a routing header of type 99 that has a segment left. -/
def unknownRoute (src dst : ℕ) : Maja.Packet where
  bytes := ([0x60, 0, 0, 0, 0, 28, 43, 64] : List UInt8) ++ beBytes 16 src ++ beBytes 16 dst ++
    [6, 0, 99, 1, 0, 0, 0, 0] ++ [0, 99, 0, 80, 0, 0, 0, 0, 0, 0, 0, 0, 0x50, 0, 0, 0, 0, 0, 0, 0]
  layers := [⟨.ipv6, 0, 40⟩, ⟨.ipv6Route, 40, 8⟩, ⟨.tcp, 48, 20⟩]

/-- **The final destination of a routing header of another type is not known**: `true`
is returned, and the checksum of the whole segment is not right for the addresses of
the header. -/
theorem unknownRoute_checksum_left :
    (unknownRoute (0x20010DB8 <<< 96) (0x20010DB9 <<< 96)).Parsed ∧
      FlowCfg.compile FlowState.uniqueLocal = .ok FlowState.uniqueLocalCfg ∧
      ∃ s : FlowState LeastRng, FlowState.Reached FlowState.uniqueLocalCfg s ∧
        ∃ rewriter', MapRewriter.rewrite true
            (unknownRoute (0x20010DB8 <<< 96) (0x20010DB9 <<< 96)) 0 ⟨none, some s, true⟩ =
          .ok ((true, unknownRoute (0xFD <<< 120) (0xFD <<< 120)), rewriter') ∧
        ¬Fragmented (unknownRoute (0xFD <<< 120) (0xFD <<< 120)) ⟨.ipv6, 0, 40⟩ ∧
        ∃ segment, (transportSegment (unknownRoute (0xFD <<< 120) (0xFD <<< 120)) :
            Outcome Empty _) = .ok (some segment) ∧
          (TcpViewer.validateChecksumIpv6 true
            (srcOf (unknownRoute (0xFD <<< 120) (0xFD <<< 120)) ⟨.ipv6, 0, 40⟩)
            (dstOf (unknownRoute (0xFD <<< 120) (0xFD <<< 120)) ⟨.ipv6, 0, 40⟩) segment :
            Outcome Empty Bool) = .ok false := by
  let s : FlowState LeastRng := FlowState.new FlowState.uniqueLocalCfg 1 2 1 .perGroup none
  have hreturns : (MapRewriter.rewrite true
      (unknownRoute (0x20010DB8 <<< 96) (0x20010DB9 <<< 96)) 0 ⟨none, some s, true⟩).toOption.map
        Prod.fst = some (true, unknownRoute (0xFD <<< 120) (0xFD <<< 120)) := by
    decide +kernel
  obtain ⟨⟨r, rewriter'⟩, hrun, rfl⟩ := Option.map_eq_some_iff.1 hreturns
  refine ⟨⟨69, .ipv6, {}, by decide, .inl (by decide +kernel)⟩, by decide +kernel, s, .own,
    rewriter', Outcome.toOption_eq_some.1 hrun, ?_, _, rfl, by decide +kernel⟩
  rw [Fragmented, if_neg (by decide)]
  decide

end Mergecap
end Maja
