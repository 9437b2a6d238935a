/-
# Coverage

Which captured bytes a successful parse leaves outside of every layer.  Four
parsers return with bytes behind what they record; all others hand them to a
child or record them raw, so a parse covers the frame if and only if it never
comes to one of the four with bytes to spare.
-/

import Maja.Packet.Calls

namespace Maja
namespace Packet

open Lib

/-- The call returns although there are bytes that nothing records: a frame that
is not SNAP, and bytes behind an ARP message, an IGMP message or a TLS record. -/
def Call.LeavesBytes (c : Call) : Prop :=
  match c.protocol with
  | .llc => c.offset + 3 ≤ c.region.stop ∧ ¬Llc.IsSnap ((c.region.bytes.drop c.offset).take 3)
  | .arp => c.offset + 8 ≤ c.region.stop ∧
      c.offset + Arp.len ((c.region.bytes.drop c.offset).take 8) < c.region.stop
  | .igmp => c.offset + 8 < c.region.stop
  | .tls => c.offset + 5 ≤ c.region.stop ∧ c.offset +
      (5 + TlsViewer.length.peek ((c.region.bytes.drop c.offset).take 5)) < c.region.stop
  | _ => False

/-- The verdict returns with bytes behind what it records. -/
def Verdict.Leaves (stop offset : ℕ) : Verdict → Prop
  | skip => offset < stop
  | header len .stop => offset + len < stop
  | datagram _ _ next => next = .stop
  | _ => False

/-- A header that the region does not hold leaves nothing. -/
theorem need_leaves_iff {r : Region} {p : Protocol} {offset len : ℕ} {k : List UInt8 → Verdict} :
    (r.need p offset len k).Leaves r.stop offset ↔
      offset + len ≤ r.stop ∧ (k ((r.bytes.drop offset).take len)).Leaves r.stop offset := by
  unfold Region.need
  by_cases h : offset + len ≤ r.stop
  · rw [if_pos h, and_iff_right h]
  · rw [if_neg h]
    exact ⟨False.elim, fun h' => h h'.1⟩

/-- A child or a raw layer takes what is left. -/
theorem header_leaves_iff {stop offset len : ℕ} {next : Next} :
    (Verdict.header len next).Leaves stop offset ↔ next = .stop ∧ offset + len < stop := by
  cases next <;> simp [Verdict.Leaves]

/-! ### The four parsers -/

/-- Behind an Ethernet header the parser goes on. -/
theorem EthType.next_ne_stop (tagged : Bool) (ethType : EthType) : ethType.next tagged ≠ .stop := by
  cases ethType <;> cases tagged <;> simp only [EthType.next] <;> (try split_ifs) <;> simp

/-- Behind a typed header the parser goes on. -/
theorem EthType.nextTyped_ne_stop (ethType : EthType) : ethType.nextTyped ≠ .stop := by
  cases ethType <;> simp [EthType.nextTyped]

/-- Behind a tunnel header the parser goes on. -/
theorem EthType.nextTunnelled_ne_stop (ethType : EthType) : ethType.nextTunnelled ≠ .stop := by
  cases ethType <;> simp [EthType.nextTunnelled]

/-- Behind an IPv4 header the parser goes on. -/
theorem IpProtocol.nextIpv4_ne_stop (protocol : IpProtocol) : protocol.nextIpv4 ≠ .stop := by
  cases protocol <;> simp [IpProtocol.nextIpv4]

/-- Behind an IPv6 header the parser goes on. -/
theorem IpProtocol.nextIpv6_ne_stop (protocol : IpProtocol) : protocol.nextIpv6 ≠ .stop := by
  cases protocol <;> simp [IpProtocol.nextIpv6]

/-- A parser whose header is followed by something leaves nothing. -/
theorem not_need_leaves {r : Region} {p : Protocol} {offset len : ℕ} {k : List UInt8 → Verdict}
    (h : ∀ header, ¬(k header).Leaves r.stop offset) :
    ¬(r.need p offset len k).Leaves r.stop offset := fun hleaves =>
  h _ (need_leaves_iff.1 hleaves).2

/-- A header behind which the parser goes on leaves no byte out. -/
theorem not_header_leaves {stop offset len : ℕ} {next : Next} (h : next ≠ .stop) :
    ¬(Verdict.header len next).Leaves stop offset := fun hleaves =>
  h (header_leaves_iff.1 hleaves).1

/-- A header of a declared length leaves no byte out. -/
theorem decodeDeclared_leaves {r : Region} {p : Protocol} {offset declared : ℕ} :
    ¬(decodeDeclared r p offset declared).Leaves r.stop offset := by
  refine not_need_leaves fun header => not_header_leaves ?_
  split_ifs
  · simp
  · exact IpProtocol.nextIpv6_ne_stop _

/-- An extension header leaves no byte out. -/
theorem decodeExtHeader_leaves {r : Region} {p : Protocol} {fixedLen offset : ℕ} :
    ¬(decodeExtHeader r p fixedLen offset).Leaves r.stop offset := by
  refine not_need_leaves fun header => ?_
  split_ifs
  · exact id
  · exact decodeDeclared_leaves

/-- A header up to the end leaves no byte out. -/
theorem decodeToEnd_leaves {r : Region} {p : Protocol} {minLen offset : ℕ} :
    ¬(decodeToEnd r p minLen offset).Leaves r.stop offset := by
  unfold decodeToEnd
  rw [need_leaves_iff, header_leaves_iff]
  rintro ⟨hmin, -, hstop⟩
  omega

/-- A label stack leaves no byte out. -/
theorem mpls_leaves {r : Region} {offset : ℕ} : ¬(decode .mpls r offset).Leaves r.stop offset := by
  rw [decode]
  cases hlast : r.labelStack (r.bytes.length + 1) offset with
  | error err => exact id
  | ok last =>
      obtain ⟨hlo, hhi⟩ := Region.labelStack_bounds hlast
      dsimp only
      rw [header_leaves_iff]
      rintro ⟨hnext, hlt⟩
      -- There is a byte behind the labels, so the parser looks at it.
      have hlen : last < r.bytes.length := by
        have := r.stop_le
        omega
      have hbyte : r.bytes[last]? = some r.bytes[last] := List.getElem?_eq_getElem hlen
      rw [hbyte] at hnext
      dsimp only at hnext
      split at hnext <;> simp at hnext

/-- **Four parsers leave bytes.** -/
theorem Call.leavesBytes_iff (c : Call) :
    c.LeavesBytes ↔ c.verdict.Leaves c.region.stop c.offset := by
  obtain ⟨p, depth, r, offset⟩ := c
  show Call.LeavesBytes _ ↔ (decode p r offset).Leaves r.stop offset
  cases p with
  | llc =>
      rw [decode, need_leaves_iff]
      refine and_congr_right fun hlen => ?_
      dsimp only
      split_ifs with hsnap
      · refine iff_of_false (fun h => h hsnap) (not_need_leaves fun header => ?_)
        exact not_header_leaves (EthType.nextTyped_ne_stop _)
      · have hlt : offset + 3 ≤ r.stop := hlen
        exact iff_of_true hsnap (show offset < r.stop by omega)
  | arp =>
      rw [decode, need_leaves_iff, need_leaves_iff, header_leaves_iff]
      refine and_congr_right fun hlen => ?_
      simp only [true_and]
      exact (and_iff_right_of_imp Nat.le_of_lt).symm
  | igmp =>
      rw [decode, need_leaves_iff, header_leaves_iff]
      simp only [true_and]
      exact (and_iff_right_of_imp Nat.le_of_lt).symm
  | tls =>
      rw [decode, need_leaves_iff, need_leaves_iff, header_leaves_iff]
      refine and_congr_right fun hlen => ?_
      simp only [true_and]
      exact (and_iff_right_of_imp Nat.le_of_lt).symm
  | eth => exact iff_of_false id (not_need_leaves fun _ => not_header_leaves (EthType.next_ne_stop _ _))
  | vlan => exact iff_of_false id (not_need_leaves fun _ => not_header_leaves (EthType.next_ne_stop _ _))
  | sll =>
      refine iff_of_false id (not_need_leaves fun header => not_header_leaves ?_)
      split_ifs
      · exact EthType.nextTyped_ne_stop _
      · simp
  | mpls => exact iff_of_false id mpls_leaves
  | ipv4 =>
      refine iff_of_false id ?_
      rw [decode]
      refine not_need_leaves fun header => ?_
      dsimp only
      split_ifs
      · exact id
      · refine not_need_leaves fun header => ?_
        split_ifs
        · exact id
        all_goals first
          | exact Next.noConfusion
          | exact IpProtocol.nextIpv4_ne_stop _
  | ipv6 =>
      refine iff_of_false id ?_
      rw [decode]
      exact not_need_leaves fun header => IpProtocol.nextIpv6_ne_stop _
  | ah =>
      refine iff_of_false id ?_
      rw [decode]
      refine not_need_leaves fun header => ?_
      split_ifs
      · exact id
      · exact decodeDeclared_leaves
  | gre =>
      refine iff_of_false id (not_need_leaves fun _ => not_need_leaves fun _ => ?_)
      exact not_header_leaves (EthType.nextTunnelled_ne_stop _)
  | tcp =>
      refine iff_of_false id ?_
      rw [decode]
      refine not_need_leaves fun header => ?_
      dsimp only
      split_ifs
      · exact id
      · refine not_need_leaves fun header => not_header_leaves ?_
        split_ifs <;> simp
  | udp =>
      refine iff_of_false id (not_need_leaves fun header => not_header_leaves ?_)
      split <;> simp
  | ipv6Frag =>
      refine iff_of_false id (not_need_leaves fun header => not_header_leaves ?_)
      split_ifs
      · simp
      · exact IpProtocol.nextIpv6_ne_stop _
  | esp => exact iff_of_false id (not_need_leaves fun _ => not_header_leaves (by simp))
  | vxlan => exact iff_of_false id (not_need_leaves fun _ => not_header_leaves (by simp))
  | ipv6Hopopt => exact iff_of_false id decodeExtHeader_leaves
  | ipv6DestOpts => exact iff_of_false id decodeExtHeader_leaves
  | ipv6Route => exact iff_of_false id decodeExtHeader_leaves
  | ipv6Mobility => exact iff_of_false id decodeExtHeader_leaves
  | ipv6Hip => exact iff_of_false id decodeExtHeader_leaves
  | ipv6Shim6 => exact iff_of_false id decodeExtHeader_leaves
  | sctp => exact iff_of_false id decodeToEnd_leaves
  | icmp => exact iff_of_false id decodeToEnd_leaves
  | icmpv6 => exact iff_of_false id decodeToEnd_leaves
  | dns => exact iff_of_false id decodeToEnd_leaves
  | dhcp => exact iff_of_false id decodeToEnd_leaves
  | ntp => exact iff_of_false id decodeToEnd_leaves
  | raw => exact iff_of_false id id

/-- A datagram hands on its payload. -/
theorem datagram_next_ne_stop {p : Protocol} {r : Region} {offset len : ℕ} {payloadEnd : Option ℕ}
    {next : Next} (h : decode p r offset = .datagram len payloadEnd next) : next ≠ .stop := by
  have hleaves := Call.leavesBytes_iff ⟨p, 0, r, offset⟩
  rintro rfl
  have hleft : (Call.mk p 0 r offset).LeavesBytes := by
    rw [hleaves]
    show (decode p r offset).Leaves r.stop offset
    rw [h]
    rfl
  cases p with
  | llc => simp only [decode, Region.need] at h; split_ifs at h
  | arp => simp only [decode, Region.need] at h; split_ifs at h
  | igmp => simp only [decode, Region.need] at h; split_ifs at h
  | tls => simp only [decode, Region.need] at h; split_ifs at h
  | _ => exact hleft

/-! ### Coverage of a descent -/

/-- The layers cover `[lo, hi)`. -/
def CoverLayers (lo hi : ℕ) (layers : List Layer) : Prop := Span.Covers lo hi (layers.map Layer.range)

section Descend

variable {options : ParseOptions} {r : Region} {offset len depth : ℕ} {xs : List Layer}

/-- The raw layer covers what is left. -/
theorem coverLayers_rawLayers : CoverLayers offset r.stop (rawLayers r offset) := by
  unfold rawLayers
  split_ifs with h
  · exact Span.covers_singleton le_rfl (show r.stop ≤ offset + (r.stop - offset) by omega)
  · exact Span.covers_of_le (by omega)

/-- No layer covers an empty region only. -/
theorem coverLayers_nil_iff : CoverLayers offset r.stop [] ↔ r.stop ≤ offset := by
  constructor
  · intro h
    by_contra hlt
    exact Span.not_covers_nil (by omega) h
  · exact Span.covers_of_le

/-- A header covers its own bytes; the rest is left to what follows. -/
theorem coverLayers_cons_iff {p : Protocol} (hlen : offset + len ≤ r.stop) (hpos : 0 < len)
    (hxs : PackedLayers (offset + len) r.stop xs) :
    CoverLayers offset r.stop (⟨p, offset, len⟩ :: xs) ↔ CoverLayers (offset + len) r.stop xs := by
  have hhead : Span.Packed offset (offset + len) [(⟨offset, len⟩ : Span)] :=
    ⟨le_rfl, hpos, le_rfl, trivial⟩
  have happend := Span.covers_append hhead hxs (Nat.le_add_right _ _) hlen
  exact happend.trans (and_iff_right (Span.covers_singleton le_rfl le_rfl))

/-- Trailing layers cover what is behind a declared end. -/
theorem coverLayers_trailing_iff {payloadEnd : Option ℕ}
    (hend : ∀ e ∈ payloadEnd, offset ≤ e)
    (hxs : PackedLayers offset (r.narrow payloadEnd).stop xs) :
    CoverLayers offset r.stop (xs ++ trailingLayers r payloadEnd) ↔
      CoverLayers offset (r.narrow payloadEnd).stop xs := by
  cases payloadEnd with
  | none =>
      show CoverLayers offset r.stop (xs ++ []) ↔ _
      rw [List.append_nil]
      rfl
  | some e =>
      have he := hend e rfl
      by_cases hes : e ≤ r.stop
      · have hstop : (r.narrow (some e)).stop = e := Nat.min_eq_right hes
        rw [hstop] at hxs ⊢
        rw [CoverLayers, List.map_append]
        exact (Span.covers_append hxs rawLayers_packed he hes).trans
          (and_iff_left coverLayers_rawLayers)
      · have hstop : (r.narrow (some e)).stop = r.stop := Nat.min_eq_left (by omega)
        have hnil : trailingLayers r (some e) = [] := if_neg (by omega)
        rw [hstop, hnil, List.append_nil]

/-- Behind its header, and before its trailer, a layer covers what its payload's
layers cover. -/
theorem enclose_cover_iff {p : Protocol} {payloadEnd : Option ℕ} {t : Trace} (hpos : 0 < len)
    (hlen : offset + len ≤ r.stop) (hend : ∀ e ∈ payloadEnd, offset + len ≤ e)
    (herror : t.error = none)
    (hpacked : PackedLayers (offset + len) (r.narrow payloadEnd).stop t.layers) :
    CoverLayers offset r.stop (t.enclose r ⟨p, offset, len⟩ payloadEnd).layers ↔
      CoverLayers (offset + len) (r.narrow payloadEnd).stop t.layers := by
  have hall := @Trace.enclose_packed r offset t p len payloadEnd hpos hlen hend hpacked
  have hlayers : (t.enclose r ⟨p, offset, len⟩ payloadEnd).layers =
      ⟨p, offset, len⟩ :: (t.layers ++ trailingLayers r payloadEnd) := by
    rw [Trace.enclose, herror]
    rfl
  rw [hlayers] at hall ⊢
  rw [coverLayers_cons_iff hlen hpos (packedLayers_cons.1 hall).2.2.2,
    coverLayers_trailing_iff hend hpacked]

/-- A header and the layers behind it cover a region when the layers cover what is left
behind the header. -/
theorem enclose_none_cover_iff {p : Protocol} {t : Trace} (hpos : 0 < len)
    (hlen : offset + len ≤ r.stop) (herror : t.error = none)
    (hpacked : PackedLayers (offset + len) r.stop t.layers) :
    CoverLayers offset r.stop (t.enclose r ⟨p, offset, len⟩ none).layers ↔
      CoverLayers (offset + len) r.stop t.layers :=
  enclose_cover_iff hpos hlen (fun _ he => by simp at he) herror hpacked

/-- With fallback on, only a parser's own header can fail it. -/
theorem error_descend_iff (hfallback : options.fallbackToRawOnChildError = true) {fuel : ℕ}
    {p : Protocol} : (descend options (fuel + 1) depth r p offset).error ≠ none ↔
      (∃ err, decode p r offset = .fail err) ∨ ∃ len err, decode p r offset = .reject len err := by
  rw [descend]
  cases decode p r offset with
  | header len next => simp [Trace.enclose, follow_error hfallback]
  | datagram len payloadEnd next => simp [Trace.enclose, follow_error hfallback]
  | _ => simp [Trace.unparsed]

/-- What is recorded behind a header covers the region if no call from there on
leaves bytes. -/
theorem follow_cover_iff (hfallback : options.fallbackToRawOnChildError = true) {fuel : ℕ}
    (hfuel : r.stop - offset < fuel) (next : Next)
    (ih : ∀ protocol, (descend options fuel depth r protocol offset).error = none →
      (CoverLayers offset r.stop (descend options fuel depth r protocol offset).layers ↔
        ∀ d, Call.Leads options ⟨protocol, depth, r, offset⟩ d → ¬d.LeavesBytes)) :
    CoverLayers offset r.stop
        (follow options (fun child => descend options fuel depth r child offset) depth r offset
          next).layers ↔
      (next = .stop → r.stop ≤ offset) ∧
        ∀ child, next = .child child → options.AllowsLayer depth →
          ∀ d, Call.Leads options ⟨child, depth, r, offset⟩ d → ¬d.LeavesBytes := by
  cases next with
  | stop =>
      simp only [forall_const, reduceCtorEq, false_implies, implies_true, and_true]
      exact coverLayers_nil_iff
  | raw =>
      exact iff_of_true coverLayers_rawLayers ⟨fun h => by simp at h, fun _ h => by simp at h⟩
  | child protocol =>
      simp only [reduceCtorEq, false_implies, true_and, Next.child.injEq, forall_eq']
      rw [follow]
      split_ifs with hallow
      · rw [forall_prop_of_true hallow]
        unfold Trace.fallback
        split
        · rename_i herror
          exact ih protocol herror
        · rename_i err herror
          obtain ⟨fuel, rfl⟩ : ∃ n, fuel = n + 1 := ⟨fuel - 1, by omega⟩
          have hfail := (error_descend_iff hfallback).1 (by rw [herror]; simp)
          rw [if_pos hfallback]
          refine iff_of_true coverLayers_rawLayers ?_
          -- The child that failed is the last call, and it left no bytes behind a layer.
          have hlast : ∀ c', ¬Call.Step options ⟨protocol, depth, r, offset⟩ c' := by
            refine Call.not_step (fun _ _ h => ?_) (fun _ _ _ h => ?_) <;>
            · rcases hfail with ⟨_, hfail⟩ | ⟨_, _, hfail⟩ <;>
              · have := hfail.symm.trans h
                simp at this
          rw [Call.forall_leads_of_noStep hlast, Call.leavesBytes_iff]
          rcases hfail with ⟨_, hfail⟩ | ⟨_, _, hfail⟩ <;>
          · show ¬(decode protocol r offset).Leaves r.stop offset
            rw [hfail]
            exact id
      · exact iff_of_true coverLayers_rawLayers fun h => absurd h hallow

/-- **Coverage of a descent.**  A descent that leaves no error covers its region
if and only if none of its calls leaves bytes.  The induction is on the fuel. -/
theorem descend_cover_iff (hfallback : options.fallbackToRawOnChildError = true) {fuel : ℕ}
    {p : Protocol} (hfuel : r.stop - offset < fuel)
    (hok : (descend options fuel depth r p offset).error = none) :
    CoverLayers offset r.stop (descend options fuel depth r p offset).layers ↔
      ∀ d, Call.Leads options ⟨p, depth, r, offset⟩ d → ¬d.LeavesBytes := by
  induction fuel generalizing depth r p offset with
  | zero => omega
  | succ fuel ih =>
      have hsound := decode_sound p r offset
      have hleaves : Call.LeavesBytes ⟨p, depth, r, offset⟩ ↔
          (decode p r offset).Leaves r.stop offset := Call.leavesBytes_iff _
      rw [descend] at hok ⊢
      cases hverdict : decode p r offset with
      | fail err =>
          rw [hverdict] at hok
          simp at hok
      | reject len err =>
          rw [hverdict] at hok
          simp at hok
      | skip =>
          have hlast : ∀ c', ¬Call.Step options ⟨p, depth, r, offset⟩ c' :=
            Call.not_step (fun _ _ h => by simp [Call.verdict, hverdict] at h)
              (fun _ _ _ h => by simp [Call.verdict, hverdict] at h)
          rw [Call.forall_leads_of_noStep hlast, hleaves, hverdict]
          exact coverLayers_nil_iff.trans Nat.not_lt.symm
      | unparsed =>
          have hlast : ∀ c', ¬Call.Step options ⟨p, depth, r, offset⟩ c' :=
            Call.not_step (fun _ _ h => by simp [Call.verdict, hverdict] at h)
              (fun _ _ _ h => by simp [Call.verdict, hverdict] at h)
          rw [Call.forall_leads_of_noStep hlast, hleaves, hverdict]
          exact iff_of_true coverLayers_rawLayers id
      | header len next =>
          rw [hverdict] at hsound hleaves
          obtain ⟨hpos, hlen⟩ := hsound
          rw [header_leaves_iff] at hleaves
          dsimp only
          rw [enclose_none_cover_iff hpos hlen (follow_error hfallback _ _)
              (follow_packed (fun _ => descend_packed _ _ _ _ _ _) _),
            follow_cover_iff hfallback (by omega) next (fun protocol h => ih (by omega) h),
            Call.forall_leads_iff,
            @Call.forall_step_header options ⟨p, depth, r, offset⟩ len next _ hverdict,
            hleaves, not_and, Nat.not_lt]
      | datagram len payloadEnd next =>
          rw [hverdict] at hsound hleaves
          obtain ⟨hpos, hlen, hend⟩ := hsound
          have hstop := narrow_stop_le r payloadEnd
          dsimp only
          rw [enclose_cover_iff hpos hlen hend (follow_error hfallback _ _)
              (follow_packed (fun _ => descend_packed _ _ _ _ _ _) _),
            follow_cover_iff hfallback (by omega) next (fun protocol h => ih (by omega) h),
            Call.forall_leads_iff,
            @Call.forall_step_datagram options ⟨p, depth, r, offset⟩ len payloadEnd next _ hverdict,
            hleaves]
          simp [Verdict.Leaves, datagram_next_ne_stop hverdict]

end Descend

/-- **Coverage of a parse.**  A parse that returns `Ok` with the default options
covers the captured bytes if and only if it makes no call that leaves bytes. -/
theorem parse_covers_iff (linkType : Capture.LinkType) (bytes : List UInt8)
    (packet : Maja.Packet) (fuel : ℕ) (hfuel : bytes.length < fuel)
    (hok : tryParseWithLinkType fuel linkType {} (new bytes) = .ok ((), packet)) :
    (∀ i < bytes.length, ∃ l ∈ packet.layers, l.range.Contains i) ↔
      ∀ call, Reaches {} linkType bytes call → ¬call.LeavesBytes := by
  rw [tryParseWithLinkType_new linkType hfuel, Trace.toPacket_eq_ok] at hok
  obtain ⟨herror, rfl⟩ := hok
  have hallow : ({} : ParseOptions).AllowsLayer 0 := fun _ h => by simp at h
  -- Coverage, layer by layer.
  have hcover : (∀ i < bytes.length, ∃ l ∈ (parseTrace {} fuel bytes linkType).layers,
      l.range.Contains i) ↔ CoverLayers 0 bytes.length (parseTrace {} fuel bytes linkType).layers := by
    simp [CoverLayers, Span.Covers]
  rw [hcover]
  unfold parseTrace at herror ⊢
  unfold Reaches
  cases hroot : rootOf bytes linkType with
  | protocol p =>
      rw [hroot] at herror
      simp only [rootTrace, if_pos hallow] at herror ⊢
      refine (descend_cover_iff rfl hfuel herror).trans ⟨?_, ?_⟩
      · rintro h call ⟨q, hq, -, hleads⟩
        cases hq
        exact h call hleads
      · intro h d hleads
        exact h d ⟨p, rfl, hallow, hleads⟩
  | unparsed =>
      refine iff_of_true (@coverLayers_rawLayers (.whole bytes) 0) ?_
      rintro call ⟨q, hq, -⟩
      cases hq
  | unsupported =>
      rw [hroot] at herror
      simp at herror

/-- An Ethernet frame with a length field, in front of a bridge's LLC frame. -/
def bridgeFrame : List UInt8 :=
  [1, 0x80, 0xc2, 0, 0, 0, 0, 1, 2, 3, 4, 5, 0, 3, 0x42, 0x42, 3]

/-- **An LLC frame that is not SNAP is left out of the table.** -/
theorem bridgeFrame_not_covered :
    tryParseWithLinkType 18 .ethernet {} (new bridgeFrame) = .ok ((), ⟨bridgeFrame, [⟨.eth, 0, 14⟩]⟩) ∧
    ¬∀ i < bridgeFrame.length, ∃ l ∈ [(⟨.eth, 0, 14⟩ : Layer)], l.range.Contains i := by
  decide +kernel

/-- The frame comes to LLC, with all of its three bytes there. -/
theorem parse_covers_iff_bridgeFrame :
    (∀ i < bridgeFrame.length, ∃ l ∈ [(⟨.eth, 0, 14⟩ : Layer)], l.range.Contains i) ↔
      ∀ call, Reaches {} .ethernet bridgeFrame call → ¬call.LeavesBytes :=
  parse_covers_iff .ethernet bridgeFrame ⟨bridgeFrame, [⟨.eth, 0, 14⟩]⟩ 18 (by decide)
    (by decide +kernel)

end Packet
end Maja
