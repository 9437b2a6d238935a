/-
# Padding

Two packets whose regions hold the same bytes are parsed alike, whatever lies
behind the regions: every verdict depends on the bytes of its region only, with
one exception that the fallback hides.  So a trailer behind an IP packet that
declares its length changes nothing but to add a raw layer of its own.
-/

import Maja.Packet.Descent

namespace Maja
namespace Packet

open Lib

/-- The regions hold the same bytes. -/
structure SameRegion (r r' : Region) : Prop where
  stop : r.stop = r'.stop
  bytes : r.bytes.take r.stop = r'.bytes.take r'.stop

namespace SameRegion

variable {r r' : Region} {protocol : Protocol} {offset len : ℕ}

/-- A required header is the same in both. -/
theorem header_eq (h : SameRegion r r') (hlen : offset + len ≤ r.stop) :
    (r.bytes.drop offset).take len = (r'.bytes.drop offset).take len := by
  have hcut : ∀ (bytes : List UInt8) (stop : ℕ), offset + len ≤ stop →
      (bytes.drop offset).take len = ((bytes.take stop).drop offset).take len := by
    intro bytes stop hle
    rw [List.drop_take, List.take_take, Nat.min_eq_left (by omega)]
  rw [hcut r.bytes r.stop hlen, h.bytes, ← hcut r'.bytes r'.stop (h.stop ▸ hlen)]

/-- A length check inside the same region has the same verdict. -/
theorem need_eq (h : SameRegion r r') {k k' : List UInt8 → Verdict}
    (hk : ∀ header, k header = k' header) :
    r.need protocol offset len k = r'.need protocol offset len k' := by
  unfold Region.need
  by_cases hlen : offset + len ≤ r.stop
  · rw [if_pos hlen, if_pos (h.stop ▸ hlen), h.header_eq hlen, hk]
  · rw [if_neg hlen, if_neg (h.stop ▸ hlen), h.stop]

/-- Narrowing keeps the regions the same. -/
theorem narrow (h : SameRegion r r') (payloadEnd : Option ℕ) :
    SameRegion (r.narrow payloadEnd) (r'.narrow payloadEnd) := by
  cases payloadEnd with
  | none => exact h
  | some e =>
      refine ⟨congrArg (min · e) h.stop, ?_⟩
      have hcut : ∀ (bytes : List UInt8) (stop : ℕ),
          bytes.take (min stop e) = (bytes.take stop).take e := by
        intro bytes stop
        rw [List.take_take, Nat.min_comm]
      show r.bytes.take (min r.stop e) = r'.bytes.take (min r'.stop e)
      rw [hcut, hcut, h.bytes]

/-- The raw layer of the same region is the same. -/
theorem rawLayers_eq (h : SameRegion r r') : rawLayers r offset = rawLayers r' offset := by
  unfold rawLayers
  rw [h.stop]

/-- A header of a declared length in the same region is the same. -/
theorem decodeDeclared_eq (h : SameRegion r r') (declared : ℕ) :
    decodeDeclared r protocol offset declared = decodeDeclared r' protocol offset declared := by
  unfold decodeDeclared
  rw [h.stop]
  exact h.need_eq fun header => rfl

/-- An extension header in the same region is the same. -/
theorem decodeExtHeader_eq (h : SameRegion r r') (fixedLen : ℕ) :
    decodeExtHeader r protocol fixedLen offset = decodeExtHeader r' protocol fixedLen offset := by
  unfold decodeExtHeader
  refine h.need_eq fun header => ?_
  rw [h.decodeDeclared_eq]

/-- A header up to the end of the same region is the same. -/
theorem decodeToEnd_eq (h : SameRegion r r') (minLen : ℕ) :
    decodeToEnd r protocol minLen offset = decodeToEnd r' protocol minLen offset := by
  unfold decodeToEnd
  exact h.need_eq fun header => by rw [h.stop]

/-- The label stacks end at the same place, when both loops have enough fuel. -/
theorem labelStack_eq (h : SameRegion r r') (fuel fuel' : ℕ)
    (hfuel : r.stop < offset + 4 * (fuel + 1)) (hfuel' : r.stop < offset + 4 * (fuel' + 1)) :
    r.labelStack (fuel + 1) offset = r'.labelStack (fuel' + 1) offset := by
  induction fuel generalizing fuel' offset with
  | zero =>
      rw [r.labelStack_succ, r'.labelStack_succ, ← h.stop, if_neg (by omega), if_neg (by omega)]
  | succ fuel ih =>
      rw [r.labelStack_succ, r'.labelStack_succ, ← h.stop]
      by_cases hlen : offset + 4 ≤ r.stop
      · obtain ⟨fuel', rfl⟩ : ∃ n, fuel' = n + 1 := ⟨fuel' - 1, by omega⟩
        rw [if_pos hlen, if_pos hlen, h.header_eq hlen, ih fuel' (by omega) (by omega)]
      · rw [if_neg hlen, if_neg hlen]

/-- The verdicts agree, except that a label stack that fills its region looks
behind it for its payload. -/
theorem decode_eq (h : SameRegion r r') (p : Protocol) (offset : ℕ) :
    decode p r offset = decode p r' offset ∨
      ∃ len next next', r.stop ≤ offset + len ∧ decode p r offset = .header len next ∧
        decode p r' offset = .header len next' := by
  cases p with
  | mpls =>
      have hle := r.stop_le
      have hle' := r'.stop_le
      have hstop := h.stop
      have hstack := @labelStack_eq _ _ offset h r.bytes.length r'.bytes.length (by omega) (by omega)
      rw [decode, decode, ← hstack]
      cases hlast : r.labelStack (r.bytes.length + 1) offset with
      | error err => exact .inl rfl
      | ok last =>
          obtain ⟨hlo, hhi⟩ := Region.labelStack_bounds hlast
          by_cases hend : last < r.stop
          · left
            have hbyte : r.bytes[last]? = r'.bytes[last]? := by
              rw [← List.getElem?_take_of_lt hend, h.bytes, List.getElem?_take_of_lt (hstop ▸ hend)]
            dsimp only
            rw [hbyte]
          · exact .inr ⟨_, _, _, by omega, rfl, rfl⟩
  | llc =>
      left
      rw [decode, decode]
      refine h.need_eq fun header => ?_
      rw [h.need_eq fun _ => rfl]
  | arp =>
      left
      rw [decode, decode]
      exact h.need_eq fun header => h.need_eq fun _ => rfl
  | ipv4 =>
      left
      rw [decode, decode]
      refine h.need_eq fun header => ?_
      dsimp only
      rw [h.need_eq fun _ => rfl]
  | ah =>
      left
      rw [decode, decode]
      refine h.need_eq fun header => ?_
      rw [h.decodeDeclared_eq]
  | gre =>
      left
      rw [decode, decode]
      exact h.need_eq fun header => h.need_eq fun _ => rfl
  | tcp =>
      left
      rw [decode, decode]
      refine h.need_eq fun header => ?_
      dsimp only
      rw [h.need_eq fun _ => by rw [h.bytes]]
  | tls =>
      left
      rw [decode, decode]
      exact h.need_eq fun header => h.need_eq fun _ => rfl
  | ipv6Hopopt => exact .inl (h.decodeExtHeader_eq _)
  | ipv6DestOpts => exact .inl (h.decodeExtHeader_eq _)
  | ipv6Route => exact .inl (h.decodeExtHeader_eq _)
  | ipv6Mobility => exact .inl (h.decodeExtHeader_eq _)
  | ipv6Hip => exact .inl (h.decodeExtHeader_eq _)
  | ipv6Shim6 => exact .inl (h.decodeExtHeader_eq _)
  | sctp => exact .inl (h.decodeToEnd_eq _)
  | icmp => exact .inl (h.decodeToEnd_eq _)
  | icmpv6 => exact .inl (h.decodeToEnd_eq _)
  | dns => exact .inl (h.decodeToEnd_eq _)
  | dhcp => exact .inl (h.decodeToEnd_eq _)
  | ntp => exact .inl (h.decodeToEnd_eq _)
  | raw => exact .inl rfl
  | _ =>
      left
      rw [decode, decode]
      exact h.need_eq fun _ => rfl

end SameRegion

/-! ### Descents through the same bytes -/

section Descend

variable {options : ParseOptions} {r r' : Region} {offset depth : ℕ}

/-- Behind its region a parser records nothing, and with the fallback on it leaves
no error. -/
theorem follow_exhausted (hfallback : options.fallbackToRawOnChildError = true)
    (hend : r.stop ≤ offset) {child : Protocol → Trace}
    (hpacked : ∀ protocol, PackedLayers offset r.stop (child protocol).layers) (next : Next) :
    follow options child depth r offset next = ⟨none, []⟩ := by
  have hraw : Trace.unparsed r offset = ⟨none, []⟩ :=
    congrArg (Trace.mk none) (if_neg (by omega))
  cases next with
  | stop => rfl
  | raw => exact hraw
  | child protocol =>
      have hnil : (child protocol).layers = [] := by
        refine List.eq_nil_iff_forall_not_mem.2 fun l hl => ?_
        obtain ⟨hlo, hpos, hhi⟩ := (hpacked protocol).mem hl
        omega
      rw [follow, hraw]
      split_ifs
      · unfold Trace.fallback
        split
        · rename_i herror
          rw [← hnil, ← herror]
        · rw [if_pos hfallback, hraw]
      · rfl

/-- Children that agree are followed alike in the same region. -/
theorem follow_same (h : SameRegion r r') {child child' : Protocol → Trace}
    (hchild : ∀ protocol, child protocol = child' protocol) (next : Next) :
    follow options child depth r offset next = follow options child' depth r' offset next := by
  have hraw : Trace.unparsed r offset = Trace.unparsed r' offset :=
    congrArg (Trace.mk none) h.rawLayers_eq
  rw [show child = child' from funext hchild]
  cases next with
  | stop => rfl
  | raw => exact hraw
  | child protocol => rw [follow, follow, Trace.fallback, Trace.fallback, hraw]

/-- What follows a header is recorded alike in the same region. -/
theorem enclose_same (h : SameRegion r r') (t : Trace) (layer : Layer) (payloadEnd : Option ℕ) :
    t.enclose r layer payloadEnd = t.enclose r' layer payloadEnd := by
  have htrailing : trailingLayers r payloadEnd = trailingLayers r' payloadEnd := by
    cases payloadEnd with
    | none => rfl
    | some e => exact h.rawLayers_eq
  rw [Trace.enclose, Trace.enclose, htrailing]

/-- **A descent reads its region only**, with the fallback on. -/
theorem descend_same (hfallback : options.fallbackToRawOnChildError = true) (fuel depth : ℕ)
    (p : Protocol) (offset : ℕ) (h : SameRegion r r') :
    descend options fuel depth r p offset = descend options fuel depth r' p offset := by
  induction fuel generalizing depth p offset r r' with
  | zero => rfl
  | succ fuel ih =>
      rw [descend, descend]
      rcases h.decode_eq p offset with heq | ⟨len, next, next', hend, heq, heq'⟩
      · rw [← heq]
        cases decode p r offset with
        | unparsed => exact congrArg (Trace.mk none) h.rawLayers_eq
        | header len next =>
            dsimp only
            rw [follow_same h (fun _ => ih _ _ _ h), enclose_same h]
        | datagram len payloadEnd next =>
            dsimp only
            rw [follow_same (h.narrow _) (fun _ => ih _ _ _ (h.narrow _)), enclose_same h]
        | _ => rfl
      · rw [heq, heq']
        dsimp only
        rw [follow_exhausted hfallback hend (fun _ => descend_packed _ _ _ _ _ _),
          follow_exhausted hfallback (h.stop ▸ hend) (fun _ => descend_packed _ _ _ _ _ _),
          enclose_same h]

end Descend

/-! ### A trailer behind a declared length -/

/-- The length that an IP packet declares: the total length of IPv4, the header
and payload length of IPv6, and none where that field is zero. -/
def declaredLength (bytes : List UInt8) : Capture.LinkType → Option ℕ
  | .ipv4 =>
    let totalLength := Ipv4Viewer.totalLength.peek bytes
    if totalLength ≠ 0 then some totalLength else none
  | .ipv6 =>
    let payloadLength := Ipv6Viewer.payloadLength.peek bytes
    if payloadLength ≠ 0 then some (Ipv6.MIN_LEN + payloadLength) else none
  | _ => none

/-- The verdict is that of an IP header which parsed. -/
def Verdict.IsDatagram : Verdict → Prop
  | datagram _ _ _ => True
  | _ => False

section Append

variable {bytes trailer : List UInt8} {protocol : Protocol} {len : ℕ}
  {k : List UInt8 → Verdict}

/-- A header in front of the packet. -/
theorem need_whole (hlen : len ≤ bytes.length) :
    (Region.whole bytes).need protocol 0 len k = k (bytes.take len) := by
  have hneed : (Region.whole bytes).need protocol 0 len k = k ((bytes.drop 0).take len) :=
    if_pos (show 0 + len ≤ bytes.length by omega)
  rw [hneed, List.drop_zero]

/-- An IP header that parsed is whole. -/
theorem length_of_isDatagram
    (h : ((Region.whole bytes).need protocol 0 len k).IsDatagram) : len ≤ bytes.length := by
  by_contra hlen
  have hneed : (Region.whole bytes).need protocol 0 len k = .fail _ :=
    if_neg (show ¬0 + len ≤ bytes.length by omega)
  rw [hneed] at h
  exact h

/-- A whole header is read alike in front of a trailer. -/
theorem need_append (hlen : len ≤ bytes.length) :
    (Region.whole (bytes ++ trailer)).need protocol 0 len k = k (bytes.take len) := by
  rw [need_whole (by rw [List.length_append]; omega), List.take_append_of_le_length hlen]

/-- The verdict on a parsed IPv4 header: its payload ends where the packet's
length is declared to, and a trailer changes nothing. -/
theorem decode_ipv4_append (h : (decode .ipv4 (.whole bytes) 0).IsDatagram) :
    decode .ipv4 (.whole (bytes ++ trailer)) 0 = decode .ipv4 (.whole bytes) 0 ∧
      ∃ len next, decode .ipv4 (.whole bytes) 0 = .datagram len (declaredLength bytes .ipv4) next := by
  rw [decode] at h
  have hlen₀ := length_of_isDatagram h
  rw [need_whole hlen₀] at h
  rw [decode, decode, need_whole hlen₀, need_append hlen₀]
  dsimp only at h ⊢
  split_ifs at h ⊢ with hmin
  · exact h.elim
  · have hlen := length_of_isDatagram h
    rw [need_whole hlen] at h ⊢
    rw [need_append hlen]
    have htotal : Ipv4Viewer.totalLength.peek
        (bytes.take (Ipv4Viewer.ihl.peek (bytes.take 20) * 4)) = Ipv4Viewer.totalLength.peek bytes :=
      Field.peek_take _ (show 4 ≤ _ by omega) _
    rw [htotal, Nat.zero_add] at h ⊢
    by_cases hmalformed : Ipv4Viewer.totalLength.peek bytes ≠ 0 ∧
        Ipv4Viewer.totalLength.peek bytes < Ipv4Viewer.ihl.peek (bytes.take 20) * 4
    · rw [if_pos hmalformed] at h
      exact h.elim
    · rw [if_neg hmalformed]
      exact ⟨rfl, _, _, rfl⟩

/-- A trailer behind a bare IPv6 packet does not change its header. -/
theorem decode_ipv6_append (h : (decode .ipv6 (.whole bytes) 0).IsDatagram) :
    decode .ipv6 (.whole (bytes ++ trailer)) 0 = decode .ipv6 (.whole bytes) 0 ∧
      ∃ len next, decode .ipv6 (.whole bytes) 0 = .datagram len (declaredLength bytes .ipv6) next := by
  rw [decode] at h
  have hlen := length_of_isDatagram h
  rw [decode, decode, need_whole hlen, need_append hlen]
  have hpayload : Ipv6Viewer.payloadLength.peek (bytes.take 40) =
      Ipv6Viewer.payloadLength.peek bytes := Field.peek_take _ (by decide) _
  dsimp only
  rw [hpayload, Nat.zero_add]
  exact ⟨rfl, _, _, rfl⟩

/-- An IP header parses, or there is an error. -/
theorem decode_ip_cases {p : Protocol} (hp : p = .ipv4 ∨ p = .ipv6) (r : Region) (offset : ℕ) :
    (decode p r offset).IsDatagram ∨ (∃ err, decode p r offset = .fail err) ∨
      ∃ len err, decode p r offset = .reject len err := by
  rcases hp with rfl | rfl
  · rw [decode]
    unfold Region.need
    split_ifs with hmin
    · dsimp only
      split_ifs with hihl hlen htotal
      · exact .inr (.inl ⟨_, rfl⟩)
      · exact .inr (.inr ⟨_, _, rfl⟩)
      all_goals first
        | exact .inl trivial
        | exact .inr (.inl ⟨_, rfl⟩)
    · exact .inr (.inl ⟨_, rfl⟩)
  · rw [decode]
    unfold Region.need
    split_ifs with hmin
    · exact .inl trivial
    · exact .inr (.inl ⟨_, rfl⟩)

/-- An IP parser that leaves no error parsed its header. -/
theorem isDatagram_of_ok {options : ParseOptions} {fuel : ℕ} {p : Protocol}
    (hp : p = .ipv4 ∨ p = .ipv6)
    (h : (descend options (fuel + 1) 0 (.whole bytes) p 0).error = none) :
    (decode p (.whole bytes) 0).IsDatagram := by
  rw [descend] at h
  rcases decode_ip_cases hp (.whole bytes) 0 with hv | ⟨err, hv⟩ | ⟨len, err, hv⟩
  · exact hv
  · rw [hv] at h
    simp at h
  · rw [hv] at h
    simp at h

/-- The descents of a packet and of the padded packet, when the header declares
the packet's length. -/
theorem descend_append {p : Protocol} {fuel fuel' len : ℕ} {next : Next}
    (hfuel : bytes.length < fuel) (hfuel' : bytes.length < fuel') (htrailer : trailer ≠ [])
    (hv : decode p (.whole bytes) 0 = .datagram len (some bytes.length) next)
    (hv' : decode p (.whole (bytes ++ trailer)) 0 = .datagram len (some bytes.length) next)
    (hok : (descend {} fuel 0 (.whole bytes) p 0).error = none) :
    descend {} fuel' 0 (.whole (bytes ++ trailer)) p 0 =
      ⟨none, (descend {} fuel 0 (.whole bytes) p 0).layers ++
        [⟨.raw, bytes.length, trailer.length⟩]⟩ := by
  obtain ⟨fuel, rfl⟩ : ∃ n, fuel = n + 1 := ⟨fuel - 1, by omega⟩
  obtain ⟨fuel', rfl⟩ : ∃ n, fuel' = n + 1 := ⟨fuel' - 1, by omega⟩
  have hsound := decode_sound p (.whole bytes) 0
  rw [hv] at hsound
  have hpos : 0 < len := hsound.1
  have hlen : 0 + len ≤ bytes.length := hsound.2.1
  have hsame : SameRegion ((Region.whole (bytes ++ trailer)).narrow (some bytes.length))
      ((Region.whole bytes).narrow (some bytes.length)) := by
    have hstop : min (bytes ++ trailer).length bytes.length = min bytes.length bytes.length := by
      rw [List.length_append]
      omega
    refine ⟨hstop, ?_⟩
    show (bytes ++ trailer).take (min (bytes ++ trailer).length bytes.length) =
      bytes.take (min bytes.length bytes.length)
    rw [hstop, Nat.min_self, List.take_append_of_le_length le_rfl]
  -- The payload is descended into alike.
  have hinner : follow {} (fun child => descend {} fuel' (0 + 1)
        ((Region.whole (bytes ++ trailer)).narrow (some bytes.length)) child (0 + len)) (0 + 1)
        ((Region.whole (bytes ++ trailer)).narrow (some bytes.length)) (0 + len) next =
      follow {} (fun child => descend {} fuel (0 + 1)
        ((Region.whole bytes).narrow (some bytes.length)) child (0 + len)) (0 + 1)
        ((Region.whole bytes).narrow (some bytes.length)) (0 + len) next := by
    have hstop : ((Region.whole bytes).narrow (some bytes.length)).stop ≤ bytes.length :=
      Nat.min_le_left _ _
    refine follow_same hsame (fun protocol => ?_) next
    rw [descend_same rfl _ _ _ _ hsame]
    exact descend_fuel {} (0 + 1) _ protocol (0 + len) (by omega) (by omega)
  have htrailing : trailingLayers (.whole (bytes ++ trailer)) (some bytes.length) =
      [⟨.raw, bytes.length, trailer.length⟩] := by
    have hlt : 0 < trailer.length := List.length_pos_iff.2 htrailer
    have hstop : (bytes ++ trailer).length = bytes.length + trailer.length := List.length_append
    show (if bytes.length < (bytes ++ trailer).length then
      [(⟨.raw, bytes.length, (bytes ++ trailer).length - bytes.length⟩ : Layer)] else []) = _
    rw [hstop, if_pos (by omega), Nat.add_sub_cancel_left]
  have hnone : trailingLayers (.whole bytes) (some bytes.length) = [] :=
    if_neg (Nat.lt_irrefl bytes.length)
  simp only [descend, hv, hv', hinner] at hok ⊢
  unfold Trace.enclose at hok ⊢
  split at hok
  · simp only [htrailing, hnone, List.append_nil, List.cons_append]
  · exact absurd hok (Option.some_ne_none _)

end Append

/-- **A trailer changes nothing of an IP packet that declares its length.**  The
payload of the padded packet is the same region of the same bytes; behind it, the
trailer is recorded raw. -/
theorem padding_invariance (linkType : Capture.LinkType) (bytes trailer : List UInt8)
    (packet : Maja.Packet) (fuel fuel' : ℕ)
    (hlength : declaredLength bytes linkType = some bytes.length) (htrailer : trailer ≠ [])
    (hfuel : bytes.length < fuel) (hfuel' : (bytes ++ trailer).length < fuel')
    (hok : tryParseWithLinkType fuel linkType {} (new bytes) = .ok ((), packet)) :
    tryParseWithLinkType fuel' linkType {} (new (bytes ++ trailer)) =
      .ok ((), ⟨bytes ++ trailer,
        packet.layers ++ [⟨.raw, bytes.length, trailer.length⟩]⟩) := by
  rw [tryParseWithLinkType_new linkType hfuel, Trace.toPacket_eq_ok] at hok
  obtain ⟨herror, rfl⟩ := hok
  rw [tryParseWithLinkType_new linkType hfuel', Trace.toPacket_eq_ok]
  have hshort : bytes.length < fuel' := by
    rw [List.length_append] at hfuel'
    omega
  obtain ⟨fuel, rfl⟩ : ∃ n, fuel = n + 1 := ⟨fuel - 1, by omega⟩
  -- The two link types that declare a length have one root parser each.
  obtain ⟨p, hp, hroot, happend⟩ : ∃ p : Protocol, (p = .ipv4 ∨ p = .ipv6) ∧
      (∀ bytes, rootOf bytes linkType = .protocol p) ∧
      ((decode p (.whole bytes) 0).IsDatagram →
        decode p (.whole (bytes ++ trailer)) 0 = decode p (.whole bytes) 0 ∧
          ∃ len next, decode p (.whole bytes) 0 = .datagram len (some bytes.length) next) := by
    cases linkType with
    | ipv4 => exact ⟨.ipv4, .inl rfl, fun _ => rfl, hlength ▸ decode_ipv4_append⟩
    | ipv6 => exact ⟨.ipv6, .inr rfl, fun _ => rfl, hlength ▸ decode_ipv6_append⟩
    | _ => exact absurd hlength (Option.some_ne_none _).symm
  have hdescend : ∀ (options : ParseOptions) (fuel : ℕ) (bytes : List UInt8),
      options.AllowsLayer 0 →
      parseTrace options fuel bytes linkType = descend options fuel 0 (.whole bytes) p 0 := by
    intro options fuel bytes hallow
    rw [parseTrace, hroot]
    exact if_pos hallow
  have hallow : ({} : ParseOptions).AllowsLayer 0 := fun _ h => by simp at h
  rw [hdescend {} _ _ hallow] at herror ⊢
  rw [hdescend {} _ _ hallow]
  obtain ⟨hsame, len, next, hv⟩ := happend (isDatagram_of_ok hp herror)
  rw [descend_append hfuel hshort htrailer hv (hsame.trans hv) herror]
  exact ⟨rfl, rfl⟩

/-- An IPv4 packet of 22 bytes with a payload of an unknown protocol. -/
def shortIpv4 : List UInt8 :=
  [0x45, 0, 0, 22, 0, 0, 0, 0, 64, 253, 0, 0, 10, 0, 0, 1, 10, 0, 0, 2, 0xaa, 0xbb]

/-- The short packet, padded by three bytes. -/
theorem padding_invariance_short :
    tryParseWithLinkType 23 .ipv4 {} (new shortIpv4) =
      .ok ((), ⟨shortIpv4, [⟨.ipv4, 0, 20⟩, ⟨.raw, 20, 2⟩]⟩) ∧
    tryParseWithLinkType 26 .ipv4 {} (new (shortIpv4 ++ [0, 0, 0])) =
      .ok ((), ⟨shortIpv4 ++ [0, 0, 0],
        [⟨.ipv4, 0, 20⟩, ⟨.raw, 20, 2⟩] ++ [⟨.raw, 22, 3⟩]⟩) :=
  have hok : tryParseWithLinkType 23 .ipv4 {} (new shortIpv4) =
      .ok ((), ⟨shortIpv4, [⟨.ipv4, 0, 20⟩, ⟨.raw, 20, 2⟩]⟩) := by decide +kernel
  ⟨hok, padding_invariance .ipv4 shortIpv4 [0, 0, 0] _ 23 26
    (by decide +kernel) (by decide) (by decide) (by decide) hok⟩

/-- An IPv6 header whose payload length is zero, in front of UDP. -/
def bareIpv6 : List UInt8 :=
  [0x60, 0, 0, 0, 0, 0, 17, 64] ++ List.replicate 32 0

/-- A UDP header without a payload. -/
def bareUdp : List UInt8 := [0x13, 0x88, 0x13, 0x89, 0, 8, 0, 0]

/-- A payload length of zero declares nothing: a bare IPv6 header is as long as
header and payload length say, but what is put behind it is its payload. -/
theorem padding_bareIpv6 :
    Ipv6.MIN_LEN + Ipv6Viewer.payloadLength.peek bareIpv6 = bareIpv6.length ∧
    tryParseWithLinkType 41 .ipv6 {} (new bareIpv6) =
      .ok ((), ⟨bareIpv6, [⟨.ipv6, 0, 40⟩]⟩) ∧
    tryParseWithLinkType 49 .ipv6 {} (new (bareIpv6 ++ bareUdp)) =
      .ok ((), ⟨bareIpv6 ++ bareUdp, [⟨.ipv6, 0, 40⟩, ⟨.udp, 40, 8⟩]⟩) ∧
    tryParseWithLinkType 49 .ipv6 {} (new (bareIpv6 ++ bareUdp)) ≠
      .ok ((), ⟨bareIpv6 ++ bareUdp,
        [⟨.ipv6, 0, 40⟩] ++ [⟨.raw, bareIpv6.length, bareUdp.length⟩]⟩) := by
  decide +kernel

end Packet
end Maja
