/-
# What a header says

Every parser of the table has one shape: it checks a header, may record it as a
layer, and hands the bytes behind it to at most one further parser.  `decode`
reads that off the header without running anything: it depends on the captured
bytes and on where the region ends, and on no other part of the context.
`parse_eq_run` says that each parser does what its verdict says; from here on
nothing looks into a parser again.
-/

import Maja.Packet.Parse

namespace Maja
namespace Packet

open Lib

/-- The captured bytes, and the end of those a subtree may use. -/
@[ext] structure Region where
  bytes : List UInt8
  stop : ℕ
  stop_le : stop ≤ bytes.length

/-- The region of a context. -/
def ParseContext.region (ctx : ParseContext) : Region :=
  ⟨ctx.bytes, ctx.endOffset, Nat.min_le_right _ _⟩

/-- The region below a header that declares where its payload ends. -/
def Region.narrow (r : Region) : Option ℕ → Region
  | none => r
  | some payloadEnd => ⟨r.bytes, min r.stop payloadEnd, (Nat.min_le_left _ _).trans r.stop_le⟩

/-- What happens right behind a header. -/
inductive Next where
  /-- Nothing: the parser returns. -/
  | stop
  /-- The rest of the region is recorded as raw. -/
  | raw
  /-- A child parser is called. -/
  | child (protocol : Protocol)
  deriving DecidableEq, Repr

/-- What a parser does at an offset. -/
inductive Verdict where
  /-- It fails and records nothing. -/
  | fail (err : ParseError)
  /-- It succeeds and records nothing. -/
  | skip
  /-- It records the rest of the region as raw. -/
  | unparsed
  /-- It records a header, then fails. -/
  | reject (len : ℕ) (err : ParseError)
  /-- It records a header and goes on behind it. -/
  | header (len : ℕ) (next : Next)
  /-- It records a header that may declare the end of its payload. -/
  | datagram (len : ℕ) (payloadEnd : Option ℕ) (next : Next)

/-- Go on at an offset. -/
def Next.run (table : ParseTable) (offset : ℕ) : Next → ParseM Unit
  | stop => pure ()
  | raw => parseRaw offset
  | child protocol => parseChild table protocol offset

/-- Do what the verdict on a header at an offset says. -/
def Verdict.run (table : ParseTable) (protocol : Protocol) (offset : ℕ) : Verdict → ParseM Unit
  | fail err => Prog.throw err
  | skip => pure ()
  | unparsed => parseRaw offset
  | reject len err => do
    pushLayer protocol offset len
    Prog.throw err
  | header len next => do
    pushLayer protocol offset len
    next.run table (offset + len)
  | datagram len payloadEnd next => do
    pushLayer protocol offset len
    parsePayload payloadEnd (next.run table (offset + len))

/-! ### Verdicts -/

/-- `require` in a region: the bytes, or the error of a truncated header. -/
def Region.need (r : Region) (protocol : Protocol) (offset len : ℕ)
    (k : List UInt8 → Verdict) : Verdict :=
  if offset + len ≤ r.stop then k ((r.bytes.drop offset).take len)
  else .fail (.ofTruncated protocol offset len r.stop)

/-- The parser for the type field of an Ethernet header or of a VLAN tag, which
does not dispatch a further tag. -/
def EthType.next (tagged : Bool) : EthType → Next
  | ipv4 => .child .ipv4
  | arp => .child .arp
  | ipv6 => .child .ipv6
  | vlan => if tagged then .raw else .child .vlan
  | mplsUnicast => .child .mpls
  | mplsMulticast => .child .mpls
  | reserverd length => if length ≤ 1500 then .child .llc else .raw
  | _ => .raw

/-- The parser for the type field of a SNAP or SLL header, which has no length
values. -/
def EthType.nextTyped : EthType → Next
  | ipv4 => .child .ipv4
  | arp => .child .arp
  | ipv6 => .child .ipv6
  | mplsUnicast => .child .mpls
  | mplsMulticast => .child .mpls
  | _ => .raw

/-- The parser for the type field of a GRE header. -/
def EthType.nextTunnelled : EthType → Next
  | ipv4 => .child .ipv4
  | ipv6 => .child .ipv6
  | _ => .raw

/-- The parser for the protocol field of an IPv4 header. -/
def IpProtocol.nextIpv4 : IpProtocol → Next
  | icmp => .child .icmp
  | igmp => .child .igmp
  | gre => .child .gre
  | tcp => .child .tcp
  | udp => .child .udp
  | sctp => .child .sctp
  | _ => .raw

/-- The parser for the next-header field of IPv6 and its extension headers. -/
def IpProtocol.nextIpv6 : IpProtocol → Next
  | hopopt => .child .ipv6Hopopt
  | ipv6Opts => .child .ipv6DestOpts
  | ipv6Route => .child .ipv6Route
  | ipv6Frag => .child .ipv6Frag
  | ah => .child .ah
  | mobilityHeader => .child .ipv6Mobility
  | hip => .child .ipv6Hip
  | shim6 => .child .ipv6Shim6
  | esp => .child .esp
  | tcp => .child .tcp
  | udp => .child .udp
  | gre => .child .gre
  | sctp => .child .sctp
  | ipv6Icmp => .child .icmpv6
  | ipv4 => .child .ipv4
  | ipv6 => .child .ipv6
  | _ => .raw

/-- The label stack at an offset: its end, or the error of its truncated entry. -/
def Region.labelStack (r : Region) : ℕ → ℕ → Except ParseError ℕ
  | 0, offset => .ok offset
  | fuel + 1, offset =>
    if offset + 4 ≤ r.stop then
      if MplsEntry.bottomOfStack.peek ((r.bytes.drop offset).take 4) ≠ 0 then .ok (offset + 4)
      else r.labelStack fuel (offset + 4)
    else .error (.ofTruncated .mpls offset 4 r.stop)

/-- One more label, up to the bottom of the stack. -/
theorem Region.labelStack_succ (r : Region) (fuel offset : ℕ) :
    r.labelStack (fuel + 1) offset =
      if offset + 4 ≤ r.stop then
        if MplsEntry.bottomOfStack.peek ((r.bytes.drop offset).take 4) ≠ 0 then .ok (offset + 4)
        else r.labelStack fuel (offset + 4)
      else .error (.ofTruncated .mpls offset 4 r.stop) := rfl

/-- A control octet of the U format, and the SNAP service access points. -/
def Llc.IsSnap (header : List UInt8) : Prop :=
  LlcViewer.controlU.peek header &&& 0x03 = 0x03 ∧
    LlcViewer.dsap.peek header = Lsap.SNAP ∧ LlcViewer.ssap.peek header = Lsap.SNAP

instance (header : List UInt8) : Decidable (Llc.IsSnap header) :=
  inferInstanceAs (Decidable (_ ∧ _))

/-- The length an ARP header declares. -/
def Arp.len (header : List UInt8) : ℕ :=
  8 + 2 * (ArpViewer.hardwareLen.peek header + ArpViewer.protocolLen.peek header)

/-- The second octet of a header. -/
def lengthOctet (header : List UInt8) : ℕ := (header.getD 1 0).toNat

/-- A header whose declared length is trusted as far as the region reaches. -/
def decodeDeclared (r : Region) (protocol : Protocol) (offset declared : ℕ) : Verdict :=
  let len := min declared (r.stop - offset)
  r.need protocol offset len fun header =>
    .header len <|
      if r.stop ≤ offset + len then .raw
      else (IpProtocol.ofCode (Ipv6ExtHeaderViewer.nextHeader.peek header)).nextIpv6

/-- The verdict of `parse_ext_header`. -/
def decodeExtHeader (r : Region) (protocol : Protocol) (fixedLen offset : ℕ) : Verdict :=
  r.need protocol offset 2 fun header =>
    if (lengthOctet header + 1) * 8 < fixedLen then
      .fail (.malformed protocol "header extension length"
        "the declared header is shorter than the fixed part")
    else
      decodeDeclared r protocol offset ((lengthOctet header + 1) * 8)

/-- The verdict of a parser that records the rest of the region. -/
def decodeToEnd (r : Region) (protocol : Protocol) (minLen offset : ℕ) : Verdict :=
  r.need protocol offset minLen fun _ => .header (r.stop - offset) .stop

/-- The verdict of each parser. -/
def decode : Protocol → Region → ℕ → Verdict
  | .eth, r, offset => r.need .eth offset 14 fun header =>
    .header 14 ((EthType.ofCode (EthViewer.ethType.peek header)).next false)
  | .vlan, r, offset => r.need .vlan offset 4 fun header =>
    .header 4 ((EthType.ofCode (VlanViewer.ethType.peek header)).next true)
  | .llc, r, offset => r.need .llc offset 3 fun header =>
    if Llc.IsSnap header then
      r.need .llc offset 8 fun header =>
        .header 8 (EthType.ofCode (LlcViewer.protocolId.peek header)).nextTyped
    else .skip
  | .sll, r, offset => r.need .sll offset 16 fun header =>
    .header 16 <|
      if SllViewer.arphrdType.peek header = ArphrdType.ETHER then
        (EthType.ofCode (SllViewer.protocolType.peek header)).nextTyped
      else .raw
  | .mpls, r, offset =>
    match r.labelStack (r.bytes.length + 1) offset with
    | .error err => .fail err
    | .ok nextOffset => .header (nextOffset - offset) <|
      match r.bytes[nextOffset]? with
      | none => .stop
      | some firstPayloadByte =>
        match firstPayloadByte.toNat >>> 4 with
        | 4 => .child .ipv4
        | 6 => .child .ipv6
        | _ => .raw
  | .arp, r, offset => r.need .arp offset 8 fun header =>
    r.need .arp offset (Arp.len header) fun _ => .header (Arp.len header) .stop
  | .ipv4, r, offset => r.need .ipv4 offset 20 fun header =>
    let headerLen := Ipv4Viewer.ihl.peek header * 4
    if headerLen < 20 then
      .fail (.malformed .ipv4 "ihl"
        "header length is smaller than the minimum IPv4 header length")
    else r.need .ipv4 offset headerLen fun header =>
      let totalLength := Ipv4Viewer.totalLength.peek header
      if totalLength ≠ 0 ∧ totalLength < headerLen then
        .reject headerLen (.malformed .ipv4 "total length"
          "total length is smaller than the header length")
      else
        .datagram headerLen (if totalLength ≠ 0 then some (offset + totalLength) else none)
          (if Ipv4Viewer.fragmentOffset.peek header ≠ 0 then .raw
            else (IpProtocol.ofCode (Ipv4Viewer.protocol.peek header)).nextIpv4)
  | .ipv6, r, offset => r.need .ipv6 offset 40 fun header =>
    let payloadLength := Ipv6Viewer.payloadLength.peek header
    .datagram 40 (if payloadLength ≠ 0 then some (offset + 40 + payloadLength) else none)
      (IpProtocol.ofCode (Ipv6Viewer.nextHeader.peek header)).nextIpv6
  | .ipv6Hopopt, r, offset => decodeExtHeader r .ipv6Hopopt 2 offset
  | .ipv6DestOpts, r, offset => decodeExtHeader r .ipv6DestOpts 2 offset
  | .ipv6Route, r, offset => decodeExtHeader r .ipv6Route 4 offset
  | .ipv6Mobility, r, offset => decodeExtHeader r .ipv6Mobility 6 offset
  | .ipv6Hip, r, offset => decodeExtHeader r .ipv6Hip 40 offset
  | .ipv6Shim6, r, offset => decodeExtHeader r .ipv6Shim6 6 offset
  | .ipv6Frag, r, offset => r.need .ipv6Frag offset 8 fun header =>
    .header 8 (if Ipv6FragViewer.fragmentOffset.peek header ≠ 0 then .raw
      else (IpProtocol.ofCode (Ipv6FragViewer.nextHeader.peek header)).nextIpv6)
  | .ah, r, offset => r.need .ah offset 12 fun header =>
    if (lengthOctet header + 2) * 4 < 12 then
      .fail (.malformed .ah "payload length"
        "the declared header is shorter than the fixed part")
    else
      decodeDeclared r .ah offset ((lengthOctet header + 2) * 4)
  | .esp, r, offset => r.need .esp offset 8 fun _ => .header 8 .raw
  | .gre, r, offset => r.need .gre offset 4 fun header =>
    let headerLen := GreViewer.lenOfFlags (GreViewer.flags.peek header)
    r.need .gre offset headerLen fun header =>
      .header headerLen (EthType.ofCode (GreViewer.protocolType.peek header)).nextTunnelled
  | .tcp, r, offset => r.need .tcp offset 20 fun header =>
    let headerLen := TcpViewer.dataOffset.peek header * 4
    if headerLen < 20 then
      .fail (.malformed .tcp "data_offset"
        "header length is smaller than the minimum TCP header length")
    else r.need .tcp offset headerLen fun header =>
      .header headerLen <|
        if (IsTlsServicePort (TcpViewer.srcPort.peek header) ∨
            IsTlsServicePort (TcpViewer.dstPort.peek header)) ∧
            Tls.looksLikeRecord ((r.bytes.take r.stop).drop (offset + headerLen)) then
          .child .tls
        else .raw
  | .udp, r, offset => r.need .udp offset 8 fun header =>
    .header 8 <|
      match Udp.service (UdpViewer.srcPort.peek header) (UdpViewer.dstPort.peek header) with
      | some protocol => .child protocol
      | none => .raw
  | .sctp, r, offset => decodeToEnd r .sctp 12 offset
  | .icmp, r, offset => decodeToEnd r .icmp 4 offset
  | .icmpv6, r, offset => decodeToEnd r .icmpv6 4 offset
  | .igmp, r, offset => r.need .igmp offset 8 fun _ => .header 8 .stop
  | .dns, r, offset => decodeToEnd r .dns 12 offset
  | .dhcp, r, offset => decodeToEnd r .dhcp 240 offset
  | .ntp, r, offset => decodeToEnd r .ntp 48 offset
  | .vxlan, r, offset => r.need .vxlan offset 8 fun _ => .header 8 (.child .eth)
  | .tls, r, offset => r.need .tls offset 5 fun header =>
    r.need .tls offset (5 + TlsViewer.length.peek header) fun _ =>
      .header (5 + TlsViewer.length.peek header) .stop
  | .raw, _, _ => .unparsed

/-! ### Each parser does what its verdict says -/

section Run

variable {table : ParseTable} {protocol p : Protocol} {offset o len : ℕ} {ctx : ParseContext}

/-- The region has the bytes of the context. -/
@[simp] theorem region_bytes : ctx.region.bytes = ctx.bytes := rfl

/-- The region ends where the context ends. -/
@[simp] theorem region_stop : ctx.region.stop = ctx.endOffset := rfl

/-- A context does not end behind its bytes. -/
theorem endOffset_le (ctx : ParseContext) : ctx.endOffset ≤ ctx.bytes.length :=
  ctx.region.stop_le

/-- `require` goes on with the bytes, or fails. -/
theorem require_bind {α : Type} {f : List UInt8 → ParseM α} :
    (require protocol offset len >>= f) ctx =
      if offset + len ≤ ctx.endOffset then f ((ctx.bytes.drop offset).take len) ctx
      else .err (.ofTruncated protocol offset len ctx.endOffset, ctx) := by
  have hle := endOffset_le ctx
  unfold require
  simp only [Prog.bind_apply, Prog.get_apply, Outcome.ok_bind]
  split_ifs with h₁ h₂ h₂
  · omega
  · rfl
  · rfl
  · omega

/-- The bytes of a required header. -/
theorem length_header (h : offset + len ≤ ctx.endOffset) :
    ((ctx.bytes.drop offset).take len).length = len := by
  have hle := endOffset_le ctx
  simp only [List.length_take, List.length_drop]
  omega

/-- Requiring bytes and going on with them is what `need` says, when what follows
is what the rest of the verdict says. -/
theorem require_need {f : List UInt8 → ParseM Unit} {k : List UInt8 → Verdict}
    (h : ∀ header, offset + len ≤ ctx.endOffset → header.length = len →
      f header ctx = (k header).run table p o ctx) :
    (require protocol offset len >>= f) ctx =
      (ctx.region.need protocol offset len k).run table p o ctx := by
  rw [require_bind, Region.need, region_stop, region_bytes]
  split_ifs with hlen
  · exact h _ hlen (length_header hlen)
  · rfl

/-- Reading a field that the header reaches goes on with its value. -/
theorem lift_get {α : Type} {f : Field} {header : List UInt8} {k : ℕ → ParseM α}
    (h : f.hi ≤ header.length) : Prog.lift (f.get header) >>= k = k (f.peek header) := by
  rw [Field.get_eq h]
  rfl

/-- Going on with a value from outside. -/
theorem lift_ok_bind {α β : Type} {a : α} {k : α → ParseM β} :
    (Prog.lift (.ok a : Outcome ParseError α) >>= k) = k a := rfl

/-- Going on behind a layer that was pushed. -/
theorem pushLayer_bind {f : Unit → ParseM Unit} : (pushLayer protocol offset len >>= f) ctx =
    f () (ctx.pushLayer protocol offset len) := rfl

/-- Going on with the bytes that are left. -/
theorem rest_bind {f : List UInt8 → ParseM Unit} :
    (rest offset >>= f) ctx = f (ctx.rest offset) ctx := rfl

/-- Running a header: the layer is pushed, and the parser goes on behind it. -/
theorem run_header {next : Next} : (Verdict.header len next).run table p o ctx =
    next.run table (o + len) (ctx.pushLayer p o len) := rfl

/-- Running a datagram: the layer is pushed, and the payload is parsed up to its end. -/
theorem run_datagram {payloadEnd : Option ℕ} {next : Next} :
    (Verdict.datagram len payloadEnd next).run table p o ctx =
      parsePayload payloadEnd (next.run table (o + len)) (ctx.pushLayer p o len) := rfl

/-- Recording a layer leaves the region alone. -/
theorem pushLayer_region : (ctx.pushLayer protocol offset len).region = ctx.region := by
  unfold ParseContext.pushLayer
  split_ifs <;> rfl

/-- The bytes that are left lie behind the offset, up to the end. -/
theorem rest_eq : ctx.rest offset = (ctx.bytes.take ctx.endOffset).drop offset := by
  have hlen : (ctx.bytes.take ctx.endOffset).length ≤ ctx.endOffset := List.length_take_le _ _
  unfold ParseContext.rest
  by_cases h : offset ≤ ctx.endOffset
  · rw [Nat.min_eq_left h]
  · rw [Nat.min_eq_right (by omega), List.drop_eq_nil_of_le hlen,
      List.drop_eq_nil_of_le (by omega)]

/-- As many bytes are left as the region has behind the offset. -/
theorem length_rest : (ctx.rest offset).length = ctx.region.stop - offset := by
  have hle := endOffset_le ctx
  rw [rest_eq, List.length_drop, List.length_take, Nat.min_eq_left hle]
  rfl

/-! The parsers of `Link`. -/

/-- The parser of Ethernet runs the verdict of `decode`. -/
theorem Eth.parse_eq_run :
    Eth.parse table offset ctx = (decode .eth ctx.region offset).run table .eth offset ctx := by
  rw [Eth.parse, decode]
  refine require_need fun header hend hlen => ?_
  rw [lift_get (by rw [hlen]; decide), pushLayer_bind, run_header]
  cases EthType.ofCode (EthViewer.ethType.peek header) with
  | reserverd length =>
      simp only [EthType.next]
      split_ifs <;> rfl
  | _ => rfl

/-- The parser of VLAN tags runs the verdict of `decode`. -/
theorem Vlan.parse_eq_run :
    Vlan.parse table offset ctx = (decode .vlan ctx.region offset).run table .vlan offset ctx := by
  rw [Vlan.parse, decode]
  refine require_need fun header hend hlen => ?_
  rw [lift_get (by rw [hlen]; decide), pushLayer_bind, run_header]
  cases EthType.ofCode (VlanViewer.ethType.peek header) with
  | reserverd length =>
      simp only [EthType.next]
      split_ifs <;> rfl
  | _ => rfl

/-- The parser of LLC runs the verdict of `decode`. -/
theorem Llc.parse_eq_run :
    Llc.parse table offset ctx = (decode .llc ctx.region offset).run table .llc offset ctx := by
  rw [Llc.parse, decode]
  refine require_need fun header hend hlen => ?_
  rw [lift_get (by rw [hlen]; decide), lift_get (by rw [hlen]; decide),
    lift_get (by rw [hlen]; decide)]
  by_cases hsnap : Llc.IsSnap header
  · obtain ⟨hcontrol, hdsap, hssap⟩ := hsnap
    rw [if_pos (show Llc.IsSnap header from ⟨hcontrol, hdsap, hssap⟩)]
    simp only [hcontrol, hdsap, hssap, if_true, and_self, decide_true]
    refine require_need fun header hend hlen => ?_
    rw [pushLayer_bind, lift_get (by rw [hlen]; decide), run_header]
    cases EthType.ofCode (LlcViewer.protocolId.peek header) <;> rfl
  · rw [if_neg hsnap, if_neg]
    · rfl
    · rintro ⟨hcontrol, haps⟩
      refine hsnap ⟨?_, of_decide_eq_true haps⟩
      by_contra hne
      rw [if_neg hne] at hcontrol
      omega

/-- The parser of SLL runs the verdict of `decode`. -/
theorem Sll.parse_eq_run :
    Sll.parse table offset ctx = (decode .sll ctx.region offset).run table .sll offset ctx := by
  rw [Sll.parse, decode]
  refine require_need fun header hend hlen => ?_
  rw [lift_get (by rw [hlen]; decide), lift_get (by rw [hlen]; decide), pushLayer_bind, run_header]
  split_ifs with harphrd
  · cases EthType.ofCode (SllViewer.protocolType.peek header) <;> rfl
  · rfl

/-- A label stack ends at least one entry behind its start, inside the region. -/
theorem Region.labelStack_bounds {r : Region} {fuel last : ℕ}
    (h : r.labelStack (fuel + 1) offset = .ok last) : offset + 4 ≤ last ∧ last ≤ r.stop := by
  induction fuel generalizing offset with
  | zero =>
      rw [Region.labelStack] at h
      split_ifs at h with h₁ h₂
      · cases h
        exact ⟨le_rfl, h₁⟩
      · cases h
        exact ⟨le_rfl, h₁⟩
  | succ fuel ih =>
      rw [Region.labelStack] at h
      split_ifs at h with h₁ h₂
      · cases h
        exact ⟨le_rfl, h₁⟩
      · obtain ⟨h₃, h₄⟩ := ih h
        exact ⟨by omega, h₄⟩

/-- The loop over the label stack ends where `labelStack` does, and its length is
what it went past. -/
theorem Mpls.labelStack_eq (ctx : ParseContext) (fuel start nextOffset : ℕ) (hstart : start ≤ nextOffset)
    (hfuel : ctx.endOffset < nextOffset + 4 * (fuel + 1)) :
    Mpls.labelStack (fuel + 1) (nextOffset - start) nextOffset ctx =
      match ctx.region.labelStack (fuel + 1) nextOffset with
      | .ok last => .ok ((last - start, last), ctx)
      | .error err => .err (err, ctx) := by
  induction fuel generalizing nextOffset with
  | zero =>
      rw [Mpls.labelStack, Region.labelStack, require_bind, MplsEntry.LEN, region_stop,
        if_neg (by omega), if_neg (by omega)]
  | succ fuel ih =>
      rw [Mpls.labelStack, Region.labelStack, require_bind, MplsEntry.LEN, region_stop, region_bytes]
      by_cases hlen : nextOffset + 4 ≤ ctx.endOffset
      · rw [if_pos hlen, if_pos hlen, lift_get (by rw [length_header hlen]; decide),
          show nextOffset - start + 4 = nextOffset + 4 - start by omega]
        by_cases hbottom : MplsEntry.bottomOfStack.peek ((ctx.bytes.drop nextOffset).take 4) = 0
        · rw [if_neg (not_not.2 hbottom), if_neg (not_not.2 hbottom)]
          exact ih (nextOffset + 4) (by omega) (by omega)
        · rw [if_pos hbottom, if_pos hbottom]
          rfl
      · rw [if_neg hlen, if_neg hlen]

/-- The parser of MPLS runs the verdict of `decode`. -/
theorem Mpls.parse_eq_run :
    Mpls.parse table offset ctx = (decode .mpls ctx.region offset).run table .mpls offset ctx := by
  have hle := endOffset_le ctx
  have hstack := Mpls.labelStack_eq ctx ctx.bytes.length offset offset le_rfl (by omega)
  rw [Nat.sub_self] at hstack
  rw [Mpls.parse, decode, Prog.bind_apply, Prog.get_apply, Outcome.ok_bind, Prog.bind_apply, hstack]
  rw [region_bytes]
  cases hlast : ctx.region.labelStack (ctx.bytes.length + 1) offset with
  | error err => rfl
  | ok last =>
      have hlen : offset + (last - offset) = last := by
        have := (Region.labelStack_bounds hlast).1
        omega
      rw [Outcome.ok_bind, run_header, hlen]
      show (pushLayer .mpls offset (last - offset) >>= fun _ => _) ctx = _
      rw [pushLayer_bind]
      cases ctx.bytes[last]? with
      | none => rfl
      | some firstPayloadByte =>
          dsimp only
          generalize firstPayloadByte.toNat >>> 4 = nibble
          by_cases h₄ : nibble = 4
          · subst h₄
            rfl
          · by_cases h₆ : nibble = 6
            · subst h₆
              rfl
            · simp only
              rfl

/-- The parser of ARP runs the verdict of `decode`. -/
theorem Arp.parse_eq_run :
    Arp.parse offset ctx = (decode .arp ctx.region offset).run table .arp offset ctx := by
  rw [Arp.parse, decode]
  refine require_need fun header hend hlen => ?_
  have hlen' : ArpViewer.headerLen header = (.ok (Arp.len header) : Outcome ParseError ℕ) := by
    rw [ArpViewer.headerLen, Field.get_eq (by rw [hlen]; decide), Outcome.ok_bind,
      Field.get_eq (by rw [hlen]; decide)]
    rfl
  rw [hlen', lift_ok_bind]
  exact require_need fun header _ _ => rfl

/-! The parsers of `Ip`. -/

/-- A length octet of a long enough header is indexed. -/
theorem index_lengthOctet {ε : Type} {header : List UInt8} (h : 2 ≤ header.length) :
    (Outcome.index header 1 : Outcome ε UInt8) = .ok (header.getD 1 0) := by
  rw [Outcome.index_eq_ok (by omega), List.getD_eq_getElem?_getD, List.getElem?_eq_getElem (by omega)]
  rfl

/-- The parser of IPv4 runs the verdict of `decode`. -/
theorem Ipv4.parse_eq_run :
    Ipv4.parse table offset ctx = (decode .ipv4 ctx.region offset).run table .ipv4 offset ctx := by
  rw [Ipv4.parse, decode]
  refine require_need fun header₀ _ hlen => ?_
  have hheader : Ipv4Viewer.headerLen header₀ =
      (.ok (Ipv4Viewer.ihl.peek header₀ * 4) : Outcome ParseError ℕ) := by
    rw [Ipv4Viewer.headerLen, Field.get_eq (by rw [hlen]; decide)]
    rfl
  rw [hheader, lift_ok_bind, Ipv4.MIN_LEN]
  by_cases hmin : Ipv4Viewer.ihl.peek header₀ * 4 < 20
  · rw [if_pos hmin, if_pos hmin]
    rfl
  · rw [if_neg hmin, if_neg hmin]
    refine require_need fun header hend hlen => ?_
    rw [pushLayer_bind, lift_get (by rw [hlen]; show 4 ≤ _; omega)]
    by_cases htotal : Ipv4Viewer.totalLength.peek header ≠ 0 ∧
        Ipv4Viewer.totalLength.peek header < Ipv4Viewer.ihl.peek header₀ * 4
    · rw [if_pos htotal, if_pos htotal]
      rfl
    · rw [if_neg htotal, if_neg htotal, run_datagram,
        lift_get (by rw [hlen]; show 8 ≤ _; omega)]
      refine congrFun (congrArg (parsePayload _) ?_) _
      by_cases hfragment : Ipv4Viewer.fragmentOffset.peek header = 0
      · rw [if_neg (not_not.2 hfragment), if_neg (not_not.2 hfragment),
          lift_get (by rw [hlen]; show 10 ≤ _; omega)]
        cases IpProtocol.ofCode (Ipv4Viewer.protocol.peek header) <;> rfl
      · rw [if_pos hfragment, if_pos hfragment]
        rfl

/-- The dispatch of IPv6 runs the protocol that comes next. -/
theorem dispatch_eq_run (nextHeader : IpProtocol) :
    dispatch table offset nextHeader = nextHeader.nextIpv6.run table offset := by
  cases nextHeader <;> rfl

/-- The parser of IPv6 runs the verdict of `decode`. -/
theorem Ipv6.parse_eq_run :
    Ipv6.parse table offset ctx = (decode .ipv6 ctx.region offset).run table .ipv6 offset ctx := by
  rw [Ipv6.parse, decode]
  refine require_need fun header hend hlen => ?_
  rw [lift_get (by rw [hlen]; decide), pushLayer_bind, lift_get (by rw [hlen]; decide),
    dispatch_eq_run]
  rfl

/-- A declared header is trusted as far as the region reaches. -/
theorem parseDeclaredHeader_eq_run (declared : ℕ) (hpos : 0 < declared)
    (hoffset : offset < ctx.endOffset) :
    parseDeclaredHeader table offset protocol declared Ipv6ExtHeaderViewer.nextHeader ctx =
      (decodeDeclared ctx.region protocol offset declared).run table protocol offset ctx := by
  rw [parseDeclaredHeader, decodeDeclared, rest_bind, length_rest]
  refine require_need fun header _ hlen => ?_
  rw [region_stop] at hlen ⊢
  rw [lift_get (by rw [hlen]; show 1 ≤ _; omega), pushLayer_bind, rest_bind, run_header,
    dispatch_eq_run]
  have hnil : (ctx.pushLayer protocol offset (min declared (ctx.endOffset - offset))).rest
      (offset + min declared (ctx.endOffset - offset)) = [] ↔
        ctx.endOffset ≤ offset + min declared (ctx.endOffset - offset) := by
    rw [← List.length_eq_zero_iff, length_rest, pushLayer_region, region_stop]
    omega
  by_cases hend : ctx.endOffset ≤ offset + min declared (ctx.endOffset - offset)
  · rw [if_pos (hnil.2 hend), if_pos hend]
    rfl
  · rw [if_neg (mt hnil.1 hend), if_neg hend]

/-- The parser of an extension header runs its verdict. -/
theorem parseExtHeader_eq_run (fixedLen : ℕ) :
    parseExtHeader table offset protocol fixedLen ctx =
      (decodeExtHeader ctx.region protocol fixedLen offset).run table protocol offset ctx := by
  rw [parseExtHeader, decodeExtHeader]
  refine require_need fun header hend hlen => ?_
  rw [ExtHeader.MIN_LEN] at hend hlen
  have hdeclared : Ipv6ExtHeaderViewer.headerLen header =
      (.ok ((lengthOctet header + 1) * 8) : Outcome ParseError ℕ) := by
    rw [Ipv6ExtHeaderViewer.headerLen, index_lengthOctet (by omega)]
    rfl
  rw [hdeclared, lift_ok_bind]
  split_ifs with hfixed
  · rfl
  · exact parseDeclaredHeader_eq_run _ (by omega) (by omega)

/-- The parser of AH runs the verdict of `decode`. -/
theorem Ah.parse_eq_run :
    Ah.parse table offset ctx = (decode .ah ctx.region offset).run table .ah offset ctx := by
  rw [Ah.parse, decode]
  refine require_need fun header hend hlen => ?_
  rw [Ah.MIN_LEN] at hend hlen ⊢
  have hdeclared : AhViewer.headerLen header =
      (.ok ((lengthOctet header + 2) * 4) : Outcome ParseError ℕ) := by
    rw [AhViewer.headerLen, index_lengthOctet (by omega)]
    rfl
  rw [hdeclared, lift_ok_bind]
  split_ifs with hfixed
  · rfl
  · exact parseDeclaredHeader_eq_run _ (by omega) (by omega)

/-- The parser of the fragment header runs the verdict of `decode`. -/
theorem Ipv6Frag.parse_eq_run : Ipv6Frag.parse table offset ctx =
    (decode .ipv6Frag ctx.region offset).run table .ipv6Frag offset ctx := by
  rw [Ipv6Frag.parse, decode]
  refine require_need fun header _ hlen => ?_
  rw [lift_get (by rw [hlen]; decide), pushLayer_bind, lift_get (by rw [hlen]; decide),
    dispatch_eq_run, run_header]
  split_ifs <;> rfl

/-- The parser of ESP runs the verdict of `decode`. -/
theorem Esp.parse_eq_run :
    Esp.parse offset ctx = (decode .esp ctx.region offset).run table .esp offset ctx := by
  rw [Esp.parse, decode]
  exact require_need fun header _ _ => rfl

/-- A GRE header has its fixed part. -/
theorem GreViewer.le_lenOfFlags (flags : ℕ) : 4 ≤ GreViewer.lenOfFlags flags := by
  rw [GreViewer.lenOfFlags, Gre.MIN_LEN]
  omega

/-- The parser of GRE runs the verdict of `decode`. -/
theorem Gre.parse_eq_run :
    Gre.parse table offset ctx = (decode .gre ctx.region offset).run table .gre offset ctx := by
  rw [Gre.parse, decode]
  refine require_need fun header₀ _ hlen => ?_
  have hheader : GreViewer.headerLen header₀ =
      (.ok (GreViewer.lenOfFlags (GreViewer.flags.peek header₀)) : Outcome ParseError ℕ) := by
    rw [GreViewer.headerLen, Field.get_eq (by rw [hlen]; decide)]
    rfl
  rw [hheader, lift_ok_bind]
  refine require_need fun header _ hlen => ?_
  have hmin := GreViewer.le_lenOfFlags (GreViewer.flags.peek header₀)
  rw [lift_get (by rw [hlen]; exact hmin), pushLayer_bind, run_header]
  cases EthType.ofCode (GreViewer.protocolType.peek header) <;> rfl

/-! The parsers of `Transport`. -/

/-- A parser up to the end runs its verdict. -/
theorem parseToEnd_eq_run (minLen : ℕ) : parseToEnd protocol minLen offset ctx =
    (decodeToEnd ctx.region protocol minLen offset).run table protocol offset ctx := by
  rw [parseToEnd, decodeToEnd]
  refine require_need fun header _ _ => ?_
  rw [rest_bind, length_rest]
  rfl

/-- The parser of TLS runs the verdict of `decode`. -/
theorem Tls.parse_eq_run :
    Tls.parse offset ctx = (decode .tls ctx.region offset).run table .tls offset ctx := by
  rw [Tls.parse, decode]
  refine require_need fun header _ hlen => ?_
  rw [lift_get (by rw [hlen]; decide)]
  exact require_need fun header _ _ => rfl

/-- The parser of TCP runs the verdict of `decode`. -/
theorem Tcp.parse_eq_run :
    Tcp.parse table offset ctx = (decode .tcp ctx.region offset).run table .tcp offset ctx := by
  rw [Tcp.parse, decode]
  refine require_need fun header₀ _ hlen => ?_
  have hheader : TcpViewer.headerLen header₀ =
      (.ok (TcpViewer.dataOffset.peek header₀ * 4) : Outcome ParseError ℕ) := by
    rw [TcpViewer.headerLen, Field.get_eq (by rw [hlen]; decide)]
    rfl
  rw [hheader, lift_ok_bind, Tcp.MIN_LEN]
  by_cases hmin : TcpViewer.dataOffset.peek header₀ * 4 < 20
  · rw [if_pos hmin, if_pos hmin]
    rfl
  · rw [if_neg hmin, if_neg hmin]
    refine require_need fun header _ hlen => ?_
    have hrest : (ctx.pushLayer .tcp offset (TcpViewer.dataOffset.peek header₀ * 4)).rest
        (offset + TcpViewer.dataOffset.peek header₀ * 4) =
          (ctx.region.bytes.take ctx.region.stop).drop
            (offset + TcpViewer.dataOffset.peek header₀ * 4) := by
      rw [rest_eq, ← region_stop, ← region_bytes, pushLayer_region]
    rw [pushLayer_bind, lift_get (by rw [hlen]; show 2 ≤ _; omega),
      lift_get (by rw [hlen]; show 4 ≤ _; omega), rest_bind, hrest, run_header]
    split_ifs <;> rfl

/-- The parser of UDP runs the verdict of `decode`. -/
theorem Udp.parse_eq_run :
    Udp.parse table offset ctx = (decode .udp ctx.region offset).run table .udp offset ctx := by
  rw [Udp.parse, decode]
  refine require_need fun header _ hlen => ?_
  rw [pushLayer_bind, lift_get (by rw [hlen]; decide), lift_get (by rw [hlen]; decide), run_header]
  cases Udp.service (UdpViewer.srcPort.peek header) (UdpViewer.dstPort.peek header) <;> rfl

/-- The parser of IGMP runs the verdict of `decode`. -/
theorem Igmp.parse_eq_run :
    Igmp.parse offset ctx = (decode .igmp ctx.region offset).run table .igmp offset ctx := by
  rw [Igmp.parse, decode]
  exact require_need fun header _ _ => rfl

/-- The parser of VXLAN runs the verdict of `decode`. -/
theorem Vxlan.parse_eq_run : Vxlan.parse table offset ctx =
    (decode .vxlan ctx.region offset).run table .vxlan offset ctx := by
  rw [Vxlan.parse, decode]
  exact require_need fun header _ _ => rfl

/-- **Every parser does what its verdict says.** -/
theorem parse_eq_run (p : Protocol) (table : ParseTable) (offset : ℕ) (ctx : ParseContext) :
    p.parse table offset ctx = (decode p ctx.region offset).run table p offset ctx := by
  cases p with
  | eth => exact Eth.parse_eq_run
  | vlan => exact Vlan.parse_eq_run
  | llc => exact Llc.parse_eq_run
  | sll => exact Sll.parse_eq_run
  | mpls => exact Mpls.parse_eq_run
  | arp => exact Arp.parse_eq_run
  | ipv4 => exact Ipv4.parse_eq_run
  | ipv6 => exact Ipv6.parse_eq_run
  | ipv6Hopopt => exact parseExtHeader_eq_run _
  | ipv6DestOpts => exact parseExtHeader_eq_run _
  | ipv6Route => exact parseExtHeader_eq_run _
  | ipv6Frag => exact Ipv6Frag.parse_eq_run
  | ah => exact Ah.parse_eq_run
  | ipv6Mobility => exact parseExtHeader_eq_run _
  | ipv6Hip => exact parseExtHeader_eq_run _
  | ipv6Shim6 => exact parseExtHeader_eq_run _
  | esp => exact Esp.parse_eq_run
  | gre => exact Gre.parse_eq_run
  | tcp => exact Tcp.parse_eq_run
  | udp => exact Udp.parse_eq_run
  | sctp => exact parseToEnd_eq_run _
  | icmp => exact parseToEnd_eq_run _
  | icmpv6 => exact parseToEnd_eq_run _
  | igmp => exact Igmp.parse_eq_run
  | dns => exact parseToEnd_eq_run _
  | dhcp => exact parseToEnd_eq_run _
  | ntp => exact parseToEnd_eq_run _
  | vxlan => exact Vxlan.parse_eq_run
  | tls => exact Tls.parse_eq_run
  | raw => rfl

end Run

/-! ### Verdicts keep to their region -/

/-- A recorded header is non-empty and inside the region, and a declared payload
starts no earlier than behind it. -/
def Verdict.Sound (r : Region) (offset : ℕ) : Verdict → Prop
  | fail _ => True
  | skip => True
  | unparsed => True
  | reject len _ => 0 < len ∧ offset + len ≤ r.stop
  | header len _ => 0 < len ∧ offset + len ≤ r.stop
  | datagram len payloadEnd _ =>
    0 < len ∧ offset + len ≤ r.stop ∧ ∀ e ∈ payloadEnd, offset + len ≤ e

section Sound

variable {r : Region} {protocol : Protocol} {offset len : ℕ}

/-- A verdict behind a length check is sound when it is sound for a header of this
length. -/
theorem Region.need_sound {k : List UInt8 → Verdict}
    (h : ∀ header, offset + len ≤ r.stop → (k header).Sound r offset) :
    (r.need protocol offset len k).Sound r offset := by
  unfold Region.need
  split_ifs with hlen
  · exact h _ hlen
  · trivial

/-- A header of a required length is recorded with that length. -/
theorem Region.need_header_sound {next : List UInt8 → Next} (hpos : 0 < len) :
    (r.need protocol offset len fun header => .header len (next header)).Sound r offset :=
  Region.need_sound fun _ hlen => show 0 < len ∧ _ from ⟨hpos, hlen⟩

/-- A header of a declared length lies inside the region. -/
theorem decodeDeclared_sound {declared : ℕ} (hpos : 0 < declared) (hoffset : offset < r.stop) :
    (decodeDeclared r protocol offset declared).Sound r offset := by
  rw [decodeDeclared]
  exact Region.need_header_sound (by omega)

/-- An extension header lies inside the region. -/
theorem decodeExtHeader_sound (fixedLen : ℕ) :
    (decodeExtHeader r protocol fixedLen offset).Sound r offset := by
  refine Region.need_sound fun header hlen => ?_
  split_ifs
  · trivial
  · exact decodeDeclared_sound (by omega) (by omega)

/-- A header up to the end lies inside the region. -/
theorem decodeToEnd_sound {minLen : ℕ} (hpos : 0 < minLen) :
    (decodeToEnd r protocol minLen offset).Sound r offset :=
  Region.need_sound fun _ hlen => show 0 < r.stop - offset ∧ _ from ⟨by omega, by omega⟩

/-- Whatever `decode` records lies inside the region and is not empty. -/
theorem decode_sound (p : Protocol) (r : Region) (offset : ℕ) :
    (decode p r offset).Sound r offset := by
  cases p with
  | eth => rw [decode]; exact Region.need_header_sound (by omega)
  | vlan => rw [decode]; exact Region.need_header_sound (by omega)
  | llc =>
      rw [decode]
      refine Region.need_sound fun _ _ => ?_
      split_ifs
      · exact Region.need_header_sound (by omega)
      · trivial
  | sll => rw [decode]; exact Region.need_header_sound (by omega)
  | mpls =>
      rw [decode]
      cases hlast : r.labelStack (r.bytes.length + 1) offset with
      | error err => trivial
      | ok last =>
          obtain ⟨h₁, h₂⟩ := Region.labelStack_bounds hlast
          exact show 0 < last - offset ∧ _ from ⟨by omega, by omega⟩
  | arp =>
      rw [decode]
      refine Region.need_sound fun header _ => Region.need_header_sound ?_
      rw [Arp.len]
      omega
  | ipv4 =>
      rw [decode]
      refine Region.need_sound fun header₀ _ => ?_
      dsimp only
      split_ifs with hmin
      · trivial
      · refine Region.need_sound fun header h => ?_
        by_cases htotal : Ipv4Viewer.totalLength.peek header ≠ 0 ∧
            Ipv4Viewer.totalLength.peek header < Ipv4Viewer.ihl.peek header₀ * 4
        · rw [if_pos htotal]
          exact show 0 < Ipv4Viewer.ihl.peek header₀ * 4 ∧ _ from ⟨by omega, h⟩
        · rw [if_neg htotal]
          refine show 0 < Ipv4Viewer.ihl.peek header₀ * 4 ∧ _ ∧ _ from
            ⟨by omega, h, fun e he => ?_⟩
          obtain ⟨hzero, he⟩ := Option.ite_none_right_eq_some.1 he
          obtain rfl := Option.some.inj he
          omega
  | ipv6 =>
      rw [decode]
      refine Region.need_sound fun header h => ?_
      refine show 0 < 40 ∧ _ ∧ _ from ⟨by omega, h, fun e he => ?_⟩
      obtain rfl := Option.some.inj (Option.ite_none_right_eq_some.1 he).2
      omega
  | ipv6Hopopt => exact decodeExtHeader_sound _
  | ipv6DestOpts => exact decodeExtHeader_sound _
  | ipv6Route => exact decodeExtHeader_sound _
  | ipv6Frag => rw [decode]; exact Region.need_header_sound (by omega)
  | ah =>
      rw [decode]
      refine Region.need_sound fun header h => ?_
      split_ifs
      · trivial
      · exact decodeDeclared_sound (by omega) (by omega)
  | ipv6Mobility => exact decodeExtHeader_sound _
  | ipv6Hip => exact decodeExtHeader_sound _
  | ipv6Shim6 => exact decodeExtHeader_sound _
  | esp => rw [decode]; exact Region.need_header_sound (by omega)
  | gre =>
      rw [decode]
      refine Region.need_sound fun header _ => Region.need_header_sound ?_
      have := GreViewer.le_lenOfFlags (GreViewer.flags.peek header)
      omega
  | tcp =>
      rw [decode]
      refine Region.need_sound fun header₀ _ => ?_
      dsimp only
      split_ifs with hmin
      · trivial
      · exact Region.need_header_sound (by omega)
  | udp => rw [decode]; exact Region.need_header_sound (by omega)
  | sctp => exact decodeToEnd_sound (by omega)
  | icmp => exact decodeToEnd_sound (by omega)
  | icmpv6 => exact decodeToEnd_sound (by omega)
  | igmp => rw [decode]; exact Region.need_header_sound (by omega)
  | dns => exact decodeToEnd_sound (by omega)
  | dhcp => exact decodeToEnd_sound (by omega)
  | ntp => exact decodeToEnd_sound (by omega)
  | vxlan => rw [decode]; exact Region.need_header_sound (by omega)
  | tls =>
      rw [decode]
      exact Region.need_sound fun header _ => Region.need_header_sound (by omega)
  | raw => trivial

end Sound

end Packet
end Maja
