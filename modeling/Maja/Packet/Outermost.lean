/-
# The outermost IP header

The layers of a parsed packet are one chain of calls, and the calls up to the first
IP header are parsers of the link (`outer_of_step`).  So the first IP header of the
table is the outermost one (`Parsed.outermost`), and the layers behind it are those of
the child that it was parsed for.
-/

import Maja.Packet.Access
import Maja.Packet.LayerTable
import Maja.Packet.Path

namespace Maja
namespace Packet

open Lib

/-- An IP header. -/
def isIp (l : Layer) : Bool := l.protocol = .ipv4 ∨ l.protocol = .ipv6

/-- The outermost IP header. -/
def outerIp (layers : List Layer) : Option Layer := layers.find? isIp

/-- The layers behind the outermost IP header. -/
def behindIp (layers : List Layer) : List Layer := (layers.dropWhile fun l => !isIp l).tail

/-- The protocols that come before the outermost IP header. -/
def IsLink (p : Protocol) : Prop :=
  p = .eth ∨ p = .vlan ∨ p = .llc ∨ p = .sll ∨ p = .mpls ∨ p = .arp

/-- The protocols of the calls up to the outermost IP header. -/
def IsOuter (p : Protocol) : Prop := IsLink p ∨ p = .ipv4 ∨ p = .ipv6

/-- What the verdict goes on to behind a header. -/
def Verdict.next : Verdict → Option Next
  | header _ next => some next
  | datagram _ _ next => some next
  | _ => none

section Steps

variable {options : ParseOptions} {c d : Call} {r : Region} {offset len : ℕ}

/-- A call leads to the child that its verdict names, in its region or, below a
datagram, in a narrower one. -/
theorem step_child (h : Call.Step options c d) :
    c.verdict.next = some (.child d.protocol) ∧
      ∃ len, c.verdict.headerLen = some len ∧ d.offset = c.offset + len ∧
        (c.verdict = .header len (.child d.protocol) ∧ d.region = c.region ∨
          ∃ payloadEnd, c.verdict = .datagram len payloadEnd (.child d.protocol) ∧
            d.region = c.region.narrow payloadEnd) := by
  cases h with
  | @header len child hverdict =>
      exact ⟨by rw [hverdict, Verdict.next], len, by rw [hverdict, Verdict.headerLen], rfl,
        .inl ⟨hverdict, rfl⟩⟩
  | @datagram len payloadEnd child hverdict =>
      exact ⟨by rw [hverdict, Verdict.next], len, by rw [hverdict, Verdict.headerLen], rfl,
        .inr ⟨payloadEnd, hverdict, rfl⟩⟩

/-- A step stays with the captured bytes. -/
theorem step_bytes (h : Call.Step options c d) : d.region.bytes = c.region.bytes := by
  obtain ⟨-, -, -, -, ⟨-, hregion⟩ | ⟨payloadEnd, -, hregion⟩⟩ := step_child h
  · rw [hregion]
  · rw [hregion]
    cases payloadEnd <;> rfl

/-- A header behind a length check passed it. -/
theorem need_next_eq_some {p : Protocol} {k : List UInt8 → Verdict} {next : Next}
    (h : (r.need p offset len k).next = some next) :
    offset + len ≤ r.stop ∧ (k ((r.bytes.drop offset).take len)).next = some next := by
  unfold Region.need at h
  split_ifs at h with hlen
  · exact ⟨hlen, h⟩
  · cases h

/-- Behind an Ethernet header comes a link layer or IP. -/
theorem EthType.next_outer {tagged : Bool} {ethType : EthType} {p : Protocol}
    (h : ethType.next tagged = .child p) : IsOuter p := by
  unfold IsOuter IsLink
  cases ethType <;> cases tagged <;> simp [EthType.next] at h <;> (try split_ifs at h) <;>
    simp_all

/-- Behind a typed header comes a link layer or IP. -/
theorem EthType.nextTyped_outer {ethType : EthType} {p : Protocol}
    (h : ethType.nextTyped = .child p) : IsOuter p := by
  unfold IsOuter IsLink
  cases ethType <;> simp [EthType.nextTyped] at h <;> simp_all

/-- **The link leads to the link, or to IP.** -/
theorem outer_of_step (hc : IsLink c.protocol) (h : Call.Step options c d) :
    IsOuter d.protocol := by
  obtain ⟨hnext, -⟩ := step_child h
  generalize d.protocol = q at hnext ⊢
  obtain ⟨p, depth, r, offset⟩ := c
  change (decode p r offset).next = _ at hnext
  obtain rfl | rfl | rfl | rfl | rfl | rfl := hc <;> rw [decode] at hnext
  · exact EthType.next_outer (Option.some.inj (need_next_eq_some hnext).2)
  · exact EthType.next_outer (Option.some.inj (need_next_eq_some hnext).2)
  · obtain ⟨-, hnext⟩ := need_next_eq_some hnext
    split_ifs at hnext
    · exact EthType.nextTyped_outer (Option.some.inj (need_next_eq_some hnext).2)
    · cases hnext
  · have hnext := Option.some.inj (need_next_eq_some hnext).2
    split_ifs at hnext
    exact EthType.nextTyped_outer hnext
  · cases hlast : r.labelStack (r.bytes.length + 1) offset with
    | error err =>
        rw [hlast] at hnext
        cases hnext
    | ok last =>
        rw [hlast] at hnext
        have hnext := Option.some.inj hnext
        cases hbyte : r.bytes[last]? with
        | none =>
            rw [hbyte] at hnext
            cases hnext
        | some b =>
            rw [hbyte] at hnext
            dsimp only at hnext
            split at hnext <;> cases hnext
            · exact .inr (.inl rfl)
            · exact .inr (.inr rfl)
  · have hnext := Option.some.inj (need_next_eq_some (need_next_eq_some hnext).2).2
    cases hnext

/-- The layers behind the header of a call: raw ones, or those of its child. -/
def Call.Behind (options : ParseOptions) (c : Call) (layers : List Layer) : Prop :=
  AllRaw layers ∨ ∃ d, Call.Step options c d ∧ d.Path options layers

/-- The layers of a call are raw, or its header comes first. -/
theorem Call.Path.head {layers : List Layer} (h : c.Path options layers) :
    AllRaw layers ∨ ∃ len rest, layers = ⟨c.protocol, c.offset, len⟩ :: rest ∧
      c.verdict.headerLen = some len := by
  cases h with
  | raws hlayers => exact .inl hlayers
  | last hlen _ => exact .inr ⟨_, _, rfl, hlen⟩
  | cons hlen _ _ => exact .inr ⟨_, _, rfl, hlen⟩

/-- A layer of the call's own protocol is found first, and in its region. -/
theorem Call.Path.find {layers : List Layer} {l : Layer} (h : c.Path options layers)
    (hraw : c.protocol ≠ .raw) (hfind : layers.find? (fun l => l.protocol = c.protocol) = some l) :
    layers.head? = some l ∧ l.offset = c.offset ∧ l.offset + l.len ≤ c.region.stop := by
  obtain hlayers | ⟨len, rest, rfl, hlen⟩ := h.head
  · have hl := hlayers l (List.mem_of_find?_eq_some hfind)
    have hprotocol : l.protocol = c.protocol := by simpa using List.find?_some hfind
    exact absurd (hprotocol.symm.trans hl) hraw
  · rw [List.find?_cons_of_pos (by simp)] at hfind
    obtain rfl := Option.some.inj hfind
    exact ⟨rfl, rfl, (headerLen_sound hlen).2⟩

/-- The path from a call goes through the link, up to an outermost IP header. -/
theorem Call.Path.outermost {layers : List Layer} (h : c.Path options layers)
    (hc : IsOuter c.protocol) :
    (∀ l ∈ layers, isIp l = false) ∨
      ∃ (before after : List Layer) (ip : Call) (len : ℕ),
        layers = before ++ ⟨ip.protocol, ip.offset, len⟩ :: after ∧
        (∀ l ∈ before, IsLink l.protocol) ∧ (ip.protocol = .ipv4 ∨ ip.protocol = .ipv6) ∧
        ip.region.bytes = c.region.bytes ∧ ip.verdict.headerLen = some len ∧
        ip.Behind options after := by
  have hraw : ∀ layers : List Layer, AllRaw layers → ∀ l ∈ layers, isIp l = false :=
    fun layers h l hl => by simp [isIp, h l hl]
  have hlink : ∀ {p : Protocol} {offset len : ℕ}, IsLink p → isIp ⟨p, offset, len⟩ = false := by
    rintro p offset len (rfl | rfl | rfl | rfl | rfl | rfl) <;> rfl
  induction h with
  | raws hlayers => exact .inl (hraw _ hlayers)
  | @last c len layers hlen hlayers =>
      obtain hc | hc := hc
      · left
        rintro l (_ | ⟨_, hl⟩)
        · exact hlink hc
        · exact hraw _ hlayers l hl
      · exact .inr ⟨[], layers, c, len, rfl, List.forall_mem_nil _, hc, rfl, hlen, .inl hlayers⟩
  | @cons c d len layers hlen hstep hpath ih =>
      obtain hc | hc := hc
      · obtain h | ⟨before, after, ip, n, rfl, hbefore, hip, hbytes, hn, hbehind⟩ :=
          ih (outer_of_step hc hstep)
        · left
          rintro l (_ | ⟨_, hl⟩)
          · exact hlink hc
          · exact h l hl
        · refine .inr ⟨⟨c.protocol, c.offset, len⟩ :: before, after, ip, n, rfl, ?_, hip,
            hbytes.trans (step_bytes hstep), hn, hbehind⟩
          rintro l (_ | ⟨_, hl⟩)
          · exact hc
          · exact hbefore l hl
      · exact .inr ⟨[], layers, c, len, rfl, List.forall_mem_nil _, hc, rfl, hlen,
          .inr ⟨d, hstep, hpath⟩⟩

/-- The captured bytes of a header. -/
def Call.header (c : Call) (len : ℕ) : List UInt8 := (c.region.bytes.drop c.offset).take len

/-- A verdict other than a failure is that on the required bytes. -/
theorem need_eq {p : Protocol} {k : List UInt8 → Verdict} {v : Verdict}
    (h : r.need p offset len k = v) (hv : ∀ err, v ≠ .fail err) :
    offset + len ≤ r.stop ∧ k ((r.bytes.drop offset).take len) = v := by
  unfold Region.need at h
  split_ifs at h with hlen
  · exact ⟨hlen, h⟩
  · exact absurd h.symm (hv _)

/-- An IPv4 header goes on in its declared payload only. -/
theorem decode_ipv4_ne_header {next : Next} : decode .ipv4 r offset ≠ .header len next := by
  intro h
  rw [decode] at h
  have h := (need_eq h (fun _ => Verdict.noConfusion)).2
  dsimp only at h
  split_ifs at h with hmin
  have h := (need_eq h (fun _ => Verdict.noConfusion)).2
  split_ifs at h

/-- An IPv4 header that is accepted has its fixed part, and ends its payload where it
declares. -/
theorem decode_ipv4_eq_datagram {payloadEnd : Option ℕ} {next : Next}
    (h : decode .ipv4 r offset = .datagram len payloadEnd next) :
    20 ≤ len ∧
      payloadEnd = (if Ipv4Viewer.totalLength.peek ((r.bytes.drop offset).take len) ≠ 0 then
        some (offset + Ipv4Viewer.totalLength.peek ((r.bytes.drop offset).take len)) else none) ∧
      next = if Ipv4Viewer.fragmentOffset.peek ((r.bytes.drop offset).take len) ≠ 0 then .raw
        else (IpProtocol.ofCode
          (Ipv4Viewer.protocol.peek ((r.bytes.drop offset).take len))).nextIpv4 := by
  rw [decode] at h
  have h := (need_eq h (fun _ => Verdict.noConfusion)).2
  dsimp only at h
  split_ifs at h with hmin
  have h := (need_eq h (fun _ => Verdict.noConfusion)).2
  by_cases htotal : Ipv4Viewer.totalLength.peek ((r.bytes.drop offset).take
      (Ipv4Viewer.ihl.peek ((r.bytes.drop offset).take 20) * 4)) ≠ 0 ∧
    Ipv4Viewer.totalLength.peek ((r.bytes.drop offset).take
      (Ipv4Viewer.ihl.peek ((r.bytes.drop offset).take 20) * 4)) <
        Ipv4Viewer.ihl.peek ((r.bytes.drop offset).take 20) * 4
  · rw [if_pos htotal] at h
    cases h
  · rw [if_neg htotal] at h
    obtain ⟨rfl, rfl, rfl⟩ := Verdict.datagram.inj h
    exact ⟨by omega, rfl, rfl⟩

/-- Below IPv4 the header's protocol is parsed, up to the declared total length. -/
theorem ipv4_step (hc : c.protocol = .ipv4) (h : Call.Step options c d)
    (hlen : c.verdict.headerLen = some len) :
    20 ≤ len ∧ d.offset = c.offset + len ∧
      (IpProtocol.ofCode (Ipv4Viewer.protocol.peek (c.header len))).nextIpv4 = .child d.protocol ∧
      d.region = c.region.narrow (if Ipv4Viewer.totalLength.peek (c.header len) ≠ 0 then
        some (c.offset + Ipv4Viewer.totalLength.peek (c.header len)) else none) := by
  obtain ⟨-, len', hlen', hoffset, hverdict⟩ := step_child h
  obtain rfl := Option.some.inj (hlen.symm.trans hlen')
  obtain ⟨p, depth, r, offset⟩ := c
  obtain rfl : p = .ipv4 := hc
  obtain ⟨hverdict, -⟩ | ⟨payloadEnd, hverdict, hregion⟩ := hverdict
  · exact absurd hverdict decode_ipv4_ne_header
  · obtain ⟨hmin, rfl, hnext⟩ := decode_ipv4_eq_datagram hverdict
    refine ⟨hmin, hoffset, ?_, hregion⟩
    split_ifs at hnext
    exact hnext.symm

/-- Below IPv6 the next header is parsed, up to the declared payload length. -/
theorem ipv6_step (hc : c.protocol = .ipv6) (h : Call.Step options c d)
    (hlen : c.verdict.headerLen = some len) :
    len = 40 ∧ d.offset = c.offset + 40 ∧
      (IpProtocol.ofCode (Ipv6Viewer.nextHeader.peek (c.header 40))).nextIpv6 = .child d.protocol ∧
      d.region = c.region.narrow (if Ipv6Viewer.payloadLength.peek (c.header 40) ≠ 0 then
        some (c.offset + 40 + Ipv6Viewer.payloadLength.peek (c.header 40)) else none) := by
  obtain ⟨-, len', hlen', hoffset, hverdict⟩ := step_child h
  obtain rfl := Option.some.inj (hlen.symm.trans hlen')
  obtain ⟨p, depth, r, offset⟩ := c
  obtain rfl : p = .ipv6 := hc
  obtain ⟨hverdict, -⟩ | ⟨payloadEnd, hverdict, hregion⟩ := hverdict
  · rw [Call.verdict, decode] at hverdict
    have hverdict := (need_eq hverdict (fun _ => Verdict.noConfusion)).2
    cases hverdict
  · rw [Call.verdict, decode] at hverdict
    have hverdict := (need_eq hverdict (fun _ => Verdict.noConfusion)).2
    obtain ⟨rfl, rfl, hnext⟩ := Verdict.datagram.inj hverdict
    exact ⟨rfl, hoffset, hnext, hregion⟩

/-- A header that takes what its declared length and the region allow goes on to its
next header. -/
theorem decodeDeclared_child {p q : Protocol} {declared : ℕ} {v : Verdict}
    (h : decodeDeclared r p offset declared = v) (hnext : v.next = some (.child q)) :
    ∃ len, v = .header len (.child q) ∧
      (IpProtocol.ofCode (Ipv6ExtHeaderViewer.nextHeader.peek
        ((r.bytes.drop offset).take len))).nextIpv6 = .child q := by
  have hv : ∀ err, v ≠ .fail err := by
    rintro err rfl
    cases hnext
  rw [decodeDeclared] at h
  obtain ⟨-, rfl⟩ := need_eq h hv
  have hnext := Option.some.inj hnext
  refine ⟨_, congrArg _ hnext, ?_⟩
  split_ifs at hnext
  exact hnext

/-- The extension headers of IPv6. -/
def IsExtension (p : Protocol) : Prop :=
  p = .ipv6Hopopt ∨ p = .ipv6DestOpts ∨ p = .ipv6Route ∨ p = .ipv6Frag ∨ p = .ah ∨
    p = .ipv6Mobility ∨ p = .ipv6Hip ∨ p = .ipv6Shim6

/-- The child of an extension header is the one that its first byte names. -/
theorem decodeExtHeader_child {p q : Protocol} {fixedLen : ℕ} {v : Verdict}
    (h : decodeExtHeader r p fixedLen offset = v) (hnext : v.next = some (.child q)) :
    ∃ len, v = .header len (.child q) ∧
      (IpProtocol.ofCode (Ipv6ExtHeaderViewer.nextHeader.peek
        ((r.bytes.drop offset).take len))).nextIpv6 = .child q := by
  have hv : ∀ err, v ≠ .fail err := by
    rintro err rfl
    cases hnext
  rw [decodeExtHeader] at h
  have h := (need_eq h hv).2
  split_ifs at h with hfixed
  · exact absurd h.symm (hv _)
  · exact decodeDeclared_child h hnext

/-- **An extension header goes on to its next header, in its region.** -/
theorem extension_step (hc : IsExtension c.protocol) (h : Call.Step options c d)
    (hlen : c.verdict.headerLen = some len) :
    d.offset = c.offset + len ∧ d.region = c.region ∧
      (IpProtocol.ofCode (Ipv6ExtHeaderViewer.nextHeader.peek (c.header len))).nextIpv6 =
        .child d.protocol := by
  obtain ⟨hnext, len', hlen', hoffset, hverdict⟩ := step_child h
  obtain rfl := Option.some.inj (hlen.symm.trans hlen')
  have hheader : ∃ n, c.verdict = .header n (.child d.protocol) ∧
      (IpProtocol.ofCode (Ipv6ExtHeaderViewer.nextHeader.peek (c.header n))).nextIpv6 =
        .child d.protocol := by
    obtain ⟨p, depth, r, offset⟩ := c
    generalize d.protocol = q at hnext ⊢
    change (decode p r offset).next = _ at hnext
    change ∃ n, decode p r offset = _ ∧ _
    obtain rfl | rfl | rfl | rfl | rfl | rfl | rfl | rfl := hc
    · exact decodeExtHeader_child rfl hnext
    · exact decodeExtHeader_child rfl hnext
    · exact decodeExtHeader_child rfl hnext
    · rw [decode] at hnext ⊢
      obtain ⟨hlen, hnext⟩ := need_next_eq_some hnext
      have hnext := Option.some.inj hnext
      refine ⟨8, ?_, ?_⟩
      · rw [Region.need, if_pos hlen, hnext]
      · split_ifs at hnext
        exact hnext
    · rw [decode] at hnext ⊢
      obtain ⟨hlen, hnext⟩ := need_next_eq_some hnext
      rw [Region.need, if_pos hlen]
      split_ifs at hnext ⊢ with hfixed
      · cases hnext
      · exact decodeDeclared_child rfl hnext
    · exact decodeExtHeader_child rfl hnext
    · exact decodeExtHeader_child rfl hnext
    · exact decodeExtHeader_child rfl hnext
  obtain ⟨n, hn, hcode⟩ := hheader
  have hregion : d.region = c.region := by
    obtain ⟨-, hregion⟩ | ⟨payloadEnd, hverdict, -⟩ := hverdict
    · exact hregion
    · rw [hn] at hverdict
      cases hverdict
  rw [hn] at hlen
  obtain rfl := Option.some.inj hlen
  exact ⟨hoffset, hregion, hcode⟩

end Steps

/-! ### Parsed packets -/

/-- The outermost IP header of a parsed packet, as it was parsed. -/
structure Outermost (packet : Maja.Packet) (options : ParseOptions) where
  before : List Layer
  after : List Layer
  call : Call
  len : ℕ
  layers_eq : packet.layers = before ++ ⟨call.protocol, call.offset, len⟩ :: after
  before_link : ∀ l ∈ before, IsLink l.protocol
  isIp : call.protocol = .ipv4 ∨ call.protocol = .ipv6
  bytes : call.region.bytes = packet.bytes
  headerLen : call.verdict.headerLen = some len
  behind : call.Behind options after

/-- The layer of the outermost IP header. -/
def Outermost.ip {packet : Maja.Packet} {options : ParseOptions} (o : Outermost packet options) :
    Layer := ⟨o.call.protocol, o.call.offset, o.len⟩

/-- **A parsed packet has no IP header, or an outermost one.** -/
theorem Parsed.outermost {packet : Maja.Packet} (h : packet.Parsed) :
    (∀ l ∈ packet.layers, isIp l = false) ∨ ∃ options, Nonempty (Outermost packet options) := by
  obtain hraw | ⟨options, p, hroot, hpath⟩ := h.path
  · exact .inl fun l hl => by simp [isIp, hraw l hl]
  · have hp : IsOuter p := by
      obtain rfl | rfl | rfl | rfl := hroot
      · exact .inl (.inl rfl)
      · exact .inl (.inr (.inr (.inr (.inl rfl))))
      · exact .inr (.inl rfl)
      · exact .inr (.inr rfl)
    obtain h | ⟨before, after, ip, len, hlayers, hbefore, hip, hbytes, hlen, hbehind⟩ :=
      hpath.outermost hp
    · exact .inl h
    · exact .inr ⟨options, ⟨⟨before, after, ip, len, hlayers, hbefore, hip, hbytes, hlen, hbehind⟩⟩⟩

/-- The layers of a parsed packet are a layer table. -/
theorem Parsed.table {packet : Maja.Packet} (h : packet.Parsed) :
    LayerTable packet.bytes packet.layers := .of_packed h.packed

namespace Outermost

variable {packet : Maja.Packet} {options : ParseOptions} (o : Outermost packet options)

/-- In front of the outermost IP header there is no other. -/
theorem before_not_ip : ∀ l ∈ o.before, Packet.isIp l = false := by
  intro l hl
  obtain h | h | h | h | h | h := o.before_link l hl <;> simp [Packet.isIp, h]

/-- The outermost IP header is one. -/
theorem isIp_ip : Packet.isIp o.ip = true := by
  obtain h | h := o.isIp <;> simp [Packet.isIp, ip, h]

/-- The outermost IP header is a layer of the packet. -/
theorem ip_mem : o.ip ∈ packet.layers := by
  rw [o.layers_eq]
  exact List.mem_append_right _ List.mem_cons_self

/-- `outer_ip` finds the outermost IP header. -/
theorem outerIp_eq : outerIp packet.layers = some o.ip := by
  have hbefore : o.before.find? Packet.isIp = none :=
    List.find?_eq_none.2 fun l hl => by simp [o.before_not_ip l hl]
  rw [outerIp, o.layers_eq, List.find?_append, hbefore, Option.none_or]
  exact List.find?_cons_of_pos o.isIp_ip

/-- The layers behind the outermost IP header. -/
theorem behindIp_eq : behindIp packet.layers = o.after := by
  have hip : (!Packet.isIp ⟨o.call.protocol, o.call.offset, o.len⟩) = false := by
    have := o.isIp_ip
    rw [ip] at this
    rw [this]
    rfl
  rw [behindIp, o.layers_eq, List.dropWhile_append_of_pos
    fun l hl => by simp [o.before_not_ip l hl], List.dropWhile_cons, hip]
  rfl

/-- What is behind the IP header in the table is behind it in the packet. -/
theorem ip_before (h : LayerTable packet.bytes packet.layers) :
    ∀ l ∈ o.after, o.ip.offset + o.ip.len ≤ l.offset := by
  have hordered := h.ordered
  rw [o.layers_eq] at hordered
  exact (List.pairwise_cons.1 (List.pairwise_append.1 hordered).2.1).1

/-- The outermost layer of a protocol that is not of the link is not before the IP
header. -/
theorem nthLayer_eq {p : Protocol} (hp : ¬IsLink p) :
    packet.nthLayer p (-1) = (o.ip :: o.after).find? fun l => l.protocol = p := by
  have hbefore : o.before.find? (fun l => l.protocol = p) = none :=
    List.find?_eq_none.2 fun l hl => by
      simp only [decide_eq_true_eq]
      rintro rfl
      exact hp (o.before_link l hl)
  have hfirst : packet.nthLayer p (-1) = packet.layers.find? fun l => l.protocol = p := by
    rw [nthLayer, if_neg (by decide), ← List.head?_filter, List.head?_eq_getElem?]
    rfl
  rw [hfirst, o.layers_eq, List.find?_append, hbefore, Option.none_or]
  rfl

end Outermost

end Packet
end Maja
