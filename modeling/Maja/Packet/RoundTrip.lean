/-
# Back from the wire

A payload under TCP or UDP, IPv4 and Ethernet, whose types and checksums are left to
the builders, comes back when its bytes are parsed.  The parser records the layers
that were crafted, the checksums validate against the addresses that are read, and
every accessor reads what the caller set, cut to the width of its field; the caller's
options stand behind the fields, and the payload behind the headers.

The two sides meet at `BuiltAt`, which says what a builder left in its span.  What the
caller set is among the values that the builder sets (`Builder.puts_of_settings`): a
length that was given is the length that was measured.
-/

import Maja.Packet.Access
import Maja.Packet.Dissect

namespace Maja
namespace Packet

open Lib

/-! ### What the caller sets -/

/-- The fields of a builder, with the value of each that the caller set.  The checksum
is not among them. -/
def Builder.settings : Builder → List (Field × Option ℕ)
  | eth b =>
    [(EthViewer.dst, b.dst.map BitVec.toNat), (EthViewer.src, b.src.map BitVec.toNat),
      (EthViewer.ethType, b.ethType.map EthType.code)]
  | ipv4 b =>
    [(Ipv4Viewer.ihl, b.ihl.map UInt8.toNat), (Ipv4Viewer.dscp, b.dscp.map UInt8.toNat),
      (Ipv4Viewer.ecn, b.ecn.map UInt8.toNat),
      (Ipv4Viewer.totalLength, b.totalLength.map UInt16.toNat),
      (Ipv4Viewer.identification, b.identification.map UInt16.toNat),
      (Ipv4Viewer.flags, b.flags.map UInt8.toNat),
      (Ipv4Viewer.fragmentOffset, b.fragmentOffset.map UInt16.toNat),
      (Ipv4Viewer.ttl, b.ttl.map UInt8.toNat),
      (Ipv4Viewer.protocol, b.protocol.map IpProtocol.code),
      (Ipv4Viewer.src, b.src.map BitVec.toNat), (Ipv4Viewer.dst, b.dst.map BitVec.toNat)]
  | tcp b =>
    [(TcpViewer.srcPort, b.srcPort.map UInt16.toNat),
      (TcpViewer.dstPort, b.dstPort.map UInt16.toNat),
      (TcpViewer.seqNum, b.seqNum.map UInt32.toNat), (TcpViewer.ackNum, b.ackNum.map UInt32.toNat),
      (TcpViewer.dataOffset, b.dataOffset.map UInt8.toNat),
      (TcpViewer.flags, b.flags.map UInt8.toNat),
      (TcpViewer.windowSize, b.windowSize.map UInt16.toNat),
      (TcpViewer.urgentPointer, b.urgentPointer.map UInt16.toNat)]
  | udp b =>
    [(UdpViewer.srcPort, b.srcPort.map UInt16.toNat),
      (UdpViewer.dstPort, b.dstPort.map UInt16.toNat),
      (UdpViewer.length, b.length.map UInt16.toNat)]
  | icmpEcho b =>
    [(IcmpViewer.messageType, some b.messageType.code), (IcmpViewer.code, b.code.map UInt8.toNat),
      (IcmpViewer.identifier, b.identifier.map UInt16.toNat),
      (IcmpViewer.sequence, b.sequence.map UInt16.toNat)]
  | raw _ => []

section Settings

variable {checks : Bool} {b : Builder} {context : CraftContext}
  {child : Option (CraftChildPlan Protocol)} {plan : CraftPlan} {prot : Option Protocol}
  {setting : Field × Option ℕ} {value : ℕ}

/-- The fields beside a checksum lie apart from it. -/
theorem Builder.settings_apart (b : Builder) :
    ∀ setting ∈ b.settings, ∀ f ∈ b.checksumField, setting.1.Apart f := by
  cases b with
  | eth => simp [checksumField]
  | ipv4 => simp only [settings, checksumField, List.forall_mem_cons]; decide
  | tcp => simp [settings, checksumField]; decide
  | udp => simp [settings, checksumField]; decide
  | icmpEcho => simp [settings, checksumField]; decide
  | raw => simp [settings]

/-- The header of given words is written so. -/
theorem words_of_given {protocol field reason : String} {options : List UInt8} {words : UInt8}
    {n : ℕ} (h : measureWords protocol field reason options (some words) = .ok n) :
    n / 4 % 256 = words.toNat := by
  obtain ⟨rfl, hle⟩ := measureWords_of_given h
  omega

/-- **What the caller sets is what the builder sets.** -/
theorem Builder.puts_of_settings (h : (b.layer checks).measure context child = .ok plan)
    (hsetting : setting ∈ b.settings) (hvalue : value ∈ setting.2) :
    (setting.1, value) ∈ b.puts plan prot := by
  cases b with
  | eth b =>
    simp only [settings, List.mem_cons, List.not_mem_nil, or_false] at hsetting
    rcases hsetting with rfl | rfl | rfl <;>
      obtain ⟨x, hx, rfl⟩ := Option.map_eq_some_iff.1 hvalue
    all_goals simp [puts, EthBuilder.puts, EthBuilder.typeFor, hx]
  | ipv4 b =>
    obtain ⟨headerLen, hheader, h⟩ := Outcome.bind_eq_ok.1 h
    obtain ⟨generated, -, h⟩ := Outcome.bind_eq_ok.1 h
    obtain ⟨total, htotal, h⟩ := Outcome.bind_eq_ok.1 h
    obtain rfl := Outcome.ok.inj h
    simp only [settings, List.mem_cons, List.not_mem_nil, or_false] at hsetting
    rcases hsetting with rfl | rfl | rfl | rfl | rfl | rfl | rfl | rfl | rfl | rfl | rfl <;>
      obtain ⟨x, hx, rfl⟩ := Option.map_eq_some_iff.1 hvalue
    -- the two lengths are planned, and what is given is what was planned
    · rw [Ipv4Builder.measureHeaderLen, hx] at hheader
      simp [puts, Ipv4Builder.puts, words_of_given hheader]
    pick_goal 3
    · rw [hx] at htotal
      simp [puts, Ipv4Builder.puts, measureLength_of_given htotal]
    all_goals simp [puts, Ipv4Builder.puts, Ipv4Builder.protocolFor, Ipv4Builder.effectiveSrc,
      Ipv4Builder.effectiveDst, hx]
  | tcp b =>
    obtain ⟨headerLen, hheader, h⟩ := Outcome.bind_eq_ok.1 h
    obtain ⟨segmentLen, -, h⟩ := Outcome.bind_eq_ok.1 h
    obtain ⟨_, -, h⟩ := Outcome.bind_eq_ok.1 h
    obtain rfl := Outcome.ok.inj h
    simp only [settings, List.mem_cons, List.not_mem_nil, or_false] at hsetting
    rcases hsetting with rfl | rfl | rfl | rfl | rfl | rfl | rfl | rfl <;>
      obtain ⟨x, hx, rfl⟩ := Option.map_eq_some_iff.1 hvalue
    pick_goal 5
    · rw [TcpBuilder.measureHeaderLen, hx] at hheader
      simp [puts, TcpBuilder.puts, words_of_given hheader]
    all_goals simp [puts, TcpBuilder.puts, hx]
  | udp b =>
    obtain ⟨generated, -, h⟩ := Outcome.bind_eq_ok.1 h
    obtain ⟨total, htotal, h⟩ := Outcome.bind_eq_ok.1 h
    obtain rfl := Outcome.ok.inj h
    simp only [settings, List.mem_cons, List.not_mem_nil, or_false] at hsetting
    rcases hsetting with rfl | rfl | rfl <;>
      obtain ⟨x, hx, rfl⟩ := Option.map_eq_some_iff.1 hvalue
    pick_goal 3
    · rw [hx] at htotal
      simp [puts, UdpBuilder.puts, measureLength_of_given htotal]
    all_goals simp [puts, UdpBuilder.puts, hx]
  | icmpEcho b =>
    simp only [settings, List.mem_cons, List.not_mem_nil, or_false] at hsetting
    rcases hsetting with rfl | rfl | rfl | rfl
    · obtain rfl := Option.some.inj hvalue
      simp [puts, IcmpEchoBuilder.puts]
    all_goals
      obtain ⟨x, hx, rfl⟩ := Option.map_eq_some_iff.1 hvalue
      simp [puts, IcmpEchoBuilder.puts, hx]
  | raw b => simp [settings] at hsetting

end Settings

/-! ### A layer, read again -/

/-- A layer of a parsed packet reads back as its builder: each field of its header as
it was set, cut to its width, and behind the fields the bytes of the caller, padded
with zeros. -/
structure ReadsBack (packet : Packet) (l : Layer) (b : Builder) : Prop where
  protocol : l.protocol = b.protocol
  settings : ∀ setting ∈ b.settings, ∀ value ∈ setting.2,
    (packet.getField l setting.1 : Outcome CraftError ℕ) = .ok (value % 2 ^ setting.1.width)
  tail : ∃ header padding, (l.bytes packet.bytes : Outcome CraftError _) = .ok header ∧
    header.drop b.fixedLen = b.tail ++ List.replicate padding 0

/-- A crafted layer as a parser records it. -/
def CraftedLayer.seen (l : CraftedLayer Protocol) : Layer := ⟨l.protocol, l.offset, l.len⟩

section Reads

variable {checks : Bool} {builders : List Builder} {packet : CraftedPacket Protocol} {i : ℕ}
  {b : Builder} {m : MeasuredLayer Protocol} {slice : List UInt8} {layers : List Layer}

/-- The bytes of a layer are its header. -/
theorem BuiltAt.bytes_eq {ε : Type} (h : BuiltAt checks builders packet i b m slice)
    (protocol : Protocol) :
    ((⟨protocol, m.offset, m.plan.layerLen⟩ : Layer).bytes packet.bytes : Outcome ε _) =
      .ok ((packet.bytes.drop m.offset).take m.plan.layerLen) := by
  obtain ⟨next, -, hat⟩ := h.crafted
  have htotal := (Builder.measure_plans hat.measured).total
  have hstop := h.stop
  have hle : m.offset + m.plan.layerLen ≤ packet.bytes.length := by omega
  rw [Layer.bytes, Outcome.slice_eq_ok (Nat.le_add_right _ _) hle, Nat.add_sub_cancel_left]

/-- A field that the builder sets is read, wherever the layer was recorded. -/
theorem BuiltAt.getField_eq {ε : Type} (h : BuiltAt checks builders packet i b m slice)
    {put : Field × ℕ} (hput : put ∈ b.puts m.plan (builders[i + 1]?.map Builder.protocol))
    (hapart : ∀ f ∈ b.checksumField, put.1.Apart f) :
    (getField ⟨packet.bytes, layers⟩ ⟨b.protocol, m.offset, m.plan.layerLen⟩ put.1 :
      Outcome ε ℕ) = .ok (put.2 % 2 ^ put.1.width) := by
  obtain ⟨hlength, hdescribes⟩ := h.header
  obtain ⟨next, -, hat⟩ := h.crafted
  have hroom := (Builder.measure_plans hat.measured).room
  have hhi := b.fields_hi _ (Builder.put_mem hput)
  rw [getField, h.bytes_eq, Outcome.ok_bind, Field.get_eq (by omega),
    hdescribes.fields put hput hapart]

/-- **A layer that was built reads back.** -/
theorem BuiltAt.readsBack (h : BuiltAt checks builders packet i b m slice) :
    ReadsBack ⟨packet.bytes, layers⟩ ⟨b.protocol, m.offset, m.plan.layerLen⟩ b where
  protocol := rfl
  settings setting hsetting value hvalue := by
    obtain ⟨next, -, hat⟩ := h.crafted
    exact h.getField_eq (Builder.puts_of_settings hat.measured hsetting hvalue)
      (b.settings_apart setting hsetting)
  tail := ⟨_, _, h.bytes_eq _, h.header.2.tail⟩

/-- A header of a builder is not empty, nor is a payload with bytes. -/
theorem BuiltAt.layerLen_pos (h : BuiltAt checks builders packet i b m slice)
    (hpayload : b.protocol = .raw → b.tail ≠ []) : 0 < m.plan.layerLen := by
  obtain ⟨next, -, hat⟩ := h.crafted
  have hroom := (Builder.measure_plans hat.measured).room
  cases b with
  | raw b =>
    have hpos := List.length_pos_of_ne_nil (hpayload rfl)
    omega
  | _ =>
    simp only [Builder.fixedLen] at hroom
    omega

/-- Where no layer is an ICMP message or empty, a parser sees them all. -/
theorem seenLayers_eq_map {stop : ℕ} {layers : List (CraftedLayer Protocol)}
    (h : ∀ l ∈ layers, l.protocol ≠ .icmp ∧ 0 < l.len) :
    seenLayers stop layers = layers.map CraftedLayer.seen := by
  induction layers with
  | nil => rfl
  | cons l layers ih =>
    obtain ⟨⟨hne, hpos⟩, hrest⟩ := List.forall_mem_cons.1 h
    rw [seenLayers, if_neg hne, if_neg (by omega), ih hrest]
    rfl

/-- The layers of a built packet are its builders'. -/
theorem exists_builtAt (h : (stackOf checks builders).build = .ok packet)
    {l : CraftedLayer Protocol} (hl : l ∈ packet.layers) :
    ∃ i b m slice, builders[i]? = some b ∧ BuiltAt checks builders packet i b m slice ∧
      l = ⟨b.protocol, m.offset, m.plan.layerLen⟩ := by
  obtain ⟨i, hi⟩ := List.mem_iff_getElem?.1 hl
  obtain ⟨hlt, -⟩ := List.getElem?_eq_some_iff.1 hi
  have hb : builders[i]? = some (builders.get ⟨i, length_layers h ▸ hlt⟩) :=
    List.getElem?_eq_getElem _
  obtain ⟨m, slice, hbuilt⟩ := build_at h hb
  exact ⟨i, _, m, slice, hb, hbuilt, Option.some.inj (hi.symm.trans hbuilt.layer)⟩

/-- **Every stack that was built reads back**, layer for layer. -/
theorem forall₂_readsBack (h : (stackOf checks builders).build = .ok packet) :
    List.Forall₂ (ReadsBack ⟨packet.bytes, layers⟩) (packet.layers.map CraftedLayer.seen)
      builders := by
  have hlength := length_layers h
  refine List.forall₂_iff_get.2 ⟨by rw [List.length_map, hlength], fun i hi hi' => ?_⟩
  have hb : builders[i]? = some (builders.get ⟨i, hi'⟩) := List.getElem?_eq_getElem hi'
  obtain ⟨m, slice, hbuilt⟩ := build_at h hb
  have hl : (packet.layers.map CraftedLayer.seen)[i]? =
      some ⟨(builders.get ⟨i, hi'⟩).protocol, m.offset, m.plan.layerLen⟩ := by
    rw [List.getElem?_map, hbuilt.layer]
    rfl
  obtain ⟨_, hget⟩ := List.getElem?_eq_some_iff.1 hl
  rw [List.get_eq_getElem, hget]
  exact hbuilt.readsBack

end Reads

/-! ### Transport stacks -/

/-- The builder of a transport header. -/
inductive TransportBuilder where
  | tcp (b : TcpBuilder)
  | udp (b : UdpBuilder)
  deriving DecidableEq, Repr

namespace TransportBuilder

/-- A transport header as a builder of the library. -/
def builder : TransportBuilder → Builder
  | tcp b => .tcp b
  | udp b => .udp b

/-- The ports select no parser for the payload: for TCP, not that of TLS on a payload
that looks like its records. -/
def Undispatched (payload : List UInt8) : TransportBuilder → Prop
  | tcp b => ¬((IsTlsServicePort (b.srcPort.getD 0).toNat ∨
      IsTlsServicePort (b.dstPort.getD 0).toNat) ∧ Tls.looksLikeRecord payload)
  | udp b => Udp.service (b.srcPort.getD 0).toNat (b.dstPort.getD 0).toNat = none

instance (payload : List UInt8) : (b : TransportBuilder) → Decidable (b.Undispatched payload)
  | tcp _ => inferInstanceAs (Decidable (¬_))
  | udp _ => inferInstanceAs (Decidable (_ = none))

/-- The checksum of a segment validates with the addresses of its IPv4 header. -/
def Validates (checks : Bool) (src dst : ℕ) (segment : List UInt8) : TransportBuilder → Prop
  | tcp _ => (TcpViewer.validateChecksumIpv4 checks src dst segment :
      Outcome CraftError _) = .ok true
  | udp _ => (UdpViewer.validateChecksumIpv4 checks src dst segment :
      Outcome CraftError _) = .ok true

/-- Both transport headers have a checksum. -/
theorem exists_checksumField (b : TransportBuilder) :
    ∃ f, b.builder.checksumField = some f := by
  cases b with
  | tcp b => exact ⟨_, rfl⟩
  | udp b => exact ⟨_, rfl⟩

/-- A header that verifies under IPv4 validates. -/
theorem validates_of_verifies {checks : Bool} {b : TransportBuilder} {src dst : ℕ}
    {header segment : List UInt8}
    (h : b.builder.Verifies checks (some ⟨src, dst⟩) header segment) :
    b.Validates checks src dst segment := by
  cases b with
  | tcp b => exact h
  | udp b => exact h

end TransportBuilder

/-- A stack Ethernet / IPv4 / TCP or UDP / payload that leaves its types and checksums
to the builders, is no fragment, and has a payload that no service is parsed from. -/
structure TransportStack where
  eth : EthBuilder
  ipv4 : Ipv4Builder
  transport : TransportBuilder
  payload : RawBuilder
  type_unset : eth.ethType = none
  protocol_unset : ipv4.protocol = none
  checksum_unset : ipv4.checksum = none
  transport_checksum_unset : transport.builder.givenChecksum = none
  unfragmented : (ipv4.fragmentOffset.getD 0).toNat % 2 ^ 13 = 0
  undispatched : transport.Undispatched payload.bytes
  nonempty : payload.bytes ≠ []

namespace TransportStack

/-- The builders of a stack, the outermost first. -/
def builders (stack : TransportStack) : List Builder :=
  [.eth stack.eth, .ipv4 stack.ipv4, stack.transport.builder, .raw stack.payload]

/-- Every header of such a stack announces the next. -/
theorem dissects (stack : TransportStack) : Dissects stack.builders := by
  obtain ⟨eth, ipv4, transport, payload, htype, hprotocol, -, -, hfragment, hports, -⟩ := stack
  have heth : (Builder.eth eth).announces [.ipv4 ipv4, transport.builder, .raw payload] =
      .child .ipv4 := by
    simp only [Builder.announces, EthBuilder.typeFor, htype]
    rfl
  cases transport with
  | tcp b =>
    refine ⟨heth, ?_, if_neg hports, trivial⟩
    simp only [Builder.announces, Ipv4Builder.protocolFor, hprotocol]
    rw [if_neg (not_not_intro hfragment)]
    rfl
  | udp b =>
    refine ⟨heth, ?_, ?_, trivial⟩
    · simp only [Builder.announces, Ipv4Builder.protocolFor, hprotocol]
      rw [if_neg (not_not_intro hfragment)]
      rfl
    · have hnone : Udp.service (b.srcPort.getD 0).toNat (b.dstPort.getD 0).toNat = none := hports
      simp only [TransportBuilder.builder, Builder.announces, hnone]
      rfl

/-- What was crafted, when it is parsed. -/
structure ComesBack (checks : Bool) (stack : TransportStack) (packet : CraftedPacket Protocol)
    (parsed : Packet) : Prop where
  bytes : parsed.bytes = packet.bytes
  layers : parsed.layers = packet.layers.map CraftedLayer.seen
  readsBack : List.Forall₂ (ReadsBack parsed) parsed.layers stack.builders
  payload : ∀ l ∈ parsed.layers[3]?,
    (l.bytes parsed.bytes : Outcome CraftError _) = .ok stack.payload.bytes
  checksum : ∀ ip ∈ parsed.layers[1]?, ∃ header,
    (ip.bytes parsed.bytes : Outcome CraftError _) = .ok header ∧
      (Ipv4Viewer.validateChecksum checks header : Outcome CraftError _) = .ok true
  transportChecksum : ∀ ip ∈ parsed.layers[1]?, ∀ l ∈ parsed.layers[2]?, ∃ src dst,
    (parsed.getField ip Ipv4Viewer.src : Outcome CraftError _) = .ok src ∧
      (parsed.getField ip Ipv4Viewer.dst : Outcome CraftError _) = .ok dst ∧
      stack.transport.Validates checks src dst (parsed.bytes.drop l.offset)

section ComesBack

variable {checks : Bool} {stack : TransportStack} {packet : CraftedPacket Protocol}

/-- No builder of such a stack is an ICMP message or an empty payload. -/
theorem visible (stack : TransportStack) :
    ∀ b ∈ stack.builders, b.protocol ≠ .icmp ∧ (b.protocol = .raw → b.tail ≠ []) := by
  intro b hb
  simp only [builders, List.mem_cons, List.not_mem_nil, or_false] at hb
  rcases hb with rfl | rfl | rfl | rfl
  · simp [Builder.protocol]
  · simp [Builder.protocol]
  · cases stack.transport <;> simp [TransportBuilder.builder, Builder.protocol]
  · exact ⟨by simp [Builder.protocol], fun _ => stack.nonempty⟩

/-- A parser sees every layer of such a stack. -/
theorem seen (h : (stackOf checks stack.builders).build = .ok packet) :
    ∀ l ∈ packet.layers, l.protocol ≠ .icmp ∧ 0 < l.len := by
  intro l hl
  obtain ⟨i, b, m, slice, hb, hbuilt, rfl⟩ := exists_builtAt h hl
  obtain ⟨hne, hpayload⟩ := stack.visible b (List.mem_of_getElem? hb)
  exact ⟨hne, hbuilt.layerLen_pos hpayload⟩

/-- The payload stands behind the headers. -/
theorem payload_eq (h : (stackOf checks stack.builders).build = .ok packet) :
    ∀ l ∈ packet.layers[3]?,
      (l.seen.bytes packet.bytes : Outcome CraftError _) = .ok stack.payload.bytes := by
  obtain ⟨m, slice, hbuilt⟩ := build_at h (i := 3) rfl
  intro l hl
  obtain rfl := Option.some.inj (hbuilt.layer.symm.trans hl)
  obtain ⟨next, -, hat⟩ := hbuilt.crafted
  obtain ⟨-, hlen, -⟩ := measure_raw hat.measured
  obtain ⟨hlength, hdescribes⟩ := hbuilt.header
  have htail := hdescribes.tail
  rw [hlength, hlen] at htail
  simp only [Builder.fixedLen, Builder.tail, List.drop_zero, Nat.sub_zero, Nat.sub_self,
    List.replicate_zero, List.append_nil] at htail
  rw [CraftedLayer.seen, hbuilt.bytes_eq, hlen, htail]

/-- The checksum of the IPv4 header validates. -/
theorem checksum_validates (h : (stackOf checks stack.builders).build = .ok packet) :
    ∀ ip ∈ packet.layers[1]?, ∃ header,
      (ip.seen.bytes packet.bytes : Outcome CraftError _) = .ok header ∧
        (Ipv4Viewer.validateChecksum checks header : Outcome CraftError _) = .ok true := by
  obtain ⟨m, slice, hbuilt⟩ := build_at h (i := 1) rfl
  intro ip hip
  obtain rfl := Option.some.inj (hbuilt.layer.symm.trans hip)
  exact ⟨_, hbuilt.bytes_eq _, (hbuilt.checksum rfl).2 stack.checksum_unset⟩

/-- The checksum of the segment validates with the addresses that are read. -/
theorem segment_validates {layers : List Layer}
    (h : (stackOf checks stack.builders).build = .ok packet) :
    ∀ ip ∈ packet.layers[1]?, ∀ l ∈ packet.layers[2]?, ∃ src dst,
      (getField ⟨packet.bytes, layers⟩ ip.seen Ipv4Viewer.src : Outcome CraftError _) = .ok src ∧
        (getField ⟨packet.bytes, layers⟩ ip.seen Ipv4Viewer.dst : Outcome CraftError _) = .ok dst ∧
        stack.transport.Validates checks src dst (packet.bytes.drop l.offset) := by
  obtain ⟨m, slice, hbuilt⟩ := build_at h (i := 1) rfl
  obtain ⟨m', slice', hbuilt'⟩ := build_at h (i := 2) rfl
  intro ip hip l hl
  obtain rfl := Option.some.inj (hbuilt.layer.symm.trans hip)
  obtain rfl := Option.some.inj (hbuilt'.layer.symm.trans hl)
  have hsrc : (getField ⟨packet.bytes, layers⟩ ⟨.ipv4, m.offset, m.plan.layerLen⟩
      Ipv4Viewer.src : Outcome CraftError _) =
        .ok (stack.ipv4.effectiveSrc % 2 ^ Ipv4Viewer.src.width) :=
    hbuilt.getField_eq
      (List.mem_of_getElem? (i := 11) rfl : (Ipv4Viewer.src, stack.ipv4.effectiveSrc) ∈ _)
      (by rintro f ⟨⟩; exact (by decide : Ipv4Viewer.src.Apart Ipv4Viewer.checksum))
  have hdst : (getField ⟨packet.bytes, layers⟩ ⟨.ipv4, m.offset, m.plan.layerLen⟩
      Ipv4Viewer.dst : Outcome CraftError _) =
        .ok (stack.ipv4.effectiveDst % 2 ^ Ipv4Viewer.dst.width) :=
    hbuilt.getField_eq
      (List.mem_of_getElem? (i := 12) rfl : (Ipv4Viewer.dst, stack.ipv4.effectiveDst) ∈ _)
      (by rintro f ⟨⟩; exact (by decide : Ipv4Viewer.dst.Apart Ipv4Viewer.checksum))
  have hsrcMod : stack.ipv4.effectiveSrc % 2 ^ Ipv4Viewer.src.width = stack.ipv4.effectiveSrc :=
    Nat.mod_eq_of_lt (BitVec.isLt _)
  have hdstMod : stack.ipv4.effectiveDst % 2 ^ Ipv4Viewer.dst.width = stack.ipv4.effectiveDst :=
    Nat.mod_eq_of_lt (BitVec.isLt _)
  rw [hsrcMod] at hsrc
  rw [hdstMod] at hdst
  obtain ⟨f, hf⟩ := stack.transport.exists_checksumField
  exact ⟨_, _, hsrc, hdst, TransportBuilder.validates_of_verifies
    ((hbuilt'.checksum hf).2 stack.transport_checksum_unset)⟩

end ComesBack

/-- **Craft, then parse.**  Whenever such a stack is built, `try_parse` from Ethernet
on succeeds, with any depth limit of at least four, and what it parses is what was
crafted: the same bytes and layers, checksums that validate, and every field, option
and payload as it was set. -/
theorem tryParse_comesBack (checks : Bool) (stack : TransportStack)
    (packet : CraftedPacket Protocol) (h : (stackOf checks stack.builders).build = .ok packet)
    (options : ParseOptions) (hdepth : ∀ maxDepth ∈ options.maxDepth, 4 ≤ maxDepth) (fuel : ℕ)
    (hfuel : packet.bytes.length < fuel) :
    ∃ parsed, tryParse fuel .eth options (new packet.bytes) = .ok ((), parsed) ∧
      stack.ComesBack checks packet parsed := by
  obtain ⟨measured, hcrafted, hlayers, hhead⟩ := crafted_of_build h
  have hparse : tryParse fuel .eth options (new packet.bytes) =
      .ok ((), ⟨packet.bytes, seenLayers packet.bytes.length (collectLayers measured)⟩) :=
    hcrafted.tryParse_eq hhead stack.dissects hfuel hdepth
  rw [← hlayers, seenLayers_eq_map (seen h)] at hparse
  refine ⟨_, hparse, rfl, rfl, forall₂_readsBack h, ?_, ?_, ?_⟩
  · intro l hl
    obtain ⟨c, hc, rfl⟩ := Option.map_eq_some_iff.1 (List.getElem?_map .. ▸ hl)
    exact payload_eq h c hc
  · intro ip hip
    obtain ⟨c, hc, rfl⟩ := Option.map_eq_some_iff.1 (List.getElem?_map .. ▸ hip)
    exact checksum_validates h c hc
  · intro ip hip l hl
    obtain ⟨c, hc, rfl⟩ := Option.map_eq_some_iff.1 (List.getElem?_map .. ▸ hip)
    obtain ⟨d, hd, rfl⟩ := Option.map_eq_some_iff.1 (List.getElem?_map .. ▸ hl)
    exact segment_validates h c hc d hd

/-- A segment with options in both headers, one word more of IPv4 header than they
take, and a DSCP that is too wide for its six bits. -/
def segment : TransportStack where
  eth := { dst := some 0x020000000001#48, src := some 0x020000000002#48 }
  ipv4 := { ihl := some 7, dscp := some 200, ttl := some 3, src := some 0xC0000201#32,
            dst := some 0xC0000202#32, options := [1, 1, 1] }
  transport := .tcp { srcPort := some 5000, dstPort := some 6000, seqNum := some 7,
                      flags := some 24, options := [2, 4, 5, 0xB4, 1] }
  payload := { bytes := [0x68, 0x69, 0x21] }
  type_unset := rfl
  protocol_unset := rfl
  checksum_unset := rfl
  transport_checksum_unset := rfl
  unfragmented := rfl
  undispatched := by decide
  nonempty := by decide

/-- The segment, built. -/
def segmentPacket : CraftedPacket Protocol where
  bytes := [2, 0, 0, 0, 0, 1, 2, 0, 0, 0, 0, 2, 8, 0, 71, 32, 0, 59, 0, 0, 0, 0, 3, 6, 47, 153, 192,
    0, 2, 1, 192, 0, 2, 2, 1, 1, 1, 0, 0, 0, 0, 0, 19, 136, 23, 112, 0, 0, 0, 7, 0, 0, 0, 0, 112, 24,
    0, 64, 78, 93, 0, 0, 2, 4, 5, 180, 1, 0, 0, 0, 104, 105, 33]
  layers := [⟨.eth, 0, 14⟩, ⟨.ipv4, 14, 28⟩, ⟨.tcp, 42, 28⟩, ⟨.raw, 70, 3⟩]

/-- The segment comes back. -/
theorem tryParse_comesBack_segment :
    ∃ parsed, tryParse 74 .eth {} (new segmentPacket.bytes) = .ok ((), parsed) ∧
      segment.ComesBack true segmentPacket parsed :=
  tryParse_comesBack true segment segmentPacket (by decide +kernel) {} (by simp) 74 (by decide)

end TransportStack

end Packet
end Maja
