/-
# Parsing what was crafted

A stack whose headers announce what is behind them is found again: `try_parse` of the
bytes that `build` returns records the layer table that `build` returns.  Two layers
are seen differently.  An ICMP message is one layer with its payload, and an empty
payload leaves no trace.

What a header announces is read off the builder and the layers inside it
(`Builder.announces`).  A stack that does not pass, such as a fragment over TCP or a
payload on a port of a known service, is parsed as something else, which is what its
bytes say.
-/

import Maja.Packet.Crafting
import Maja.Packet.Descent

namespace Maja
namespace Packet

open Lib

/-- The bytes of a payload. -/
def payloadOf : List Builder → List UInt8
  | .raw b :: _ => b.bytes
  | _ => []

/-- What the header of a builder announces behind it. -/
def Builder.announces (b : Builder) (inner : List Builder) : Next :=
  match b with
  | eth b => (EthType.ofCode ((b.typeFor (inner.head?.map protocol)).code % 2 ^ 16)).next false
  | ipv4 b =>
    if (b.fragmentOffset.getD 0).toNat % 2 ^ 13 ≠ 0 then .raw
    else (IpProtocol.ofCode ((b.protocolFor (inner.head?.map protocol)).code % 2 ^ 8)).nextIpv4
  | tcp b =>
    if (IsTlsServicePort (b.srcPort.getD 0).toNat ∨ IsTlsServicePort (b.dstPort.getD 0).toNat) ∧
        Tls.looksLikeRecord (payloadOf inner) then .child .tls
    else .raw
  | udp b =>
    match Udp.service (b.srcPort.getD 0).toNat (b.dstPort.getD 0).toNat with
    | some protocol => .child protocol
    | none => .raw
  | icmpEcho _ => .stop
  | raw _ => .stop

/-- What a header has to announce for the layers inside it to be found. -/
def awaited : List Builder → Next
  | [] => .raw
  | .raw _ :: _ => .raw
  | b :: _ => .child b.protocol

/-- Every header announces what is inside it, up to an ICMP message or a payload. -/
def Dissects : List Builder → Prop
  | [] => True
  | .icmpEcho _ :: _ => True
  | .raw _ :: _ => True
  | b :: inner => b.announces inner = awaited inner ∧ Dissects inner

/-- The layers that a parser sees. -/
def seenLayers (stop : ℕ) : List (CraftedLayer Protocol) → List Layer
  | [] => []
  | l :: inner =>
    if l.protocol = .icmp then [⟨.icmp, l.offset, stop - l.offset⟩]
    else if l.len = 0 then seenLayers stop inner
    else ⟨l.protocol, l.offset, l.len⟩ :: seenLayers stop inner

/-! ### One header -/

section Header

variable {bytes : List UInt8} {offset len : ℕ} {protocol : Protocol} {next : Next}
  {options : ParseOptions} {fuel depth : ℕ} {layers : List Layer}

/-- A header that is recorded, in a packet that ends with its payload. -/
def Decodes (bytes : List UInt8) (protocol : Protocol) (offset len : ℕ) (next : Next) : Prop :=
  decode protocol (.whole bytes) offset = .header len next ∨
    decode protocol (.whole bytes) offset = .datagram len (some bytes.length) next

/-- The end of the packet declares nothing new. -/
theorem narrow_whole (bytes : List UInt8) :
    (Region.whole bytes).narrow (some bytes.length) = .whole bytes :=
  Region.ext rfl (Nat.min_self _)

/-- The descent below such a header. -/
theorem Decodes.descend (h : Decodes bytes protocol offset len next)
    (hnext : follow options
      (fun child => descend options fuel (depth + 1) (.whole bytes) child (offset + len))
      (depth + 1) (.whole bytes) (offset + len) next = ⟨none, layers⟩) :
    descend options (fuel + 1) depth (.whole bytes) protocol offset =
      ⟨none, ⟨protocol, offset, len⟩ :: layers⟩ := by
  rw [Packet.descend]
  rcases h with h | h
  · rw [h]
    dsimp only
    rw [hnext]
    simp [Trace.enclose, trailingLayers]
  · rw [h]
    dsimp only
    rw [narrow_whole, hnext]
    simp [Trace.enclose, trailingLayers, rawLayers, Region.whole]

/-- A length check inside the packet passes. -/
theorem need_inside {k : List UInt8 → Verdict} (h : offset + len ≤ bytes.length) :
    (Region.whole bytes).need protocol offset len k = k ((bytes.drop offset).take len) :=
  if_pos h

end Header

/-! ### The headers of the builders -/

section Builders

variable {checks : Bool} {bytes : List UInt8} {offset : ℕ} {context : CraftContext}
  {inner : List Builder} {measured : List (MeasuredLayer Protocol)} {plan : CraftPlan}
  {slice : List UInt8}

/-- A builder's header in the bytes: what it wrote, in a span that ends with them. -/
structure HeaderAt (bytes : List UInt8) (b : Builder) (plan : CraftPlan) (child : Option Protocol)
    (offset : ℕ) : Prop where
  stop : offset + plan.totalLen = bytes.length
  le : plan.layerLen ≤ plan.totalLen
  describes : Describes (b.puts plan child) b.checksumField b.fixedLen b.tail
    ((bytes.drop offset).take plan.layerLen)

variable {child : Option Protocol}

/-- A field of the header, read in the packet. -/
theorem HeaderAt.peek {b : Builder} (h : HeaderAt bytes b plan child offset)
    (hroom : b.fixedLen ≤ plan.layerLen) (f : Field) (width i : ℕ) {value n : ℕ}
    (hput : (b.puts plan child)[i]? = some (f, value)) (hapart : ∀ g ∈ b.checksumField, f.Apart g)
    (hwidth : f.width = width) (hn : f.hi ≤ n) :
    f.peek ((bytes.drop offset).take n) = value % 2 ^ width := by
  have hmem := List.mem_of_getElem? hput
  have hhi : f.hi ≤ b.fixedLen := b.fields_hi _ (Builder.put_mem hmem)
  rw [Field.peek_take _ hn, ← Field.peek_take _ (hhi.trans hroom), ← hwidth]
  exact h.describes.fields _ hmem hapart

/-- A header that was written lies inside the packet. -/
theorem HeaderAt.fits {b : Builder} (h : HeaderAt bytes b plan child offset) {n : ℕ}
    (hn : n ≤ plan.layerLen) : offset + n ≤ bytes.length := by
  have := h.stop
  have := h.le
  omega

/-- An Ethernet header that was built is decoded as it was built. -/
theorem decodes_eth {b : EthBuilder}
    (h : HeaderAt bytes (.eth b) plan (inner.head?.map Builder.protocol) offset)
    (hlen : plan.layerLen = 14) :
    Decodes bytes .eth offset plan.layerLen ((Builder.eth b).announces inner) := by
  have htype := h.peek hlen.ge EthViewer.ethType 16 2 rfl
    (by simp [Builder.checksumField]) rfl (by decide : _ ≤ 14)
  refine .inl ?_
  rw [decode, need_inside (h.fits hlen.ge), htype, hlen, Builder.announces]

/-- An IPv4 header that was built is decoded as it was built. -/
theorem decodes_ipv4 {b : Ipv4Builder}
    (h : HeaderAt bytes (.ipv4 b) plan (inner.head?.map Builder.protocol) offset) {words : ℕ}
    (hwords : plan.layerLen = words * 4) (hlow : 5 ≤ words) (hhigh : words ≤ 15)
    (htotal : plan.totalLen ≤ 0xFFFF) :
    Decodes bytes .ipv4 offset plan.layerLen ((Builder.ipv4 b).announces inner) := by
  have hroom : 20 ≤ plan.layerLen := by omega
  have hle := h.le
  have hihl := h.peek hroom Ipv4Viewer.ihl 4 1 rfl
    (by rintro g ⟨⟩; decide) rfl (by decide : _ ≤ 20)
  have hlength := h.peek hroom Ipv4Viewer.totalLength 16 4 rfl
    (by rintro g ⟨⟩; decide) rfl ((by decide : _ ≤ 20).trans hroom)
  have hfragment := h.peek hroom Ipv4Viewer.fragmentOffset 13 7 rfl
    (by rintro g ⟨⟩; decide) rfl ((by decide : _ ≤ 20).trans hroom)
  have hprotocol := h.peek hroom Ipv4Viewer.protocol 8 9 rfl
    (by rintro g ⟨⟩; decide) rfl ((by decide : _ ≤ 20).trans hroom)
  have hheaderLen : Ipv4Viewer.ihl.peek ((bytes.drop offset).take 20) * 4 = plan.layerLen := by
    rw [hihl]
    omega
  have htotalLength : Ipv4Viewer.totalLength.peek ((bytes.drop offset).take plan.layerLen) =
      plan.totalLen := by
    rw [hlength]
    exact Nat.mod_eq_of_lt (by omega)
  refine .inr ?_
  rw [decode, need_inside (h.fits hroom)]
  dsimp only
  rw [hheaderLen, if_neg (by omega), need_inside (h.fits le_rfl), htotalLength, if_neg (by omega),
    if_pos (by omega), h.stop, hfragment, hprotocol, Builder.announces]

/-- A TCP header that was built is decoded as it was built. -/
theorem decodes_tcp {b : TcpBuilder}
    (h : HeaderAt bytes (.tcp b) plan (inner.head?.map Builder.protocol) offset) {words : ℕ}
    (hwords : plan.layerLen = words * 4) (hlow : 5 ≤ words) (hhigh : words ≤ 15)
    (hpayload : bytes.drop (offset + plan.layerLen) = payloadOf inner) :
    Decodes bytes .tcp offset plan.layerLen ((Builder.tcp b).announces inner) := by
  have hroom : 20 ≤ plan.layerLen := by omega
  have hoffset := h.peek hroom TcpViewer.dataOffset 4 4 rfl
    (by rintro g ⟨⟩; decide) rfl (by decide : _ ≤ 20)
  have hsrc := h.peek hroom TcpViewer.srcPort 16 0 rfl
    (by rintro g ⟨⟩; decide) rfl ((by decide : _ ≤ 20).trans hroom)
  have hdst := h.peek hroom TcpViewer.dstPort 16 1 rfl
    (by rintro g ⟨⟩; decide) rfl ((by decide : _ ≤ 20).trans hroom)
  have hheaderLen : TcpViewer.dataOffset.peek ((bytes.drop offset).take 20) * 4 =
      plan.layerLen := by
    rw [hoffset]
    omega
  have hsrcPort : TcpViewer.srcPort.peek ((bytes.drop offset).take plan.layerLen) =
      (b.srcPort.getD 0).toNat := hsrc.trans (Nat.mod_eq_of_lt (b.srcPort.getD 0).toNat_lt)
  have hdstPort : TcpViewer.dstPort.peek ((bytes.drop offset).take plan.layerLen) =
      (b.dstPort.getD 0).toNat := hdst.trans (Nat.mod_eq_of_lt (b.dstPort.getD 0).toNat_lt)
  have hbytes : (Region.whole bytes).bytes.take (Region.whole bytes).stop = bytes :=
    List.take_length
  refine .inl ?_
  rw [decode, need_inside (h.fits hroom)]
  dsimp only
  rw [hheaderLen, if_neg (by omega), need_inside (h.fits le_rfl), hsrcPort, hdstPort, hbytes,
    hpayload, Builder.announces]

/-- A UDP header that was built is decoded as it was built. -/
theorem decodes_udp {b : UdpBuilder}
    (h : HeaderAt bytes (.udp b) plan (inner.head?.map Builder.protocol) offset)
    (hlen : plan.layerLen = 8) :
    Decodes bytes .udp offset plan.layerLen ((Builder.udp b).announces inner) := by
  have hsrc := h.peek hlen.ge UdpViewer.srcPort 16 0 rfl
    (by rintro g ⟨⟩; decide) rfl (by decide : _ ≤ 8)
  have hdst := h.peek hlen.ge UdpViewer.dstPort 16 1 rfl
    (by rintro g ⟨⟩; decide) rfl (by decide : _ ≤ 8)
  have hsrcPort : UdpViewer.srcPort.peek ((bytes.drop offset).take 8) =
      (b.srcPort.getD 0).toNat := hsrc.trans (Nat.mod_eq_of_lt (b.srcPort.getD 0).toNat_lt)
  have hdstPort : UdpViewer.dstPort.peek ((bytes.drop offset).take 8) =
      (b.dstPort.getD 0).toNat := hdst.trans (Nat.mod_eq_of_lt (b.dstPort.getD 0).toNat_lt)
  refine .inl ?_
  rw [decode, need_inside (h.fits hlen.ge), hsrcPort, hdstPort, hlen]
  cases hservice : Udp.service (b.srcPort.getD 0).toNat (b.dstPort.getD 0).toNat with
  | none => simp only [Builder.announces, hservice]
  | some protocol => simp only [Builder.announces, hservice]

/-- A payload is what its builder holds. -/
theorem drop_eq_of_raw {b : RawBuilder} (h : HeaderAt bytes (.raw b) plan child offset)
    (hlen : plan.layerLen = b.bytes.length) (htotal : plan.totalLen = plan.layerLen) :
    bytes.drop offset = b.bytes := by
  have hstop := h.stop
  have htail := h.describes.tail
  have hlength : (bytes.drop offset).length = plan.layerLen := by
    rw [List.length_drop]
    omega
  simp only [Builder.fixedLen, Builder.tail, List.drop_zero, Nat.sub_zero] at htail
  rw [List.take_of_length_le hlength.le, hlength, hlen, Nat.sub_self, List.replicate_zero,
    List.append_nil] at htail
  exact htail

/-- The first measured layer is of the protocol of the first builder. -/
theorem Crafted.head_protocol
    (h : Crafted bytes context offset (inner.map (Builder.layer checks)) measured) :
    measured.head?.map MeasuredLayer.protocol = inner.head?.map Builder.protocol := by
  cases inner with
  | nil =>
    cases h
    rfl
  | cons b inner =>
    cases h
    rw [List.head?_cons, List.head?_cons, Option.map_some, Option.map_some, Builder.layer_protocol]

/-- The header of the outermost layer. -/
theorem Crafted.headerAt {b : Builder}
    (h : Crafted bytes context offset ((b :: inner).map (Builder.layer checks)) measured)
    (hhead : ∀ m ∈ measured.head?, offset + m.plan.totalLen = bytes.length) :
    ∃ plan behind, measured = ⟨b.protocol, plan, context, offset⟩ :: behind ∧
      (b.layer checks).measure context (behind.head?.map MeasuredLayer.childPlan) = .ok plan ∧
      HeaderAt bytes b plan (inner.head?.map Builder.protocol) offset ∧
      Crafted bytes ((b.layer checks).childContext context) (offset + plan.layerLen)
        (inner.map (Builder.layer checks)) behind := by
  cases h with
  | @cons _ _ _ _ plan behind slice hplan fits blank written hbehind =>
    have hstop : offset + plan.totalLen = bytes.length := hhead _ rfl
    have htotal := (Builder.measure_plans hplan).total
    have hlength := (b.layer checks).length_write written
    rw [List.length_take, List.length_drop] at hlength
    have hsegment : (bytes.drop offset).take plan.totalLen = bytes.drop offset :=
      List.take_of_length_le (by rw [List.length_drop]; omega)
    obtain ⟨header, hdescribes, hheader, hwritten⟩ :=
      Builder.write_describes hplan blank (by omega) written
    have hchild : childProtocol (childOf plan behind) = inner.head?.map Builder.protocol := by
      rw [← hbehind.head_protocol, childProtocol, childOf, Option.map_map]
      rfl
    refine ⟨plan, behind, by rw [Builder.layer_protocol], hplan, ⟨hstop, by omega, ?_⟩, hbehind⟩
    rw [hsegment] at hwritten
    rw [hwritten, List.take_left' hheader, ← hchild]
    exact hdescribes

/-- The layers behind a header start where it ends, and end with the packet. -/
theorem HeaderAt.behind {b : Builder} {behind : List (MeasuredLayer Protocol)}
    (h : HeaderAt bytes b plan child offset)
    (hplan :
      (b.layer checks).measure context (behind.head?.map MeasuredLayer.childPlan) = .ok plan) :
    ∀ m ∈ behind.head?, offset + plan.layerLen + m.plan.totalLen = bytes.length := by
  intro m hm
  have hstop := h.stop
  have htotal := (Builder.measure_plans hplan).total
  rw [Option.mem_def.1 hm] at htotal
  have : plan.totalLen = plan.layerLen + m.plan.totalLen := htotal
  omega

/-- Behind the last header there is nothing. -/
theorem HeaderAt.end_eq {b : Builder} (h : HeaderAt bytes b plan child offset)
    (hplan : (b.layer checks).measure context none = .ok plan) :
    offset + plan.layerLen = bytes.length := by
  have hstop := h.stop
  have htotal := (Builder.measure_plans hplan).total
  have : plan.totalLen = plan.layerLen + 0 := htotal
  omega

/-- The bytes behind a TCP header, as far as its announcement looks at them. -/
theorem payload_of_crafted {b : TcpBuilder} {behind : List (MeasuredLayer Protocol)}
    (h : HeaderAt bytes (.tcp b) plan child offset)
    (hplan : ((Builder.tcp b).layer checks).measure context
      (behind.head?.map MeasuredLayer.childPlan) = .ok plan)
    (hbehind : Crafted bytes context (offset + plan.layerLen)
      (inner.map (Builder.layer checks)) behind)
    (hannounces : (Builder.tcp b).announces inner = awaited inner) :
    bytes.drop (offset + plan.layerLen) = payloadOf inner := by
  cases inner with
  | nil =>
    cases hbehind
    rw [h.end_eq hplan]
    exact List.drop_length
  | cons c inner =>
    cases c with
    | raw r =>
      obtain ⟨plan', behind', rfl, hplan', hheader, hlast⟩ :=
        hbehind.headerAt (h.behind hplan)
      obtain ⟨-, hlen, htotal⟩ := measure_raw hplan'
      exact drop_eq_of_raw hheader hlen (htotal.trans hlen.symm)
    | _ =>
      -- a TCP header announces a TLS record or nothing
      simp only [Builder.announces, awaited, Builder.protocol] at hannounces
      split_ifs at hannounces
      cases hannounces

/-- A builder whose header is followed by a parser's choice. -/
def Builder.Structured : Builder → Prop
  | icmpEcho _ => False
  | raw _ => False
  | _ => True

/-- **A header that announces what is inside it is decoded so.** -/
theorem HeaderAt.decodes {b : Builder} {behind : List (MeasuredLayer Protocol)}
    (h : HeaderAt bytes b plan (inner.head?.map Builder.protocol) offset) (hb : b.Structured)
    (hplan : (b.layer checks).measure context (behind.head?.map MeasuredLayer.childPlan) = .ok plan)
    (hbehind : Crafted bytes ((b.layer checks).childContext context) (offset + plan.layerLen)
      (inner.map (Builder.layer checks)) behind)
    (hannounces : b.announces inner = awaited inner) :
    Decodes bytes b.protocol offset plan.layerLen (awaited inner) ∧ 0 < plan.layerLen ∧
      b.protocol ≠ .icmp := by
  have hwords := Builder.measure_hasWords hplan
  rw [← hannounces]
  cases b with
  | eth b =>
    have hlen : plan.layerLen = 14 := hwords
    exact ⟨decodes_eth h hlen, by omega, by simp [Builder.protocol]⟩
  | ipv4 b =>
    obtain ⟨words, hwords, hlow, hhigh⟩ := hwords
    have htotal := Builder.measure_le hplan (.inl rfl)
    exact ⟨decodes_ipv4 h hwords hlow hhigh htotal, by omega, by simp [Builder.protocol]⟩
  | tcp b =>
    obtain ⟨words, hwords, hlow, hhigh⟩ := hwords
    have hpayload := payload_of_crafted h hplan hbehind hannounces
    exact ⟨decodes_tcp h hwords hlow hhigh hpayload, by omega, by simp [Builder.protocol]⟩
  | udp b =>
    have hlen : plan.layerLen = 8 := hwords
    exact ⟨decodes_udp h hlen, by omega, by simp [Builder.protocol]⟩
  | icmpEcho => exact hb.elim
  | raw => exact hb.elim

/-- An ICMP message is recorded with everything behind its header. -/
theorem descend_icmp {options : ParseOptions} {fuel depth : ℕ} {b : IcmpEchoBuilder}
    (h : HeaderAt bytes (.icmpEcho b) plan child offset) (hlen : plan.layerLen = 8) :
    descend options (fuel + 1) depth (.whole bytes) .icmp offset =
      ⟨none, [⟨.icmp, offset, bytes.length - offset⟩]⟩ := by
  have hverdict : decode .icmp (.whole bytes) offset = .header (bytes.length - offset) .stop := by
    rw [decode, decodeToEnd, need_inside (h.fits (by omega))]
    rfl
  rw [descend, hverdict]
  rfl

/-- A payload is recorded, unless it is empty. -/
theorem descend_raw {options : ParseOptions} {fuel depth : ℕ} {b : RawBuilder}
    (h : HeaderAt bytes (.raw b) plan child offset) (htotal : plan.totalLen = plan.layerLen) :
    descend options (fuel + 1) depth (.whole bytes) .raw offset =
      ⟨none, seenLayers bytes.length [⟨.raw, offset, plan.layerLen⟩]⟩ := by
  have hstop := h.stop
  have hsub : bytes.length - offset = plan.layerLen := by omega
  show Trace.unparsed (.whole bytes) offset = _
  unfold Trace.unparsed rawLayers
  rw [show (Region.whole bytes).stop = bytes.length from rfl]
  by_cases hzero : plan.layerLen = 0
  · rw [if_neg (show ¬offset < bytes.length by omega)]
    simp [seenLayers, hzero]
  · rw [if_pos (show offset < bytes.length by omega)]
    simp [seenLayers, hzero, hsub]

/-- The table that a parser sees, of a header and what is behind it. -/
theorem seenLayers_cons {stop : ℕ} {protocol : Protocol} {behind : List (MeasuredLayer Protocol)}
    (hne : protocol ≠ .icmp) (hpos : 0 < plan.layerLen) :
    seenLayers stop (collectLayers (⟨protocol, plan, context, offset⟩ :: behind)) =
      ⟨protocol, offset, plan.layerLen⟩ :: seenLayers stop (collectLayers behind) := by
  rw [collectLayers, List.map_cons, seenLayers, if_neg hne, if_neg (by dsimp only; omega)]
  rfl

/-- **The descent finds the stack.**  The induction is on the fuel, along the stack:
each header announces the next one, whose descent is the induction hypothesis. -/
theorem Crafted.descend_eq {options : ParseOptions} {fuel depth : ℕ} {b : Builder}
    (h : Crafted bytes context offset ((b :: inner).map (Builder.layer checks)) measured)
    (hhead : ∀ m ∈ measured.head?, offset + m.plan.totalLen = bytes.length)
    (hdissects : Dissects (b :: inner)) (hfuel : (b :: inner).length ≤ fuel)
    (hdepth : ∀ maxDepth ∈ options.maxDepth, depth + (b :: inner).length ≤ maxDepth) :
    descend options fuel depth (.whole bytes) b.protocol offset =
      ⟨none, seenLayers bytes.length (collectLayers measured)⟩ := by
  induction fuel generalizing b inner context offset measured depth with
  | zero => simp at hfuel
  | succ fuel ih =>
    obtain ⟨plan, behind, rfl, hplan, hheader, hbehind⟩ := h.headerAt hhead
    have hstructured : b.Structured → b.announces inner = awaited inner ∧ Dissects inner := by
      intro hb
      cases b with
      | icmpEcho => exact hb.elim
      | raw => exact hb.elim
      | _ => exact hdissects
    by_cases hb : b.Structured
    · obtain ⟨hannounces, hinner⟩ := hstructured hb
      obtain ⟨hdecodes, hpos, hne⟩ := hheader.decodes hb hplan hbehind hannounces
      rw [seenLayers_cons hne hpos]
      refine hdecodes.descend ?_
      cases inner with
      | nil =>
        cases hbehind
        have hnothing : rawLayers (.whole bytes) (offset + plan.layerLen) = [] := by
          rw [hheader.end_eq hplan]
          exact if_neg (Nat.lt_irrefl _)
        rw [awaited, follow, Trace.unparsed, hnothing]
        rfl
      | cons c inner =>
        have hinnerDepth :
            ∀ maxDepth ∈ options.maxDepth, depth + 1 + (c :: inner).length ≤ maxDepth := by
          intro maxDepth hmax
          have := hdepth maxDepth hmax
          simp only [List.length_cons] at this ⊢
          omega
        have hnext := ih hbehind (hheader.behind hplan) hinner (by simpa using hfuel) hinnerDepth
        have hallow : options.AllowsLayer (depth + 1) := by
          intro maxDepth hmax
          have := hdepth maxDepth hmax
          simp only [List.length_cons] at this
          omega
        cases c with
        | raw r =>
          rw [awaited, follow]
          cases fuel with
          | zero => simp at hfuel
          | succ fuel => exact hnext
        | _ =>
          simp only [awaited]
          rw [follow, if_pos hallow, hnext]
          rfl
    · cases b with
      | icmpEcho b =>
        exact descend_icmp hheader (Builder.measure_hasWords hplan)
      | raw b =>
        obtain ⟨hnext, hlen, htotal⟩ := measure_raw hplan
        have hnone : behind = [] := by
          cases behind with
          | nil => rfl
          | cons => cases hnext
        subst hnone
        exact descend_raw hheader (htotal.trans hlen.symm)
      | _ => exact absurd trivial hb

/-- **The parser finds the stack**, from its outermost header on. -/
theorem Crafted.tryParse_eq {options : ParseOptions} {fuel : ℕ} {b : Builder}
    (h : Crafted bytes {} 0 ((b :: inner).map (Builder.layer checks)) measured)
    (hhead : ∀ m ∈ measured.head?, 0 + m.plan.totalLen = bytes.length)
    (hdissects : Dissects (b :: inner)) (hfuel : bytes.length < fuel)
    (hdepth : ∀ maxDepth ∈ options.maxDepth, (b :: inner).length ≤ maxDepth) :
    tryParse fuel b.protocol options (new bytes) =
      .ok ((), ⟨bytes, seenLayers bytes.length (collectLayers measured)⟩) := by
  have hallow : options.AllowsLayer 0 := by
    intro maxDepth hmax
    have := hdepth maxDepth hmax
    simp only [List.length_cons] at this
    omega
  have hdepthZero : ∀ maxDepth ∈ options.maxDepth, 0 + (b :: inner).length ≤ maxDepth := by
    intro maxDepth hmax
    rw [Nat.zero_add]
    exact hdepth maxDepth hmax
  have hdescend := h.descend_eq hhead hdissects
    (Nat.le_add_right (b :: inner).length fuel) hdepthZero
  have hstop : (Region.whole bytes).stop = bytes.length := rfl
  rw [tryParse_new b.protocol hfuel, rootTrace, if_pos hallow,
    descend_fuel options 0 (.whole bytes) b.protocol 0 (by omega)
      (show _ < (b :: inner).length + fuel by omega), hdescend]
  rfl

end Builders

/-- **What was crafted is parsed.**  The bytes of a built packet, parsed from the
protocol of its outermost builder with any options whose depth limit the stack
respects, give the layer table of the packet, as far as a parser can see it. -/
theorem tryParse_build (checks : Bool) (b : Builder) (inner : List Builder)
    (packet : CraftedPacket Protocol) (h : (stackOf checks (b :: inner)).build = .ok packet)
    (hdissects : Dissects (b :: inner)) (options : ParseOptions)
    (hdepth : ∀ maxDepth ∈ options.maxDepth, (b :: inner).length ≤ maxDepth) (fuel : ℕ)
    (hfuel : packet.bytes.length < fuel) :
    tryParse fuel b.protocol options (new packet.bytes) =
      .ok ((), ⟨packet.bytes, seenLayers packet.bytes.length packet.layers⟩) := by
  obtain ⟨measured, hcrafted, hlayers, hhead⟩ := crafted_of_build h
  rw [hlayers]
  exact hcrafted.tryParse_eq hhead hdissects hfuel hdepth

/-- The example is parsed into the layers that it was built of. -/
theorem tryParse_build_datagram :
    tryParse 49 .eth {} (new datagramPacket.bytes) = .ok ((), ⟨datagramPacket.bytes,
      [⟨.eth, 0, 14⟩, ⟨.ipv4, 14, 24⟩, ⟨.udp, 38, 8⟩, ⟨.raw, 46, 2⟩]⟩) :=
  tryParse_build true _ _ datagramPacket build_datagram ⟨rfl, rfl, rfl, trivial⟩ {} (by simp) 49
    (by decide)

end Packet
end Maja
