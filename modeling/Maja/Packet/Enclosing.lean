/-
# What encloses a header

The call that records a layer, and the headers that are passed on the way to it.
Its region is the captured bytes, cut by every length that one of these headers
declares (`Call.Passes.region`).  A TCP or UDP header is right behind an IP header or
behind its chain of extension headers (`Parsed.carrier`), so the last IP header in
front of it is the one that carries it.
-/

import Maja.Packet.Outermost

namespace Maja
namespace Packet

open Lib

/-! ### The way to a call -/

/-- The headers that are passed on the way from a call to one below it. -/
inductive Call.Passes (options : ParseOptions) (c : Call) : List Layer → Call → Prop
  | here : Passes options c [] c
  | step {d d' : Call} {len : ℕ} {layers : List Layer} : Passes options c layers d →
      d.verdict.headerLen = some len → Call.Step options d d' →
      Passes options c (layers ++ [⟨d.protocol, d.offset, len⟩]) d'

section Passes

variable {options : ParseOptions} {c c' d d' : Call} {len : ℕ} {layers : List Layer}

/-- A header in front of the way. -/
theorem Call.Passes.behind (hlen : c.verdict.headerLen = some len) (hstep : Call.Step options c c')
    (h : c'.Passes options layers d) :
    c.Passes options (⟨c.protocol, c.offset, len⟩ :: layers) d := by
  induction h with
  | here => exact .step .here hlen hstep
  | step _ hlen' hstep' ih => exact .step ih hlen' hstep'

/-- **A layer of a path is the header of a call**, with the headers in front of it on
the way there. -/
theorem Call.Path.exists_passes (h : c.Path options layers) {before after : List Layer} {l : Layer}
    (hsplit : layers = before ++ l :: after) (hl : l.protocol ≠ .raw) :
    ∃ d, c.Passes options before d ∧ l = ⟨d.protocol, d.offset, l.len⟩ ∧
      d.verdict.headerLen = some l.len := by
  induction h generalizing before with
  | raws hlayers =>
      rw [hsplit] at hlayers
      exact absurd (hlayers l (by simp)) hl
  | @last c len layers hlen hlayers =>
      cases before with
      | nil =>
          obtain ⟨rfl, -⟩ := List.cons.inj hsplit
          exact ⟨c, .here, rfl, hlen⟩
      | cons b before =>
          obtain ⟨-, rfl⟩ := List.cons.inj hsplit
          exact absurd (hlayers l (by simp)) hl
  | @cons c c' len layers hlen hstep hpath ih =>
      cases before with
      | nil =>
          obtain ⟨rfl, -⟩ := List.cons.inj hsplit
          exact ⟨c, .here, rfl, hlen⟩
      | cons b before =>
          obtain ⟨rfl, hrest⟩ := List.cons.inj hsplit
          obtain ⟨d, hpasses, heq, hheader⟩ := ih hrest
          exact ⟨d, hpasses.behind hlen hstep, heq, hheader⟩

/-- A call that passes on its layers leads to them. -/
theorem Call.Passes.leads (h : c.Passes options layers d) : Call.Leads options c d := by
  induction h with
  | here => exact .refl
  | step _ _ hstep ih => exact ih.tail hstep

end Passes

/-! ### Declared ends -/

/-- The captured bytes of a layer. -/
def Layer.header (l : Layer) (bytes : List UInt8) : List UInt8 := (bytes.drop l.offset).take l.len

/-- Where an IP header declares its payload to end; a zero declares nothing. -/
def declaredEnd (bytes : List UInt8) (l : Layer) : Option ℕ :=
  match l.protocol with
  | .ipv4 =>
    let totalLength := Ipv4Viewer.totalLength.peek (l.header bytes)
    if totalLength ≠ 0 then some (l.offset + totalLength) else none
  | .ipv6 =>
    let payloadLength := Ipv6Viewer.payloadLength.peek (l.header bytes)
    if payloadLength ≠ 0 then some (l.offset + 40 + payloadLength) else none
  | _ => none

/-- The end of a region that headers are passed in, cut by what they declare. -/
def cutBy (bytes : List UInt8) (stop : ℕ) (layers : List Layer) : ℕ :=
  layers.foldl (fun stop l => (declaredEnd bytes l).elim stop (min stop)) stop

/-- Cutting by layers, and by layers behind them. -/
theorem cutBy_append (bytes : List UInt8) (stop : ℕ) (xs ys : List Layer) :
    cutBy bytes stop (xs ++ ys) = cutBy bytes (cutBy bytes stop xs) ys := List.foldl_append

/-- Cutting does not move the end back. -/
theorem cutBy_le (bytes : List UInt8) (stop : ℕ) (layers : List Layer) :
    cutBy bytes stop layers ≤ stop := by
  induction layers generalizing stop with
  | nil => exact le_rfl
  | cons l layers ih =>
      have hfirst : (declaredEnd bytes l).elim stop (min stop) ≤ stop := by
        cases declaredEnd bytes l with
        | none => exact le_rfl
        | some e => exact min_le_left stop e
      exact (ih _).trans hfirst

section Region

variable {options : ParseOptions} {c d : Call} {len : ℕ} {layers : List Layer}

/-- Only an IP header declares an end. -/
theorem decode_eq_datagram {p : Protocol} {r : Region} {offset : ℕ} {payloadEnd : Option ℕ}
    {next : Next} (h : decode p r offset = .datagram len payloadEnd next) :
    p = .ipv4 ∨ p = .ipv6 := by
  cases p with
  | ipv4 => exact .inl rfl
  | ipv6 => exact .inr rfl
  | raw => cases h
  | mpls =>
      rw [decode] at h
      split at h <;> cases h
  | _ =>
      simp only [decode, decodeExtHeader, decodeDeclared, decodeToEnd, Region.need] at h
      split_ifs at h

/-- **A step cuts the region** where the header declares an end. -/
theorem step_region (h : Call.Step options c d) (hlen : c.verdict.headerLen = some len) :
    d.region.stop = cutBy c.region.bytes c.region.stop [⟨c.protocol, c.offset, len⟩] := by
  have hnarrow : ∀ payloadEnd : Option ℕ,
      (c.region.narrow payloadEnd).stop = payloadEnd.elim c.region.stop (min c.region.stop) := by
    intro payloadEnd
    cases payloadEnd <;> rfl
  show _ = (declaredEnd c.region.bytes ⟨c.protocol, c.offset, len⟩).elim _ _
  by_cases hip : c.protocol = .ipv4 ∨ c.protocol = .ipv6
  · obtain hip | hip := hip
    · obtain ⟨-, -, -, hregion⟩ := ipv4_step hip h hlen
      rw [hregion, hnarrow, declaredEnd, hip]
      rfl
    · obtain ⟨rfl, -, -, hregion⟩ := ipv6_step hip h hlen
      rw [hregion, hnarrow, declaredEnd, hip]
      rfl
  · have hnone : declaredEnd c.region.bytes ⟨c.protocol, c.offset, len⟩ = none := by
      unfold declaredEnd
      split
      · exact absurd (.inl ‹_›) hip
      · exact absurd (.inr ‹_›) hip
      · rfl
    rw [hnone]
    obtain ⟨-, n, -, -, ⟨-, hregion⟩ | ⟨payloadEnd, hverdict, -⟩⟩ := step_child h
    · rw [hregion]
      rfl
    · exact absurd (decode_eq_datagram hverdict) hip

/-- **The region of a call** is that of the first call, cut by the headers passed. -/
theorem Call.Passes.region (h : c.Passes options layers d) :
    d.region.bytes = c.region.bytes ∧
      d.region.stop = cutBy c.region.bytes c.region.stop layers := by
  induction h with
  | here => exact ⟨rfl, rfl⟩
  | step _ hlen hstep ih =>
      obtain ⟨hbytes, hstop⟩ := ih
      refine ⟨(step_bytes hstep).trans hbytes, ?_⟩
      rw [step_region hstep hlen, hbytes, hstop, cutBy_append]

end Region

/-! ### The carrier of a transport -/

/-- TCP and UDP. -/
def hasPorts (l : Layer) : Bool := l.protocol = .tcp ∨ l.protocol = .udp

/-- What is parsed for the next header of IP. -/
def IsCarried (p : Protocol) : Prop := p = .tcp ∨ p = .udp ∨ IsExtension p

section Carrier

variable {options : ParseOptions} {c d : Call} {layers : List Layer}

/-- A parser that goes on to no other one. -/
theorem next_ne_child {p q : Protocol} {r : Region} {offset : ℕ}
    (hp : p ∈ [Protocol.esp, .sctp, .icmp, .icmpv6, .igmp, .dns, .dhcp, .ntp, .tls, .raw]) :
    (decode p r offset).next ≠ some (.child q) := by
  intro h
  simp only [List.mem_cons, List.not_mem_nil, or_false] at hp
  obtain rfl | rfl | rfl | rfl | rfl | rfl | rfl | rfl | rfl | rfl := hp
  all_goals
    simp only [decode, decodeToEnd, Region.need] at h
    try split_ifs at h
    all_goals cases h

/-- A transport or a tunnel hands on to no transport and to no extension header. -/
theorem next_of_tunnel {p q : Protocol} {r : Region} {offset : ℕ}
    (hp : p = .tcp ∨ p = .udp ∨ p = .vxlan ∨ p = .gre)
    (h : (decode p r offset).next = some (.child q)) : ¬IsCarried q := by
  have hnot : ∀ {q : Protocol}, q ∈ [Protocol.eth, .ipv4, .ipv6, .tls, .dns, .dhcp, .ntp, .vxlan] →
      ¬IsCarried q := by
    unfold IsCarried IsExtension
    decide
  obtain rfl | rfl | rfl | rfl := hp <;> rw [decode] at h
  · have h := (need_next_eq_some h).2
    dsimp only at h
    split_ifs at h
    · cases h
    · have h := Option.some.inj (need_next_eq_some h).2
      split_ifs at h
      cases h
      exact hnot (by decide)
  · have h := Option.some.inj (need_next_eq_some h).2
    unfold Udp.service at h
    split_ifs at h <;> cases h <;> exact hnot (by decide)
  · cases (need_next_eq_some h).2
    exact hnot (by decide)
  · have h := Option.some.inj (need_next_eq_some (need_next_eq_some h).2).2
    unfold EthType.nextTunnelled at h
    split at h <;> cases h <;> exact hnot (by decide)

/-- **IP carries a transport**, directly or behind an extension header. -/
theorem ip_of_step (h : Call.Step options c d) (hd : IsCarried d.protocol) :
    (c.protocol = .ipv4 ∨ c.protocol = .ipv6) ∨ IsExtension c.protocol := by
  have hlink : ¬IsLink c.protocol := fun hc => by
    have houter := outer_of_step hc h
    generalize d.protocol = q at hd houter
    obtain rfl | rfl | rfl | rfl | rfl | rfl | rfl | rfl | rfl | rfl := hd <;>
      simp [IsOuter, IsLink] at houter
  obtain ⟨hnext, -⟩ := step_child h
  have htunnel : ¬(c.protocol = .tcp ∨ c.protocol = .udp ∨ c.protocol = .vxlan ∨
      c.protocol = .gre) := fun hc => next_of_tunnel hc hnext hd
  have hstop := fun hc => next_ne_child (p := c.protocol) hc hnext
  generalize c.protocol = p at *
  cases p <;> simp_all [IsLink, IsExtension]

/-- The way to a transport ends with an IP header and its extension headers. -/
theorem Call.Passes.carrier (h : c.Passes options layers d) (hc : IsRoot c.protocol)
    (hd : IsCarried d.protocol) : ∃ before ip between, layers = before ++ ip :: between ∧
      isIp ip = true ∧ ∀ m ∈ between, IsExtension m.protocol := by
  induction h with
  | here =>
      obtain hc | hc | hc | hc := hc <;> rw [hc] at hd <;> simp [IsCarried, IsExtension] at hd
  | @step d d' len layers hpasses _ hstep ih =>
      obtain hip | hext := ip_of_step hstep hd
      · exact ⟨layers, _, [], rfl, by simpa [isIp] using hip, List.forall_mem_nil _⟩
      · obtain ⟨before, ip, between, rfl, hip, hbetween⟩ := ih (.inr (.inr hext))
        refine ⟨before, ip, between ++ [_], by rw [List.append_assoc]; rfl, hip, fun m hm => ?_⟩
        obtain hm | hm := List.mem_append.1 hm
        · exact hbetween m hm
        · rw [List.mem_singleton.1 hm]
          exact hext

/-- **What IPv4 carries is right behind it**, and is what its protocol field names. -/
theorem Call.Passes.ipv4_carrier (h : c.Passes options layers d) {before between : List Layer}
    {ip : Layer} (hlayers : layers = before ++ ip :: between) (hip : ip.protocol = .ipv4)
    (hbetween : ∀ m ∈ between, IsExtension m.protocol) : between = [] ∧
      (IpProtocol.ofCode (Ipv4Viewer.protocol.peek (ip.header c.region.bytes))).nextIpv4 =
        .child d.protocol := by
  induction h generalizing between with
  | here => simp at hlayers
  | @step d d' len layers hpasses hlen hstep ih =>
      obtain rfl | ⟨rest, last, rfl⟩ := List.eq_nil_or_concat' between
      · obtain ⟨rfl, hlast⟩ := List.append_inj' hlayers rfl
        obtain rfl := (List.cons.inj hlast).1
        obtain ⟨-, -, hnext, -⟩ := ipv4_step hip hstep hlen
        rw [← hpasses.region.1]
        exact ⟨rfl, hnext⟩
      · rw [← List.cons_append, ← List.append_assoc] at hlayers
        obtain ⟨rfl, hlast⟩ := List.append_inj' hlayers rfl
        obtain rfl := (List.cons.inj hlast).1
        -- an extension header would be what IPv4 hands on to
        obtain ⟨-, hnext⟩ := ih rfl fun m hm => hbetween m (List.mem_append_left _ hm)
        have hext : IsExtension d.protocol :=
          hbetween ⟨d.protocol, d.offset, len⟩ (List.mem_append_right _ (by simp))
        generalize d.protocol = q at hnext hext
        unfold IpProtocol.nextIpv4 at hnext
        split at hnext <;> cases hnext <;> simp [IsExtension] at hext

end Carrier

/-! ### Parsed packets -/

/-- The last IP header of the layers in front of a layer. -/
def nearestIp (before : List Layer) : Option Layer := before.reverse.find? isIp

/-- Extension headers do not hide the IP header in front of them. -/
theorem nearestIp_eq {before between : List Layer} {ip : Layer} (hip : isIp ip = true)
    (hbetween : ∀ m ∈ between, IsExtension m.protocol) :
    nearestIp (before ++ ip :: between) = some ip := by
  have hnone : between.reverse.find? isIp = none := by
    refine List.find?_eq_none.2 fun m hm => ?_
    obtain h | h | h | h | h | h | h | h := hbetween m (List.mem_reverse.1 hm) <;> simp [isIp, h]
  rw [nearestIp, List.reverse_append, List.reverse_cons, List.append_assoc, List.find?_append, hnone,
    Option.none_or]
  exact List.find?_cons_of_pos hip

/-- What a parse returns is a parsed packet of the bytes. -/
theorem Parsed.of_ok {fuel : ℕ} {linkType : Capture.LinkType} {options : ParseOptions}
    {bytes : List UInt8} {packet : Maja.Packet} (hfuel : bytes.length < fuel)
    (h : tryParseWithLinkType fuel linkType options (new bytes) = .ok ((), packet)) :
    packet.bytes = bytes ∧ packet.Parsed := by
  have hbytes : packet.bytes = bytes := by
    rw [tryParseWithLinkType_new linkType hfuel, Trace.toPacket] at h
    split at h
    · cases h
      rfl
    · cases h
  refine ⟨hbytes, fuel, linkType, options, ?_, .inl ?_⟩
  · rwa [hbytes]
  · rwa [hbytes]

/-- **The call of a layer.**  Every layer of a parsed packet that is not raw is the
header of a call, on the way from a root through the headers in front of it. -/
theorem Parsed.exists_call {packet : Maja.Packet} (h : packet.Parsed) {before after : List Layer}
    {l : Layer} (hsplit : packet.layers = before ++ l :: after) (hl : l.protocol ≠ .raw) :
    ∃ options p d, IsRoot p ∧ (rootCall packet.bytes p).Passes options before d ∧
      l = ⟨d.protocol, d.offset, l.len⟩ ∧ d.verdict.headerLen = some l.len := by
  obtain hraw | ⟨options, p, hroot, hpath⟩ := h.path
  · exact absurd (hraw l (by simp [hsplit])) hl
  · obtain ⟨d, hpasses, heq, hlen⟩ := hpath.exists_passes hsplit hl
    exact ⟨options, p, d, hroot, hpasses, heq, hlen⟩

/-- **The carrier of a transport.**  In front of a TCP or UDP layer there is an IP
header, with nothing but extension headers between them. -/
theorem Parsed.carrier {packet : Maja.Packet} (h : packet.Parsed) {before after : List Layer}
    {l : Layer} (hsplit : packet.layers = before ++ l :: after) (hl : hasPorts l = true) :
    ∃ front ip between, before = front ++ ip :: between ∧ isIp ip = true ∧
      ∀ m ∈ between, IsExtension m.protocol := by
  have hports : l.protocol = .tcp ∨ l.protocol = .udp := by simpa [hasPorts] using hl
  have hraw : l.protocol ≠ .raw := by
    obtain h | h := hports <;> rw [h] <;> decide
  obtain ⟨options, p, d, hroot, hpasses, heq, -⟩ := h.exists_call hsplit hraw
  have hprotocol : l.protocol = d.protocol := congrArg Layer.protocol heq
  refine hpasses.carrier hroot ?_
  rw [← hprotocol]
  exact hports.imp_right .inl

end Packet
end Maja
