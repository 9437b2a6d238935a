/-
# Recorded headers are long enough

A parser records a header only when the fixed part of it was there, apart from the
IPv6 extension headers, which are recorded as far as the packet reaches.  So the
fields of every layer that a parse records can be read (`FullHeaders.field`), and so
can whatever a tool reads from a parsed packet.
-/

import Maja.Packet.Access
import Maja.Packet.LayerTable

namespace Maja
namespace Packet

open Lib

/-- The length of the shortest header that is recorded of a protocol. -/
def Protocol.minLen : Protocol → ℕ
  | eth => 14
  | vlan => 4
  | llc => 8
  | sll => 16
  | mpls => 4
  | arp => 8
  | ipv4 => 20
  | ipv6 => 40
  | ipv6Hopopt => 2
  | ipv6DestOpts => 2
  | ipv6Route => 2
  | ipv6Frag => 8
  | ah => 12
  | ipv6Mobility => 2
  | ipv6Hip => 2
  | ipv6Shim6 => 2
  | esp => 8
  | gre => 4
  | tcp => 20
  | udp => 8
  | sctp => 12
  | icmp => 4
  | icmpv6 => 4
  | igmp => 8
  | dns => 12
  | dhcp => 240
  | ntp => 48
  | vxlan => 8
  | tls => 5
  | raw => 1

/-- A verdict records no header that is shorter. -/
def Verdict.AtLeast (n : ℕ) : Verdict → Prop
  | fail _ => True
  | skip => True
  | unparsed => True
  | reject len _ => n ≤ len
  | header len _ => n ≤ len
  | datagram len _ _ => n ≤ len

section Decode

variable {r : Region} {protocol : Protocol} {offset len n : ℕ}

/-- A verdict behind a length check is long enough when it is for a header of this
length. -/
theorem Region.need_atLeast {k : List UInt8 → Verdict}
    (h : ∀ header, offset + len ≤ r.stop → (k header).AtLeast n) :
    (r.need protocol offset len k).AtLeast n := by
  unfold Region.need
  split_ifs with hlen
  · exact h _ hlen
  · trivial

/-- A header of a fixed length is long enough. -/
theorem Region.need_header_atLeast {next : List UInt8 → Next} (hlen : n ≤ len) :
    (r.need protocol offset len fun header => .header len (next header)).AtLeast n :=
  Region.need_atLeast fun _ _ => hlen

/-- A header of a declared length is as long as it says, or as the packet reaches. -/
theorem decodeDeclared_atLeast {declared : ℕ} (hdeclared : n ≤ declared)
    (hrest : n ≤ r.stop - offset) : (decodeDeclared r protocol offset declared).AtLeast n := by
  rw [decodeDeclared]
  exact Region.need_header_atLeast (le_min hdeclared hrest)

/-- An extension header has two bytes. -/
theorem decodeExtHeader_atLeast (fixedLen : ℕ) :
    (decodeExtHeader r protocol fixedLen offset).AtLeast 2 := by
  refine Region.need_atLeast fun header hlen => ?_
  split_ifs
  · trivial
  · exact decodeDeclared_atLeast (by omega) (by omega)

/-- A header up to the end has its fixed part. -/
theorem decodeToEnd_atLeast : (decodeToEnd r protocol n offset).AtLeast n :=
  Region.need_atLeast fun _ hlen => show n ≤ r.stop - offset by omega

/-- Whatever `decode` records is as long as the shortest header of its protocol. -/
theorem decode_atLeast (p : Protocol) (r : Region) (offset : ℕ) :
    (decode p r offset).AtLeast p.minLen := by
  cases p with
  | llc =>
    rw [decode]
    refine Region.need_atLeast fun _ _ => ?_
    split_ifs
    · exact Region.need_header_atLeast le_rfl
    · trivial
  | mpls =>
    rw [decode]
    cases hlast : r.labelStack (r.bytes.length + 1) offset with
    | error err => trivial
    | ok last => exact show 4 ≤ last - offset by have := Region.labelStack_bounds hlast; omega
  | arp =>
    rw [decode]
    refine Region.need_atLeast fun header _ => Region.need_header_atLeast ?_
    rw [Arp.len, Protocol.minLen]
    omega
  | ipv4 =>
    rw [decode]
    refine Region.need_atLeast fun header₀ _ => ?_
    dsimp only
    split_ifs with hmin
    · trivial
    · refine Region.need_atLeast fun header _ => ?_
      have hlen : 20 ≤ Ipv4Viewer.ihl.peek header₀ * 4 := Nat.not_lt.1 hmin
      split_ifs <;> exact hlen
  | ipv6 =>
    rw [decode]
    exact Region.need_atLeast fun _ _ => show 40 ≤ 40 from le_rfl
  | ah =>
    rw [decode]
    refine Region.need_atLeast fun header hlen => ?_
    split_ifs with hmin
    · trivial
    · exact decodeDeclared_atLeast (Nat.not_lt.1 hmin) (show 12 ≤ _ by omega)
  | gre =>
    rw [decode]
    refine Region.need_atLeast fun header _ => Region.need_header_atLeast ?_
    exact GreViewer.le_lenOfFlags (GreViewer.flags.peek header)
  | tcp =>
    rw [decode]
    refine Region.need_atLeast fun header₀ _ => ?_
    dsimp only
    split_ifs with hmin
    · trivial
    · exact Region.need_header_atLeast (Nat.not_lt.1 hmin)
  | tls =>
    rw [decode]
    exact Region.need_atLeast fun _ _ => Region.need_header_atLeast (Nat.le_add_right _ _)
  | ipv6Hopopt | ipv6DestOpts | ipv6Route | ipv6Mobility | ipv6Hip | ipv6Shim6 =>
    exact decodeExtHeader_atLeast _
  | sctp | icmp | icmpv6 | dns | dhcp | ntp => exact decodeToEnd_atLeast
  | raw => trivial
  | eth | vlan | sll | ipv6Frag | esp | udp | igmp | vxlan =>
    rw [decode]
    exact Region.need_header_atLeast le_rfl

end Decode

/-! ### The layers of a parse -/

/-- Every layer is as long as the shortest header of its protocol. -/
def FullHeaders (layers : List Layer) : Prop := ∀ l ∈ layers, l.protocol.minLen ≤ l.len

section Layers

variable {options : ParseOptions} {r : Region} {offset depth : ℕ}

/-- A raw layer has a byte. -/
theorem rawLayers_full : FullHeaders (rawLayers r offset) := by
  unfold rawLayers
  split_ifs with h
  · rintro l hl
    obtain rfl := List.mem_singleton.1 hl
    exact show 1 ≤ r.stop - offset by omega
  · exact fun _ hl => absurd hl List.not_mem_nil

/-- What follows a header is long enough when every child is. -/
theorem follow_full {child : Protocol → Trace} (h : ∀ p, FullHeaders (child p).layers)
    (next : Next) : FullHeaders (follow options child depth r offset next).layers := by
  cases next with
  | stop => exact fun _ hl => absurd hl List.not_mem_nil
  | raw => exact rawLayers_full
  | child p =>
    rw [follow]
    split_ifs
    · unfold Trace.fallback
      split
      · exact h p
      · split_ifs
        · exact rawLayers_full
        · exact h p
    · exact rawLayers_full

/-- A header that is long enough, with the layers behind it. -/
theorem Trace.enclose_full {t : Trace} {layer : Layer} {payloadEnd : Option ℕ}
    (hlayer : layer.protocol.minLen ≤ layer.len) (h : FullHeaders t.layers) :
    FullHeaders (t.enclose r layer payloadEnd).layers := by
  have htrailing : FullHeaders (trailingLayers r payloadEnd) := by
    cases payloadEnd with
    | none => exact fun _ hl => absurd hl List.not_mem_nil
    | some e => exact rawLayers_full
  unfold Trace.enclose
  split
  · refine List.forall_mem_cons.2 ⟨hlayer, fun l hl => ?_⟩
    obtain hl | hl := List.mem_append.1 hl
    · exact h l hl
    · exact htrailing l hl
  · exact List.forall_mem_cons.2 ⟨hlayer, h⟩

/-- The induction is on the fuel, as the descent goes. -/
theorem descend_full (options : ParseOptions) (fuel depth : ℕ) (r : Region) (p : Protocol)
    (offset : ℕ) : FullHeaders (descend options fuel depth r p offset).layers := by
  induction fuel generalizing depth r p offset with
  | zero => exact fun _ hl => absurd hl List.not_mem_nil
  | succ fuel ih =>
    have hlen := decode_atLeast p r offset
    rw [descend]
    cases hverdict : decode p r offset with
    | fail err => exact fun _ hl => absurd hl List.not_mem_nil
    | skip => exact fun _ hl => absurd hl List.not_mem_nil
    | unparsed => exact rawLayers_full
    | reject len err =>
      rw [hverdict] at hlen
      exact List.forall_mem_singleton.2 hlen
    | header len next =>
      rw [hverdict] at hlen
      exact Trace.enclose_full hlen (follow_full (fun _ => ih _ _ _ _) next)
    | datagram len payloadEnd next =>
      rw [hverdict] at hlen
      exact Trace.enclose_full hlen (follow_full (fun _ => ih _ _ _ _) next)

/-- Every layer of a parse is long enough. -/
theorem parseTrace_full (options : ParseOptions) (fuel : ℕ) (bytes : List UInt8)
    (linkType : Capture.LinkType) : FullHeaders (parseTrace options fuel bytes linkType).layers := by
  unfold parseTrace
  split
  · unfold rootTrace
    split_ifs
    · exact descend_full options fuel 0 (.whole bytes) _ 0
    · exact fun _ hl => absurd hl List.not_mem_nil
  · exact rawLayers_full
  · exact fun _ hl => absurd hl List.not_mem_nil

end Layers

/-! ### Reading a parsed packet -/

/-- A packet whose layers lie inside its bytes and are long enough. -/
structure Readable (packet : Maja.Packet) : Prop where
  inside : ∀ l ∈ packet.layers, l.offset + l.len ≤ packet.bytes.length
  full : FullHeaders packet.layers

/-- **A parse leaves a readable packet or an error**; it does not panic. -/
theorem tryParse_readable (linkType : Capture.LinkType) (bytes : List UInt8) :
    (∃ packet, Readable packet ∧
      tryParseWithLinkType (bytes.length + 1) linkType {} (.new bytes) = .ok ((), packet)) ∨
    ∃ err, tryParseWithLinkType (bytes.length + 1) linkType {} (.new bytes) = .err err := by
  rw [tryParseWithLinkType_new linkType (Nat.lt_succ_self _), Trace.toPacket]
  cases Trace.error _ with
  | none =>
    refine .inl ⟨_, ⟨?_, parseTrace_full {} _ bytes linkType⟩, rfl⟩
    exact (LayerTable.of_packed (parseTrace_packed {} _ bytes linkType)).inside
  | some err => exact .inr ⟨_, rfl⟩

section Reading

variable {ε : Type} {packet : Maja.Packet}

/-- The bytes of a layer are there. -/
theorem Readable.bytes (h : Readable packet) {l : Layer} (hl : l ∈ packet.layers) :
    ∃ header, (l.bytes packet.bytes : Outcome ε _) = .ok header ∧
      l.protocol.minLen ≤ header.length := by
  have hinside := h.inside l hl
  refine ⟨_, Outcome.slice_eq_ok (Nat.le_add_right _ _) hinside, ?_⟩
  rw [List.length_take, List.length_drop]
  have := h.full l hl
  omega

/-- **A viewer is found or not, and has the fixed part of its protocol.** -/
theorem Readable.viewer (h : Readable packet) (p : Protocol) (index : ℤ) :
    (packet.nthLayerViewer p index : Outcome ε _) = .ok none ∨
    ∃ header, (packet.nthLayerViewer p index : Outcome ε _) = .ok (some header) ∧
      p.minLen ≤ header.length := by
  unfold nthLayerViewer
  cases hlayer : packet.nthLayer p index with
  | none => exact .inl rfl
  | some l =>
    obtain ⟨hmem, rfl⟩ := nthLayer_eq_some hlayer
    obtain ⟨header, hheader, hlen⟩ := h.bytes hmem
    refine .inr ⟨header, ?_, hlen⟩
    dsimp only
    rw [hheader]
    rfl

/-- Reading goes on behind a viewer. -/
theorem Readable.viewer_bind {α : Type} (h : Readable packet) {p : Protocol} {index : ℤ}
    {f : Option (List UInt8) → Outcome ε α} (hnone : ∃ a, f none = .ok a)
    (hsome : ∀ header, p.minLen ≤ header.length → ∃ a, f (some header) = .ok a) :
    ∃ a, (packet.nthLayerViewer p index >>= f) = .ok a := by
  obtain hviewer | ⟨header, hviewer, hlen⟩ := h.viewer p index
  · rw [hviewer]
    exact hnone
  · rw [hviewer]
    exact hsome header hlen

/-- A field inside the fixed part can be read. -/
theorem Field.get_bind {α : Type} {f : Field} {header : List UInt8} (h : f.hi ≤ header.length)
    {k : ℕ → Outcome ε α} (hk : ∀ value, ∃ a, k value = .ok a) :
    ∃ a, (f.get header >>= k) = .ok a := by
  rw [Field.get_eq h]
  exact hk _

end Reading

end Packet
end Maja
