/-
# Built packets

What a packet holds that `build` makes of the library's builders.  Its layer table
splits the bytes at the headers, so every span ends with the packet; each header is
the one that its builder describes; and a checksum that the caller left to the
builder validates over the finished packet, against the addresses of the IPv4
header around it.
-/

import Maja.Packet.Written

namespace Maja
namespace Packet

open Lib

namespace Builder

/-- The checksum that the caller gave. -/
def givenChecksum : Builder → Option UInt16
  | eth _ => none
  | ipv4 b => b.checksum
  | tcp b => b.checksum
  | udp b => b.checksum
  | icmpEcho b => b.checksum
  | raw _ => none

/-- The addresses that a builder passes on to its children. -/
def addresses : Builder → Option Ipv4CraftContext
  | ipv4 b => some ⟨b.effectiveSrc, b.effectiveDst⟩
  | _ => none

/-- A header verifies, over its segment where the checksum covers one.  Without
addresses, TCP and UDP store no checksum. -/
def Verifies (checks : Bool) (b : Builder) (parent : Option Ipv4CraftContext)
    (header segment : List UInt8) : Prop :=
  match b, parent with
  | ipv4 _, _ => (Ipv4Viewer.validateChecksum checks header : Outcome CraftError _) = .ok true
  | tcp _, some p => (TcpViewer.validateChecksumIpv4 checks p.src p.dst segment :
      Outcome CraftError _) = .ok true
  | tcp _, none => TcpViewer.checksum.peek header = 0
  | udp _, some p => (UdpViewer.validateChecksumIpv4 checks p.src p.dst segment :
      Outcome CraftError _) = .ok true
  | udp _, none => UdpViewer.checksum.peek header = 0
  | icmpEcho _, _ =>
    (IcmpViewer.validateChecksum checks segment : Outcome CraftError _) = .ok true
  | _, _ => True

end Builder

/-- The addresses of the innermost IPv4 builder around a position of a stack. -/
def parentOf (builders : List Builder) (i : ℕ) : Option Ipv4CraftContext :=
  (builders.take i).reverse.findSome? Builder.addresses

/-! ### Stored checksums -/

section Stored

variable {checks : Bool} {b : Builder} {context : CraftContext} {plan : CraftPlan}
  {child : Option Protocol} {field : Field} {behind filled header : List UInt8} {value : ℕ}

/-- The checksum of ICMP does not look at the field that it is stored in. -/
theorem IcmpViewer.storesIn {ε : Type} :
    StoresIn checksum (calculateChecksum checks : _ → Outcome ε ℕ) where
  congr _ _ h := by
    simp only [calculateChecksum, internetChecksumZeroing]
    rw [addWordsZeroing_congr h]
  lt _ _ h := by
    obtain ⟨sum, -, h⟩ := Outcome.bind_eq_ok.1 h
    obtain rfl := Outcome.ok.inj h
    exact foldChecksum_lt sum

/-- A checksum that was calculated over a segment and stored in its header is right
there. -/
theorem storedEquals_append {calculate : List UInt8 → Outcome CraftError ℕ}
    (h : StoresIn field calculate) (hsize : field.spec.size = 2) (hmask : field.spec.mask = U64_MAX)
    (hshift : field.spec.shift = 0) (hcalculate : calculate (filled ++ behind) = .ok value)
    (hstored : (field.put filled value : Outcome CraftError _) = .ok header) :
    storedEquals field (header ++ behind) (calculate (header ++ behind)) = .ok true := by
  obtain ⟨hhi, hagree⟩ := Field.put_eq_ok hstored
  refine h.storedEquals hsize (hagree.append_right behind) hcalculate ?_
  have hget := Field.get_put hmask hshift hstored
  obtain ⟨hhi', hpeek⟩ := Field.get_eq_ok hget
  rw [Field.get_eq (by rw [List.length_append]; omega), hpeek, ← Field.peek_take field hhi',
    List.take_left]

/-- A given checksum is stored as it is. -/
theorem Builder.Stores.given
    (h : b.Stores checks context plan child field behind filled value header)
    (hfield : b.checksumField = some field) (hregular : field.Regular) {c : UInt16}
    (hc : b.givenChecksum = some c) : field.peek header = c.toNat % 2 ^ field.width := by
  have hvalue := h.calculated
  have hcalc : b.checksumOf checks context plan (filled ++ behind) = .ok c.toNat := by
    cases b with
    | eth => cases hc
    | raw => cases hc
    | _ => simp only [givenChecksum] at hc; simp [checksumOf, hc, givenOr]
  rw [hcalc] at hvalue
  obtain rfl := Outcome.ok.inj hvalue
  exact Field.peek_put hregular h.stored

/-- **A calculated checksum verifies.** -/
theorem Builder.Stores.verifies
    (h : b.Stores checks context plan child field behind filled value header)
    (hfield : b.checksumField = some field) (hnone : b.givenChecksum = none) :
    b.Verifies checks context.ipv4 header (header ++ behind) := by
  have hvalue := h.calculated
  have hstored := h.stored
  cases b with
  | eth => trivial
  | raw => trivial
  | ipv4 b =>
    obtain rfl := Option.some.inj hfield
    simp only [givenChecksum] at hnone
    simp only [checksumOf, hnone, givenOr] at hvalue
    obtain ⟨slice, hslice, hvalue⟩ := Outcome.bind_eq_ok.1 hvalue
    obtain ⟨-, -, rfl⟩ := Outcome.slice_eq_ok_iff.1 hslice
    rw [List.drop_zero, Nat.sub_zero, List.take_left' h.length] at hvalue
    rw [← List.append_nil filled] at hvalue
    have hright := storedEquals_append Ipv4Viewer.storesIn rfl rfl rfl hvalue hstored
    rw [List.append_nil] at hright
    exact hright
  | tcp b =>
    obtain rfl := Option.some.inj hfield
    simp only [givenChecksum] at hnone
    simp only [checksumOf, hnone, givenOr, withParent] at hvalue
    cases hparent : context.ipv4 with
    | some p =>
      rw [hparent] at hvalue
      exact storedEquals_append TcpViewer.storesIn_ipv4 rfl rfl rfl hvalue hstored
    | none =>
      rw [hparent] at hvalue
      obtain rfl := Outcome.ok.inj hvalue
      exact Field.peek_put (by decide) hstored
  | udp b =>
    obtain rfl := Option.some.inj hfield
    simp only [givenChecksum] at hnone
    simp only [checksumOf, hnone, givenOr, withParent] at hvalue
    cases hparent : context.ipv4 with
    | some p =>
      rw [hparent] at hvalue
      have hright := storedEquals_append UdpViewer.storesIn_ipv4 rfl rfl rfl hvalue hstored
      obtain ⟨hhi, hagree⟩ := Field.put_eq_ok hstored
      have hlength := hagree.length
      show (UdpViewer.validateChecksumIpv4 checks p.src p.dst (header ++ behind) :
        Outcome CraftError _) = .ok true
      rw [UdpViewer.validateChecksumIpv4, Field.get_eq (by rw [List.length_append]; omega),
        Outcome.ok_bind]
      split_ifs
      · rfl
      · exact hright
    | none =>
      rw [hparent] at hvalue
      obtain rfl := Outcome.ok.inj hvalue
      exact Field.peek_put (by decide) hstored
  | icmpEcho b =>
    obtain rfl := Option.some.inj hfield
    simp only [givenChecksum] at hnone
    simp only [checksumOf, hnone, givenOr] at hvalue
    exact storedEquals_append IcmpViewer.storesIn rfl rfl rfl hvalue hstored

end Stored

/-! ### The stack of a built packet -/

section Built

variable {checks : Bool} {builders : List Builder} {packet : CraftedPacket Protocol} {i : ℕ}
  {b : Builder} {bytes : List UInt8} {context : CraftContext} {offset stop : ℕ}
  {measured : List (MeasuredLayer Protocol)} {m : MeasuredLayer Protocol}

/-- **Every span ends where the outermost one does**: plans are exact. -/
theorem Crafted.stop_eq
    (h : Crafted bytes context offset (builders.map (Builder.layer checks)) measured)
    (hhead : ∀ m ∈ measured.head?, offset + m.plan.totalLen = stop) :
    ∀ m ∈ measured, m.stop = stop := by
  induction builders generalizing context offset measured with
  | nil =>
    cases h
    simp
  | cons b builders ih =>
    cases h with
    | @cons _ _ _ _ plan inner slice hplan fits blank written behind =>
      have hstop : offset + plan.totalLen = stop := hhead _ rfl
      have htotal := (Builder.measure_plans hplan).total
      refine List.forall_mem_cons.2 ⟨hstop, ih behind fun child hchild => ?_⟩
      rw [Option.mem_def.1 hchild] at htotal
      have : plan.totalLen = plan.layerLen + child.plan.totalLen := htotal
      omega

/-- The headers fill the span of the outermost layer. -/
theorem Crafted.sum_layerLen
    (h : Crafted bytes context offset (builders.map (Builder.layer checks)) measured)
    (hne : builders ≠ []) (hhead : ∀ m ∈ measured.head?, offset + m.plan.totalLen = stop) :
    offset + (measured.map fun m => m.plan.layerLen).sum = stop := by
  induction builders generalizing context offset measured with
  | nil => exact absurd rfl hne
  | cons b builders ih =>
    cases h with
    | @cons _ _ _ _ plan inner slice hplan fits blank written behind =>
      have hstop : offset + plan.totalLen = stop := hhead _ rfl
      have htotal := (Builder.measure_plans hplan).total
      rw [List.map_cons, List.sum_cons, ← Nat.add_assoc]
      dsimp only
      cases builders with
      | nil =>
        cases behind
        have : plan.totalLen = plan.layerLen + 0 := htotal
        rw [List.map_nil, List.sum_nil]
        omega
      | cons child builders =>
        refine ih behind (List.cons_ne_nil _ _) fun c hc => ?_
        rw [Option.mem_def.1 hc] at htotal
        have : plan.totalLen = plan.layerLen + c.plan.totalLen := htotal
        omega

/-- The addresses that a layer is written with are those of the IPv4 builder around
it. -/
theorem Crafted.context_eq (h : Crafted bytes {} 0 (builders.map (Builder.layer checks)) measured)
    (hm : measured[i]? = some m) : m.context.ipv4 = parentOf builders i := by
  induction i generalizing m with
  | zero =>
    rw [(h.head hm).1]
    rfl
  | succ i ih =>
    have hlength := h.length_eq
    obtain ⟨hlt, -⟩ := List.getElem?_eq_some_iff.1 hm
    rw [List.length_map] at hlength
    have hb : builders[i]? = some builders[i] := List.getElem?_eq_getElem (by omega)
    have hprev : measured[i]? = some measured[i] := List.getElem?_eq_getElem (by omega)
    have hlayer : (builders.map (Builder.layer checks))[i]? =
        some (builders[i].layer checks) := by
      rw [List.getElem?_map, hb]
      rfl
    rw [(h.context_succ hlayer hprev hm).1, parentOf, List.take_add_one, hb, Option.toList_some,
      List.reverse_append, List.reverse_singleton, List.singleton_append, List.findSome?_cons]
    cases builders[i] with
    | ipv4 b => rfl
    | _ => exact ih hprev

/-- A layer of a built packet: what its builder wrote, in a span that ends with the
packet. -/
structure BuiltAt (checks : Bool) (builders : List Builder) (packet : CraftedPacket Protocol)
    (i : ℕ) (b : Builder) (m : MeasuredLayer Protocol) (slice : List UInt8) : Prop where
  layer : packet.layers[i]? = some ⟨b.protocol, m.offset, m.plan.layerLen⟩
  stop : m.offset + m.plan.totalLen = packet.bytes.length
  parent : m.context.ipv4 = parentOf builders i
  crafted : ∃ next : Option (MeasuredLayer Protocol),
    next.map MeasuredLayer.protocol = builders[i + 1]?.map Builder.protocol ∧
      CraftedAt packet.bytes (b.layer checks) m next slice

/-- The builders keep to their headers, so what they built is crafted. -/
theorem crafted_of_build (h : (stackOf checks builders).build = .ok packet) :
    ∃ measured, Crafted packet.bytes {} 0 (builders.map (Builder.layer checks)) measured ∧
      packet.layers = collectLayers measured ∧
      ∀ m ∈ measured.head?, 0 + m.plan.totalLen = packet.bytes.length := by
  have hkeeps : ∀ layer ∈ (stackOf checks builders).layers, layer.KeepsToHeader := by
    intro layer hlayer
    obtain ⟨b, -, rfl⟩ := List.mem_map.1 hlayer
    exact b.keepsToHeader checks
  obtain ⟨measured, -, hcrafted, hlayers, hlength⟩ := PacketStack.build_crafted hkeeps h
  exact ⟨measured, hcrafted, hlayers, fun m hm => by rw [Nat.zero_add, hlength m hm]⟩

/-- Every builder wrote its header into the packet. -/
theorem build_at (h : (stackOf checks builders).build = .ok packet)
    (hb : builders[i]? = some b) : ∃ m slice, BuiltAt checks builders packet i b m slice := by
  obtain ⟨measured, hcrafted, hlayers, hhead⟩ := crafted_of_build h
  have hlayer : (builders.map (Builder.layer checks))[i]? = some (b.layer checks) := by
    rw [List.getElem?_map, hb]
    rfl
  obtain ⟨m, slice, hm, hat⟩ := hcrafted.at_index hlayer
  refine ⟨m, slice, ?_, ?_, hcrafted.context_eq hm, measured[i + 1]?, ?_, hat⟩
  · rw [hlayers, collectLayers, List.getElem?_map, hm, Option.map_some, hat.protocol,
      Builder.layer_protocol]
  · exact hcrafted.stop_eq hhead m (List.mem_of_getElem? hm)
  · cases hnext : builders[i + 1]? with
    | none =>
      have hle := List.getElem?_eq_none_iff.1 hnext
      rw [List.getElem?_eq_none (by rw [hcrafted.length_eq]; simpa [stackOf] using hle)]
      rfl
    | some c =>
      have hlayer' : (builders.map (Builder.layer checks))[i + 1]? = some (c.layer checks) := by
        rw [List.getElem?_map, hnext]
        rfl
      obtain ⟨m', _, hm', hat'⟩ := hcrafted.at_index hlayer'
      rw [hm', Option.map_some, Option.map_some, hat'.protocol, Builder.layer_protocol]

variable {slice : List UInt8}

/-- The bytes of a layer, from its header on. -/
theorem BuiltAt.segment (h : BuiltAt checks builders packet i b m slice) :
    (packet.bytes.drop m.offset).take m.plan.totalLen = packet.bytes.drop m.offset := by
  have hstop := h.stop
  exact List.take_of_length_le (by rw [List.length_drop]; omega)

/-- A slice has room for the header. -/
theorem BuiltAt.layerLen_le (h : BuiltAt checks builders packet i b m slice) :
    m.plan.layerLen ≤ slice.length := by
  obtain ⟨next, -, hat⟩ := h.crafted
  have hplans := Builder.measure_plans hat.measured
  have hlength := (b.layer checks).length_write hat.written
  have hstop := h.stop
  rw [List.length_take, List.length_drop] at hlength
  have := hplans.total
  omega

/-- The header of a layer is what its builder describes. -/
theorem BuiltAt.header (h : BuiltAt checks builders packet i b m slice) :
    ((packet.bytes.drop m.offset).take m.plan.layerLen).length = m.plan.layerLen ∧
      Describes (b.puts m.plan (builders[i + 1]?.map Builder.protocol)) b.checksumField b.fixedLen
        b.tail ((packet.bytes.drop m.offset).take m.plan.layerLen) := by
  obtain ⟨next, hnext, hat⟩ := h.crafted
  obtain ⟨header, hdescribes, hheader, hwritten⟩ :=
    Builder.write_describes hat.measured hat.blank h.layerLen_le hat.written
  rw [h.segment] at hwritten
  rw [hwritten, List.take_left' hheader, ← hnext]
  rw [childProtocol, Option.map_map] at hdescribes
  exact ⟨hheader, hdescribes⟩

/-- The checksum of a layer is the given one, or one that verifies. -/
theorem BuiltAt.checksum {field : Field} (h : BuiltAt checks builders packet i b m slice)
    (hfield : b.checksumField = some field) :
    (∀ c ∈ b.givenChecksum,
      field.peek ((packet.bytes.drop m.offset).take m.plan.layerLen) = c.toNat) ∧
      (b.givenChecksum = none → b.Verifies checks (parentOf builders i)
        ((packet.bytes.drop m.offset).take m.plan.layerLen) (packet.bytes.drop m.offset)) := by
  obtain ⟨next, -, hat⟩ := h.crafted
  obtain ⟨filled, value, header, hstores, hwritten⟩ :=
    Builder.write_stores hat.measured hat.blank h.layerLen_le hfield hat.written
  have hlength := (Field.put_eq_ok hstores.stored).2.length.trans hstores.length
  rw [h.segment] at hwritten
  rw [hwritten, List.take_left' hlength, ← h.parent]
  refine ⟨fun c hc => ?_, hstores.verifies hfield⟩
  have hwidth : field.width = 16 := by
    cases b <;> simp only [Builder.checksumField, Option.some.injEq, reduceCtorEq] at hfield <;>
      subst hfield <;> rfl
  have hregular : field.Regular := by
    cases b <;> simp only [Builder.checksumField, Option.some.injEq, reduceCtorEq] at hfield <;>
      subst hfield <;> decide
  rw [hstores.given hfield hregular (Option.mem_def.1 hc), hwidth]
  exact Nat.mod_eq_of_lt c.toNat_lt

/-- A built packet has one layer for every builder. -/
theorem length_layers (h : (stackOf checks builders).build = .ok packet) :
    packet.layers.length = builders.length := by
  obtain ⟨measured, hcrafted, hlayers, -⟩ := crafted_of_build h
  rw [hlayers, collectLayers, List.length_map, hcrafted.length_eq]
  exact List.length_map ..

end Built

/-! ### The headers of a built packet -/

/-- The measures of a layer that the layer table records. -/
def CraftedPacket.planAt (packet : CraftedPacket Protocol) (l : CraftedLayer Protocol) :
    CraftPlan := ⟨l.len, packet.bytes.length - l.offset⟩

/-- The bytes of a layer. -/
def CraftedPacket.headerAt (packet : CraftedPacket Protocol) (l : CraftedLayer Protocol) :
    List UInt8 := (packet.bytes.drop l.offset).take l.len

/-- **What is in a built packet.**  Every builder has an entry in the layer table,
under its protocol; the entries fill the packet; and the bytes of each are the header
that its builder describes above the protocol of the next, to the last bit but for
the checksum: what was set is read, the caller's bytes follow, and the rest is
zero. -/
theorem build_describes (checks : Bool) (builders : List Builder)
    (packet : CraftedPacket Protocol) (h : (stackOf checks builders).build = .ok packet) :
    packet.layers.length = builders.length ∧
    (packet.layers.map CraftedLayer.len).sum = packet.bytes.length ∧
    ∀ i (b : Builder), builders[i]? = some b →
      ∃ l, packet.layers[i]? = some l ∧ l.protocol = b.protocol ∧
      (packet.headerAt l).length = l.len ∧
      Describes (b.puts (packet.planAt l) (builders[i + 1]?.map Builder.protocol)) b.checksumField
        b.fixedLen b.tail (packet.headerAt l) := by
  obtain ⟨measured, hcrafted, hlayers, hhead⟩ := crafted_of_build h
  have hne : builders ≠ [] := by
    rintro rfl
    cases h
  refine ⟨length_layers h, ?_, fun i b hb => ?_⟩
  · have hsum := hcrafted.sum_layerLen hne hhead
    rw [hlayers, collectLayers, List.map_map, ← hsum, Nat.zero_add]
    rfl
  · obtain ⟨m, slice, hbuilt⟩ := build_at h hb
    obtain ⟨hheader, hdescribes⟩ := hbuilt.header
    have hplan : packet.planAt ⟨b.protocol, m.offset, m.plan.layerLen⟩ = m.plan := by
      have hstop := hbuilt.stop
      have htotal : packet.bytes.length - m.offset = m.plan.totalLen := by omega
      rw [CraftedPacket.planAt, htotal]
    exact ⟨_, hbuilt.layer, rfl, hheader, hplan ▸ hdescribes⟩

/-- A datagram with options of three bytes, padded to a word, and two bytes of payload. -/
def datagram : List Builder :=
  [.eth {}, .ipv4 { src := some 0xC0000201#32, dst := some 0xC0000202#32, options := [1, 1, 1] },
    .udp { srcPort := some 5000, dstPort := some 6000 }, .raw { bytes := [0x68, 0x69] }]

def datagramPacket : CraftedPacket Protocol where
  bytes := [0, 0, 0, 0, 0, 0, 0, 0, 0, 0, 0, 0, 8, 0, 70, 0, 0, 34, 0, 0, 0, 0, 64, 17, 243, 198, 192,
    0, 2, 1, 192, 0, 2, 2, 1, 1, 1, 0, 19, 136, 23, 112, 0, 10, 232, 116, 104, 105]
  layers := [⟨.eth, 0, 14⟩, ⟨.ipv4, 14, 24⟩, ⟨.udp, 38, 8⟩, ⟨.raw, 46, 2⟩]

/-- The example is built. -/
theorem build_datagram : (stackOf true datagram).build = .ok datagramPacket := by decide +kernel

/-- The layers of the example are as long as its bytes. -/
theorem build_describes_datagram :
    (datagramPacket.layers.map CraftedLayer.len).sum = datagramPacket.bytes.length :=
  (build_describes true datagram datagramPacket build_datagram).2.1

/-- **The checksums of a built packet.**  A checksum that the caller gave is stored as
it is.  One that was left to the builder verifies in the finished packet: over the
header for IPv4, over everything from the header on for the others, with the
addresses that the IPv4 builder around them writes. -/
theorem build_checksums (checks : Bool) (builders : List Builder)
    (packet : CraftedPacket Protocol) (h : (stackOf checks builders).build = .ok packet) (i : ℕ)
    (b : Builder) (hb : builders[i]? = some b) : ∃ l, packet.layers[i]? = some l ∧
      (∀ c ∈ b.givenChecksum, ∀ f ∈ b.checksumField,
        f.peek (packet.headerAt l) = c.toNat) ∧
      (b.givenChecksum = none →
        b.Verifies checks (parentOf builders i) (packet.headerAt l)
          (packet.bytes.drop l.offset)) := by
  obtain ⟨m, slice, hbuilt⟩ := build_at h hb
  refine ⟨_, hbuilt.layer, ?_⟩
  cases hfield : b.checksumField with
  | none =>
    refine ⟨by simp, fun _ => ?_⟩
    cases b with
    | eth => trivial
    | raw => trivial
    | ipv4 => cases hfield
    | tcp => cases hfield
    | udp => cases hfield
    | icmpEcho => cases hfield
  | some field =>
    obtain ⟨hgiven, hverifies⟩ := hbuilt.checksum hfield
    refine ⟨fun c hc f hf => ?_, hverifies⟩
    obtain rfl := Option.some.inj (Option.mem_def.1 hf)
    exact hgiven c hc

/-- The UDP checksum of the example verifies. -/
theorem build_checksums_datagram :
    (UdpViewer.validateChecksumIpv4 true 0xC0000201 0xC0000202 (datagramPacket.bytes.drop 38) :
      Outcome CraftError _) = .ok true := by
  obtain ⟨l, hl, -, hverifies⟩ :=
    build_checksums true datagram datagramPacket build_datagram 2 _ rfl
  obtain rfl := Option.some.inj hl
  exact hverifies rfl

end Packet
end Maja
