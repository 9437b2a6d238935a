/-
# The frame of address rewriting

Everything that a rewriter writes lies in `mayChange`, a set of positions that the
layer table determines: the addresses of the outermost IP header, the header checksum
when it is an IPv4 header, and the checksum of the transport that it carries.  The
table itself stays as it is.  So each further step reads what the packet said before
the first one, whatever was written since: where the outermost header lies, and which
transport it carries (`Rewrites.outerTransport_eq`).
-/

import Maja.Mergecap.Map.Envelope
import Maja.Packet.Shown

namespace Maja
namespace Mergecap

open Lib Packet

variable {ε : Type}

/-- The positions of a field of a layer, as far as the layer reaches. -/
def fieldRange (l : Layer) (f : Field) : Set ℕ :=
  Set.Ico (l.offset + f.lo) (l.offset + min f.hi l.len)

/-- The field of a checksum over the pseudo header. -/
def checksumField : Protocol → Option Field
  | .tcp => some TcpViewer.checksum
  | .udp => some UdpViewer.checksum
  | .icmpv6 => some Icmpv6Viewer.checksum
  | _ => none

/-- The address and checksum fields of an IP header. -/
def ipFields (ip : Layer) : List Field :=
  if ip.protocol = .ipv4 then [Ipv4Viewer.checksum, Ipv4Viewer.src, Ipv4Viewer.dst]
  else [Ipv6Viewer.src, Ipv6Viewer.dst]

/-- The addresses and the header checksum of the outermost IP header. -/
def ipRange (layers : List Layer) : Set ℕ :=
  {k | ∃ ip f, outerIp layers = some ip ∧ f ∈ ipFields ip ∧ k ∈ fieldRange ip f}

/-- The checksum of the transport that it carries. -/
def transportRange (layers : List Layer) : Set ℕ :=
  {k | ∃ t f, carried layers = some t ∧ checksumField t.protocol = some f ∧ k ∈ fieldRange t f}

/-- The positions that rewriting may change. -/
def mayChange (layers : List Layer) : Set ℕ := ipRange layers ∪ transportRange layers

/-- One packet is the other with its addresses and checksums rewritten. -/
structure Rewrites (packet packet' : Maja.Packet) : Prop where
  layers : packet'.layers = packet.layers
  bytes : AgreesOutside (mayChange packet.layers) packet.bytes packet'.bytes

/-- One packet is the other with its IP header rewritten. -/
structure Readdresses (packet packet' : Maja.Packet) : Prop where
  layers : packet'.layers = packet.layers
  bytes : AgreesOutside (ipRange packet.layers) packet.bytes packet'.bytes

section Steps

variable {p q r : Maja.Packet}

/-- Setting a field of a layer changes positions of the field. -/
theorem fieldRange_of_setField {l : Layer} {f : Field} {value : ℕ}
    (hset : (q.setField l f value : Outcome ε _) = .ok r) :
    r.layers = q.layers ∧ AgreesOutside (fieldRange l f) q.bytes r.bytes := by
  obtain ⟨hlayers, hhi, -, hbytes⟩ := setField_eq_ok hset
  have hrange : fieldRange l f = Set.Ico (l.offset + f.lo) (l.offset + f.hi) := by
    rw [fieldRange, Nat.min_eq_left hhi]
  exact ⟨hlayers, hrange ▸ hbytes⟩

namespace Readdresses

/-- A packet with its own addresses. -/
theorem refl (p : Maja.Packet) : Readdresses p p := ⟨rfl, .refl _ _⟩

/-- A packet with other addresses is a rewritten one. -/
theorem rewrites (h : Readdresses p q) : Rewrites p q :=
  ⟨h.layers, h.bytes.mono Set.subset_union_left⟩

/-- Setting one of the fields of the header rewrites it. -/
theorem setField {ip : Layer} {f : Field} {value : ℕ} (h : Readdresses p q)
    (hip : outerIp p.layers = some ip) (hf : f ∈ ipFields ip)
    (hset : (q.setField ip f value : Outcome ε _) = .ok r) : Readdresses p r := by
  obtain ⟨hlayers, hbytes⟩ := fieldRange_of_setField hset
  exact ⟨hlayers.trans h.layers, h.bytes.trans (hbytes.mono fun _ hk => ⟨ip, f, hip, hf, hk⟩)⟩

end Readdresses

namespace Rewrites

/-- A packet is rewritten to itself. -/
theorem refl (p : Maja.Packet) : Rewrites p p := ⟨rfl, .refl _ _⟩

/-- Rewriting a rewritten packet. -/
theorem trans (h : Rewrites p q) (h' : Rewrites q r) : Rewrites p r :=
  ⟨h'.layers.trans h.layers, h.bytes.trans (h.layers ▸ h'.bytes)⟩

/-- Setting the checksum of the transport is a rewriting. -/
theorem setField {t : Layer} {f : Field} {value : ℕ} (h : Rewrites p q)
    (ht : carried p.layers = some t) (hf : checksumField t.protocol = some f)
    (hset : (q.setField t f value : Outcome ε _) = .ok r) : Rewrites p r := by
  obtain ⟨hlayers, hbytes⟩ := fieldRange_of_setField hset
  exact ⟨hlayers.trans h.layers, h.bytes.trans (hbytes.mono fun _ hk => .inr ⟨t, f, ht, hf, hk⟩)⟩

/-- A rewritten packet has the layers of the packet. -/
theorem nthLayer_eq (h : Rewrites p q) (protocol : Protocol) (index : ℤ) :
    q.nthLayer protocol index = p.nthLayer protocol index := by
  rw [nthLayer, nthLayer, h.layers]

/-- A rewritten packet is of the family of the packet. -/
theorem outerIpFamily_eq (h : Rewrites p q) : outerIpFamily q = outerIpFamily p := by
  rw [outerIpFamily, outerIpFamily, h.nthLayer_eq, h.nthLayer_eq]

end Rewrites

end Steps

section Reads

variable {options : ParseOptions} {p q : Maja.Packet} (o : Outermost p options)

/-- The carried layer is one of the table. -/
theorem carried_mem {layers : List Layer} {t : Layer} (ht : carried layers = some t) :
    t ∈ layers := by
  have hbehind : ∀ l ∈ behindIp layers, l ∈ layers := fun l hl =>
    (List.dropWhile_suffix _).subset (List.mem_of_mem_tail hl)
  unfold carried at ht
  split at ht
  · split_ifs at ht
    · exact hbehind t (List.mem_of_mem_head? ht)
    · exact hbehind t ((List.dropWhile_suffix isChainLayer).subset (List.mem_of_mem_head? ht))
  · cases ht

/-- A position that may change lies in a layer of an IP header or of a transport. -/
theorem not_mem_mayChange (htable : LayerTable p.bytes p.layers) {l : Layer} (hl : l ∈ p.layers)
    (hip : ∀ ip f, outerIp p.layers = some ip → f ∈ ipFields ip → l = ip → False)
    (hchecksum : checksumField l.protocol = none) {k : ℕ} (hlo : l.offset ≤ k)
    (hhi : k < l.offset + l.len) : k ∉ mayChange p.layers := by
  rintro (⟨ip, f, hip', hf, hk⟩ | ⟨t, f, ht, hf, hk⟩)
  · have := htable.disjoint hl (List.mem_of_find?_eq_some hip') (hip ip f hip' hf)
    have hlt := hk.2
    have hge := hk.1
    omega
  · have hne : l ≠ t := by
      rintro rfl
      rw [hchecksum] at hf
      cases hf
    have := htable.disjoint hl (carried_mem ht) hne
    have hlt := hk.2
    have hge := hk.1
    omega

/-- **A layer that is neither an IP header nor a transport is not changed.** -/
theorem Rewrites.layer_bytes_eq (h : Rewrites p q) (htable : LayerTable p.bytes p.layers) {l : Layer}
    (hl : l ∈ p.layers) (hip : isIp l = false) (hchecksum : checksumField l.protocol = none) :
    (l.bytes q.bytes : Outcome ε _) = l.bytes p.bytes := by
  refine h.bytes.slice_eq fun k hlo hhi => not_mem_mayChange htable hl ?_ hchecksum hlo hhi
  rintro ip f hip' - rfl
  rw [List.find?_some hip'] at hip
  cases hip

/-- The bytes of the outermost IP header, in a packet with the same layers. -/
def Outermost.header (bytes : List UInt8) : List UInt8 :=
  (bytes.drop o.ip.offset).take o.ip.len

/-- The outermost IP header is that of the call that recorded it. -/
theorem header_eq : Outermost.header o p.bytes = o.call.header o.len := by
  rw [Outermost.header, Call.header, o.bytes]
  rfl

/-- The outermost IP header of a rewritten packet can be read. -/
theorem Rewrites.ip_bytes_eq (h : Rewrites p q) (htable : LayerTable p.bytes p.layers) :
    (o.ip.bytes q.bytes : Outcome ε _) = .ok (Outermost.header o q.bytes) := by
  have hinside := htable.inside o.ip o.ip_mem
  rw [Layer.bytes, Outcome.slice_eq_ok (Nat.le_add_right _ _) (h.bytes.length ▸ hinside),
    Nat.add_sub_cancel_left, Outermost.header]

/-- It has the length of its layer. -/
theorem Rewrites.length_header (h : Rewrites p q) (htable : LayerTable p.bytes p.layers) :
    (Outermost.header o q.bytes).length = o.ip.len := by
  have hinside := htable.inside o.ip o.ip_mem
  rw [Outermost.header, List.length_take, List.length_drop, h.bytes.length]
  omega

/-- **A field of the IP header that lies before the rewritten ones keeps its value.** -/
theorem Rewrites.ip_peek_eq (h : Rewrites p q) (htable : LayerTable p.bytes p.layers) {f : Field}
    (hhi : f.hi ≤ o.ip.len) (hf : ∀ g ∈ ipFields o.ip, f.hi ≤ g.lo) :
    f.peek (Outermost.header o q.bytes) = f.peek (Outermost.header o p.bytes) := by
  have hagree := h.bytes.take_drop o.ip.offset o.ip.len
  have hget : (f.get (Outermost.header o q.bytes) : Outcome Empty ℕ) =
      f.get (Outermost.header o p.bytes) := by
    refine Field.get_congr hagree fun k hlo hk => ?_
    rintro (⟨ip, g, hip, hg, hmem⟩ | ⟨t, g, ht, hg, hmem⟩)
    · obtain rfl := Option.some.inj (o.outerIp_eq.symm.trans hip)
      have hge := hmem.1
      have := hf g hg
      omega
    · have hne : o.ip ≠ t := by
        rintro rfl
        obtain hip | hip := (show o.ip.protocol = .ipv4 ∨ o.ip.protocol = .ipv6 from o.isIp) <;>
          rw [hip] at hg <;> cases hg
      have := htable.disjoint o.ip_mem (carried_mem ht) hne
      have hge := hmem.1
      have hlt := hmem.2
      omega
  rw [Field.get_eq (by rw [h.length_header o htable]; exact hhi),
    Field.get_eq (by rw [(Rewrites.refl p).length_header o htable]; exact hhi)] at hget
  exact Outcome.ok.inj hget

/-- The outermost IP header has its fixed part. -/
theorem ip_len (hip : o.ip.protocol = .ipv4 ∨ o.ip.protocol = .ipv6) :
    o.ip.protocol.shownLen ≤ o.ip.len := by
  refine shownLen_le ?_ o.headerLen
  obtain hip | hip := hip <;> simp [Protocol.MayOverread, hip]

include o in
/-- The viewer of the outermost IP header. -/
theorem Rewrites.outerIp_viewer (h : Rewrites p q) (htable : LayerTable p.bytes p.layers) :
    (q.nthLayerViewer o.ip.protocol (-1) : Outcome ε _) = .ok (some (Outermost.header o q.bytes)) := by
  rw [nthLayerViewer, h.nthLayer_eq, (outermost_family o htable).2]
  dsimp only
  rw [h.ip_bytes_eq o htable, Outcome.ok_bind]
  rfl

/-- A field of the header in the rewritten packet is read as in the original. -/
theorem Rewrites.ip_get_eq (h : Rewrites p q) (htable : LayerTable p.bytes p.layers) {f : Field}
    (hhi : f.hi ≤ o.ip.len) (hf : ∀ g ∈ ipFields o.ip, f.hi ≤ g.lo) :
    (f.get (Outermost.header o q.bytes) : Outcome ε ℕ) =
      .ok (f.peek (Outermost.header o p.bytes)) := by
  rw [Field.get_eq (by rw [h.length_header o htable]; exact hhi), h.ip_peek_eq o htable hhi hf]

/-- IPv4 names its transport in the header. -/
theorem Rewrites.outerTransport_ipv4 (h : Rewrites p q) (htable : LayerTable p.bytes p.layers)
    (hip : o.ip.protocol = .ipv4) : (outerTransport q : Outcome ε _) =
      .ok (some (.ofCode (Ipv4Viewer.protocol.peek (Outermost.header o p.bytes)))) := by
  have hlen := ip_len o (.inl hip)
  rw [hip] at hlen
  have hfamily : outerIpFamily q = some .v4 := by
    rw [h.outerIpFamily_eq, (outermost_family o htable).1, familyOf, if_pos hip]
  have hview := h.outerIp_viewer (ε := ε) o htable
  rw [hip] at hview
  rw [outerTransport, if_pos hfamily, outerIpv4, hview, Outcome.ok_bind]
  dsimp only
  rw [h.ip_get_eq o htable (show 10 ≤ _ from le_trans (by decide) hlen)
    (by rw [ipFields, if_pos hip]; decide)]
  rfl

/-- The extension headers keep the numbers of their next headers. -/
theorem followChain_congr {bytes bytes' : List UInt8} {layers : List Layer}
    (h : ∀ l ∈ layers, (l.bytes bytes' : Outcome ε _) = l.bytes bytes) (first : ℕ) :
    (followChain bytes' first layers : Outcome ε ℕ) = followChain bytes first layers := by
  induction layers generalizing first with
  | nil => rfl
  | cons l layers ih =>
      rw [followChain, followChain, h l List.mem_cons_self]
      refine congrArg _ (funext fun header => congrArg _ (funext fun b => ?_))
      exact ih (fun l hl => h l (List.mem_cons_of_mem _ hl)) _

/-- An extension header has no addresses and no checksum. -/
theorem checksumField_of_extension {l : Layer} (h : IsExtension l.protocol) :
    isIp l = false ∧ checksumField l.protocol = none := by
  obtain h | h | h | h | h | h | h | h := h <;> simp [isIp, h, checksumField]

/-- An extension header is not changed. -/
theorem Rewrites.chain_bytes_eq (h : Rewrites p q) (htable : LayerTable p.bytes p.layers)
    {chain : List Layer} (hchain : chainLayers p = some chain) {l : Layer} (hl : l ∈ chain) :
    (l.bytes q.bytes : Outcome ε _) = l.bytes p.bytes := by
  rw [chainLayers, Option.map_eq_some_iff] at hchain
  obtain ⟨start, -, rfl⟩ := hchain
  have hmem := List.mem_of_mem_drop ((List.takeWhile_prefix _).subset hl)
  obtain ⟨hip, hchecksum⟩ :=
    checksumField_of_extension (isChainLayer_iff.1 (List.mem_takeWhile_imp hl))
  exact h.layer_bytes_eq htable hmem hip hchecksum

/-- A rewritten packet has the extension headers of the packet. -/
theorem Rewrites.chain_eq (h : Rewrites p q) : chainLayers q = chainLayers p := by
  rw [chainLayers, chainLayers, h.layers]

/-- IPv6 names its transport behind the extension headers. -/
theorem Rewrites.nextHeader_eq (h : Rewrites p q) (htable : LayerTable p.bytes p.layers)
    (hip : o.ip.protocol = .ipv6) : (nextHeader q : Outcome ε _) = nextHeader p := by
  have hlen := ip_len o (.inr hip)
  rw [hip] at hlen
  obtain ⟨hfind, hchain⟩ := chainLayers_eq o hip
  have hget : ∀ q, Rewrites p q → (Ipv6Viewer.nextHeader.get (Outermost.header o q.bytes) :
      Outcome ε ℕ) = .ok (Ipv6Viewer.nextHeader.peek (Outermost.header o p.bytes)) := fun q h =>
    h.ip_get_eq o htable (show 7 ≤ _ from le_trans (by decide) hlen)
      (by rw [ipFields, if_neg (by rw [hip]; decide)]; decide)
  rw [nextHeader, nextHeader, h.chain_eq, h.layers, hfind, hchain]
  dsimp only
  rw [h.ip_bytes_eq o htable, (Rewrites.refl p).ip_bytes_eq o htable, Outcome.ok_bind,
    Outcome.ok_bind, hget q h, hget p (.refl p), Outcome.ok_bind, Outcome.ok_bind,
    followChain_congr fun l hl => h.chain_bytes_eq htable hchain hl]

include o in
/-- **The transport that the packet carries stays the same.** -/
theorem Rewrites.outerTransport_eq (h : Rewrites p q) (htable : LayerTable p.bytes p.layers) :
    (outerTransport q : Outcome ε _) = outerTransport p := by
  obtain hip | hip := (show o.ip.protocol = .ipv4 ∨ o.ip.protocol = .ipv6 from o.isIp)
  · rw [h.outerTransport_ipv4 o htable hip, (Rewrites.refl p).outerTransport_ipv4 o htable hip]
  · have hfamily : ¬outerIpFamily p = some .v4 := by
      rw [(outermost_family o htable).1, familyOf, if_neg (by rw [hip]; decide)]
      decide
    rw [outerTransport, outerTransport, h.outerIpFamily_eq, if_neg hfamily, if_neg hfamily,
      h.nextHeader_eq o htable hip]

end Reads

end Mergecap
end Maja
