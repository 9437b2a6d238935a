/-
# Layers of a packet

The accessors of `Packet` in `src/packet.rs`, and the payloads of the IPv6 routing
header in `src/packet/layer/ip/v6/ext/route`.  A viewer is the bytes of its layer;
a viewer that is written through changes these bytes in place.
-/

import Maja.Packet.Parse

namespace Maja
namespace Packet

open Lib

/-- `Packet::nth_layer`: from the innermost one at `0`, or from the outermost one
at `-1`. -/
def nthLayer (packet : Packet) (protocol : Protocol) (index : ℤ) : Option Layer :=
  let matching := packet.layers.filter fun layer => layer.protocol = protocol
  if 0 ≤ index then matching.reverse[index.toNat]? else matching[index.natAbs - 1]?

/-- `Packet::nth_layer_range`. -/
def nthLayerRange (packet : Packet) (protocol : Protocol) (index : ℤ) : Option Span :=
  (packet.nthLayer protocol index).map Layer.range

/-- `Packet::nth_layer_viewer`. -/
def nthLayerViewer {ε : Type} (packet : Packet) (protocol : Protocol) (index : ℤ) :
    Outcome ε (Option (List UInt8)) :=
  match packet.nthLayer protocol index with
  | some layer => do
    let bytes ← layer.bytes packet.bytes
    pure (some bytes)
  | none => pure none

/-- A layer that is found is one of the packet, of its protocol. -/
theorem nthLayer_eq_some {packet : Packet} {protocol : Protocol} {index : ℤ} {l : Layer}
    (h : packet.nthLayer protocol index = some l) : l ∈ packet.layers ∧ l.protocol = protocol := by
  have hfilter : l ∈ packet.layers.filter fun layer => layer.protocol = protocol := by
    unfold nthLayer at h
    dsimp only at h
    split_ifs at h
    · exact List.mem_reverse.1 (List.mem_of_getElem? h)
    · exact List.mem_of_getElem? h
  simpa using hfilter

/-- Looking for a viewer takes no loop. -/
theorem nthLayerViewer_ne_outOfFuel {ε : Type} (packet : Packet) (protocol : Protocol) (index : ℤ) :
    (packet.nthLayerViewer protocol index : Outcome ε _) ≠ .outOfFuel := by
  unfold nthLayerViewer
  split
  · exact Outcome.bind_ne_outOfFuel Outcome.slice_ne_outOfFuel fun _ _ => by simp
  · simp

/-- Reading a field takes no loop. -/
theorem Field.get_ne_outOfFuel {ε : Type} (f : Field) (bytes : List UInt8) :
    (f.get bytes : Outcome ε ℕ) ≠ .outOfFuel :=
  Outcome.bind_ne_outOfFuel Outcome.slice_ne_outOfFuel fun _ _ => by simp

/-- `set` of a field through the mutable viewer of a layer. -/
def setField {ε : Type} (packet : Packet) (layer : Layer) (f : Field) (value : ℕ) :
    Outcome ε Packet := do
  let bytes ← layer.bytes packet.bytes
  let bytes ← f.put bytes value
  pure { packet with
    bytes := packet.bytes.take layer.offset ++ bytes ++ packet.bytes.drop (layer.offset + layer.len) }

/-- Setting a field changes its bytes and nothing else, and the layer has room for
it. -/
theorem setField_eq_ok {ε : Type} {packet packet' : Packet} {layer : Layer} {f : Field} {value : ℕ}
    (h : (packet.setField layer f value : Outcome ε _) = .ok packet') :
    packet'.layers = packet.layers ∧ f.hi ≤ layer.len ∧
      layer.offset + layer.len ≤ packet.bytes.length ∧
      AgreesOutside (Set.Ico (layer.offset + f.lo) (layer.offset + f.hi)) packet.bytes
        packet'.bytes := by
  obtain ⟨bytes, hbytes, h⟩ := Outcome.bind_eq_ok.1 h
  obtain ⟨bytes', hput, h⟩ := Outcome.bind_eq_ok.1 h
  obtain rfl := Outcome.ok.inj h
  unfold Layer.bytes Outcome.slice at hbytes
  split_ifs at hbytes with hle
  obtain rfl := Outcome.ok.inj hbytes
  obtain ⟨hhi, hagree⟩ := Field.put_eq_ok hput
  rw [Nat.add_sub_cancel_left] at hagree hhi
  rw [List.length_take, List.length_drop] at hhi
  refine ⟨rfl, by omega, hle.2, (hagree.splice hle.2).mono ?_⟩
  rintro k ⟨hk, -, hlo, hhi⟩
  exact ⟨by omega, by omega⟩

/-- What was set is read back. -/
theorem get_setField {ε : Type} {packet packet' : Packet} {layer : Layer} {f : Field} {value : ℕ}
    (hmask : f.spec.mask = U64_MAX) (hshift : f.spec.shift = 0)
    (h : (packet.setField layer f value : Outcome ε _) = .ok packet') :
    ∃ header, (layer.bytes packet'.bytes : Outcome ε _) = .ok header ∧
      (f.get header : Outcome ε ℕ) = .ok (value % 256 ^ f.spec.size) := by
  obtain ⟨bytes, hbytes, h⟩ := Outcome.bind_eq_ok.1 h
  obtain ⟨bytes', hput, h⟩ := Outcome.bind_eq_ok.1 h
  obtain rfl := Outcome.ok.inj h
  unfold Layer.bytes Outcome.slice at hbytes
  split_ifs at hbytes with hle
  obtain rfl := Outcome.ok.inj hbytes
  have hlength := (Field.put_eq_ok hput).2.length
  rw [Nat.add_sub_cancel_left, List.length_take, List.length_drop] at hlength
  refine ⟨bytes', ?_, Field.get_put hmask hshift hput⟩
  have hoffset : (packet.bytes.take layer.offset).length = layer.offset := by simp; omega
  unfold Layer.bytes
  rw [Outcome.slice_eq_ok (by omega) (by simp; omega), List.append_assoc,
    List.drop_left' hoffset, List.take_left' (by omega)]

/-- A field of the header that a layer views. -/
def getField {ε : Type} (packet : Packet) (layer : Layer) (f : Field) : Outcome ε ℕ := do
  let bytes ← layer.bytes packet.bytes
  f.get bytes

/-- A field is read, or not, whatever the errors around it are. -/
theorem getField_eq_ok {ε ε' : Type} {packet : Packet} {layer : Layer} {f : Field} {value : ℕ}
    (h : (packet.getField layer f : Outcome ε ℕ) = .ok value) :
    (packet.getField layer f : Outcome ε' ℕ) = .ok value := by
  obtain ⟨header, hheader, hget⟩ := Outcome.bind_eq_ok.1 h
  obtain ⟨hhi, rfl⟩ := Field.get_eq_ok hget
  unfold Layer.bytes Outcome.slice at hheader
  split_ifs at hheader with hle
  obtain rfl := Outcome.ok.inj hheader
  rw [getField, Layer.bytes, Outcome.slice_eq_ok hle.1 hle.2, Outcome.ok_bind, Field.get_eq hhi]

/-- A field that was set is read back, cut to its width. -/
theorem getField_setField {ε : Type} {packet packet' : Packet} {layer : Layer} {f : Field}
    {value : ℕ} (hmask : f.spec.mask = U64_MAX) (hshift : f.spec.shift = 0)
    (h : (packet.setField layer f value : Outcome ε _) = .ok packet') :
    (packet'.getField layer f : Outcome ε ℕ) = .ok (value % 256 ^ f.spec.size) := by
  obtain ⟨header, hheader, hget⟩ := get_setField hmask hshift h
  rw [getField, hheader, Outcome.ok_bind, hget]

/-- Setting a field leaves the fields beside it. -/
theorem getField_setField_of_disjoint {ε : Type} {packet packet' : Packet} {layer : Layer}
    {f g : Field} {value : ℕ} (hdisjoint : f.hi ≤ g.lo ∨ g.hi ≤ f.lo)
    (h : (packet.setField layer f value : Outcome ε _) = .ok packet') :
    (packet'.getField layer g : Outcome ε ℕ) = packet.getField layer g := by
  obtain ⟨-, -, hroom, hagree⟩ := setField_eq_ok h
  have hheader := hagree.take_drop layer.offset layer.len
  have hbeside : ∀ k, g.lo ≤ k → k < g.hi →
      layer.offset + k ∉ Set.Ico (layer.offset + f.lo) (layer.offset + f.hi) := by
    intro k hlo hhi hmem
    have h₁ : layer.offset + f.lo ≤ layer.offset + k := hmem.1
    have h₂ : layer.offset + k < layer.offset + f.hi := hmem.2
    omega
  have hword : (Outcome.slice _ g.lo g.hi : Outcome ε _) = Outcome.slice _ g.lo g.hi :=
    hheader.slice_eq hbeside
  unfold getField Layer.bytes
  rw [Outcome.slice_eq_ok (by omega) hroom, Outcome.slice_eq_ok (by omega) (hagree.length ▸ hroom),
    Outcome.ok_bind, Outcome.ok_bind, Nat.add_sub_cancel_left, Field.get, Field.get, hword]

/-! ### Routing headers -/

variable {ε : Type}

/-- `Ipv6RouteAddrs`: the complete addresses at the start of the bytes. -/
def routeAddrs (bytes : List UInt8) : List ℕ :=
  (List.range (bytes.length / 16)).map fun k => beNat ((bytes.drop (16 * k)).take 16)

/-- `Ipv6RouteType0::parse`, of the type-specific data. -/
def Ipv6RouteType0.parse (data : List UInt8) : Option (List UInt8) :=
  if 4 ≤ data.length then some data else none

/-- `Ipv6RouteType0::addrs`. -/
def Ipv6RouteType0.addrs (data : List UInt8) : Outcome ε (List ℕ) := do
  let bytes ← Outcome.slice data 4 data.length
  pure (routeAddrs bytes)

/-- `Ipv6Srh::parse`, of the type-specific data. -/
def Ipv6Srh.parse (data : List UInt8) : Option (List UInt8) :=
  if 4 ≤ data.length then some data else none

/-- `Ipv6Srh::FIELD_LAST_ENTRY`. -/
def Ipv6Srh.lastEntry : Field := { lo := 0, hi := 1, spec := { size := 1 } }

/-- `Ipv6Srh::segment_list_len`. -/
def Ipv6Srh.segmentListLen (data : List UInt8) : Outcome ε ℕ := do
  let lastEntry ← lastEntry.get data
  let declared := (lastEntry + 1) * 16
  let available := data.length - 4
  pure (min declared (available - available % 16))

/-- `Ipv6Srh::segments`: the first one is the last segment of the path. -/
def Ipv6Srh.segments (data : List UInt8) : Outcome ε (List ℕ) := do
  let len ← segmentListLen data
  let bytes ← Outcome.slice data 4 (4 + len)
  pure (routeAddrs bytes)

namespace Ipv6RouteViewer

/-- `Ipv6RouteType::SourceRoute`. -/
def SOURCE_ROUTE : ℕ := 0
/-- `Ipv6RouteType::SegmentRouting`. -/
def SEGMENT_ROUTING : ℕ := 4

/-- `Ipv6RouteViewer::data`. -/
def data (header : List UInt8) : Outcome ε (List UInt8) :=
  Outcome.slice header Ipv6Route.MIN_LEN header.length

/-- A payload of a routing type. -/
def payload (type : ℕ) (parse : List UInt8 → Option (List UInt8)) (header : List UInt8) :
    Outcome ε (Option (List UInt8)) := do
  let routingType ← routingType.get header
  if routingType ≠ type then pure none
  else do
    let data ← data header
    pure (parse data)

/-- `Ipv6RouteViewer::type0`. -/
def type0 (header : List UInt8) : Outcome ε (Option (List UInt8)) :=
  payload SOURCE_ROUTE Ipv6RouteType0.parse header

/-- `Ipv6RouteViewer::srh`. -/
def srh (header : List UInt8) : Outcome ε (Option (List UInt8)) :=
  payload SEGMENT_ROUTING Ipv6Srh.parse header

end Ipv6RouteViewer

end Packet
end Maja
