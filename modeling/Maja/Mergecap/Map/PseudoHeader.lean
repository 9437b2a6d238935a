/-
# The destination of the pseudo header

A routing header with segments left names the final destination, and the checksum of
the transport is over that one (`pseudo_header_dst`).  What the tool reads for it lies
in the IP header and its extension headers, at the places of the layer table
(`pseudoHeaderDst_eq_ok`).
-/

import Maja.Mergecap.Map.Rewriter
import Maja.Mergecap.Map.Frame

namespace Maja
namespace Mergecap

open Lib Packet

variable {ε : Type} {options : ParseOptions} {p q q' : Maja.Packet}

/-- The bytes of a layer. -/
def headerOf (packet : Maja.Packet) (l : Layer) : List UInt8 :=
  (packet.bytes.drop l.offset).take l.len

/-- The source address that an IP header shows. -/
def srcOf (packet : Maja.Packet) (ip : Layer) : ℕ :=
  if ip.protocol = .ipv4 then Ipv4Viewer.src.peek (headerOf packet ip)
  else Ipv6Viewer.src.peek (headerOf packet ip)

/-- The destination address that an IP header shows. -/
def dstOf (packet : Maja.Packet) (ip : Layer) : ℕ :=
  if ip.protocol = .ipv4 then Ipv4Viewer.dst.peek (headerOf packet ip)
  else Ipv6Viewer.dst.peek (headerOf packet ip)

/-- The extension headers right behind the outermost IP header. -/
def extensions (layers : List Layer) : List Layer := (behindIp layers).takeWhile isChainLayer

/-- The final destination of a routing header: the last address of a source route,
the first segment of segment routing. -/
def routeDst (route : List UInt8) : Option ℕ :=
  if Ipv6RouteViewer.routingType.peek route = Ipv6RouteViewer.SOURCE_ROUTE then
    (routeAddrs (route.drop 8)).getLast?
  else if Ipv6RouteViewer.routingType.peek route = Ipv6RouteViewer.SEGMENT_ROUTING then
    (routeAddrs (route.drop 8)).head?
  else none

/-- The destination of the pseudo header: the final destination of a routing header
with segments left, else that of the IP header. -/
def pseudoDst (packet : Maja.Packet) (ip : Layer) : Option ℕ :=
  if ip.protocol = .ipv4 then some (dstOf packet ip)
  else
    match (extensions packet.layers).find? fun l => l.protocol = .ipv6Route with
    | none => some (dstOf packet ip)
    | some l =>
      if Ipv6RouteViewer.segmentsLeft.peek (headerOf packet l) = 0 then some (dstOf packet ip)
      else routeDst (headerOf packet l)

/-! ### Routing headers -/

/-- The first address of a list, whose first bytes are enough. -/
theorem head?_routeAddrs (bytes : List UInt8) : (routeAddrs bytes).head? =
    if 16 ≤ bytes.length then some (beNat (bytes.take 16)) else none := by
  rw [routeAddrs, List.head?_map]
  split_ifs with hlen
  · obtain ⟨n, hn⟩ := Nat.exists_eq_add_of_lt (Nat.div_pos hlen (by decide))
    rw [hn, Nat.zero_add, List.range_succ_eq_map]
    rfl
  · rw [Nat.div_eq_of_lt (Nat.not_le.1 hlen)]
    rfl

/-- A routing payload of 4 bytes or more is that of its type. -/
theorem payload_eq_ok {type : ℕ} {parse : List UInt8 → Option (List UInt8)} {route : List UInt8}
    {data : Option (List UInt8)}
    (h : (Ipv6RouteViewer.payload type parse route : Outcome ε _) = .ok data) :
    data = if Ipv6RouteViewer.routingType.peek route = type then parse (route.drop 4) else none := by
  obtain ⟨found, hfound, h⟩ := Outcome.bind_eq_ok.1 h
  obtain rfl := (Field.get_eq_ok hfound).2
  by_cases htype : Ipv6RouteViewer.routingType.peek route = type
  · rw [if_neg (not_not_intro htype)] at h
    rw [if_pos htype]
    obtain ⟨bytes, hbytes, h⟩ := Outcome.bind_eq_ok.1 h
    rw [Ipv6RouteViewer.data] at hbytes
    obtain ⟨-, -, rfl⟩ := Outcome.slice_eq_ok_iff.1 hbytes
    rw [List.take_of_length_le (by simp)] at h
    exact (Outcome.ok.inj h).symm
  · rw [if_pos htype] at h
    rw [if_neg htype]
    exact (Outcome.ok.inj h).symm

/-- The addresses of a source route. -/
theorem type0_addrs_eq_ok {data : List UInt8} {addrs : List ℕ}
    (h : ((Ipv6RouteType0.parse data).elim (pure []) Ipv6RouteType0.addrs : Outcome ε _) =
      .ok addrs) : addrs = routeAddrs (data.drop 4) := by
  unfold Ipv6RouteType0.parse at h
  split_ifs at h with hlen
  · obtain ⟨bytes, hbytes, h⟩ := Outcome.bind_eq_ok.1 h
    obtain ⟨-, -, rfl⟩ := Outcome.slice_eq_ok_iff.1 hbytes
    rw [List.take_of_length_le (by simp)] at h
    exact (Outcome.ok.inj h).symm
  · obtain rfl := Outcome.ok.inj h
    rw [List.drop_eq_nil_of_le (by omega)]
    rfl

/-- The first segment of a segment list. -/
theorem srh_segments_eq_ok {data : List UInt8} {segments : List ℕ}
    (h : ((Ipv6Srh.parse data).elim (pure []) Ipv6Srh.segments : Outcome ε _) = .ok segments) :
    segments.head? = (routeAddrs (data.drop 4)).head? := by
  unfold Ipv6Srh.parse at h
  split_ifs at h with hlen
  · obtain ⟨len, hcount, h⟩ := Outcome.bind_eq_ok.1 h
    obtain ⟨lastEntry, -, hcount⟩ := Outcome.bind_eq_ok.1 hcount
    obtain rfl := Outcome.ok.inj hcount
    obtain ⟨bytes, hbytes, h⟩ := Outcome.bind_eq_ok.1 h
    obtain ⟨-, -, rfl⟩ := Outcome.slice_eq_ok_iff.1 hbytes
    obtain rfl := Outcome.ok.inj h
    rw [head?_routeAddrs, head?_routeAddrs, List.length_take, List.take_take, List.length_drop,
      Nat.add_sub_cancel_left]
    by_cases hfirst : 16 ≤ data.length - 4
    · rw [if_pos (by omega), if_pos hfirst, Nat.min_eq_left (by omega)]
    · rw [if_neg (by omega), if_neg hfirst]
  · obtain rfl := Outcome.ok.inj h
    rw [List.drop_eq_nil_of_le (by omega)]
    rfl

/-- **The final destination of a routing header.** -/
theorem finalDst_eq_ok {route : List UInt8} {dst : Option ℕ}
    (h : (finalDst route : Outcome ε _) = .ok dst) : dst = routeDst route := by
  obtain ⟨type0, htype0, h⟩ := Outcome.bind_eq_ok.1 h
  obtain ⟨addrs, haddrs, h⟩ := Outcome.bind_eq_ok.1 h
  obtain rfl := payload_eq_ok htype0
  unfold routeDst
  by_cases hsource : Ipv6RouteViewer.routingType.peek route = Ipv6RouteViewer.SOURCE_ROUTE
  · rw [if_pos hsource] at haddrs ⊢
    obtain rfl := type0_addrs_eq_ok haddrs
    rw [List.drop_drop] at h
    cases hlast : (routeAddrs (route.drop 8)).getLast? with
    | some last =>
        rw [hlast] at h
        exact (Outcome.ok.inj h).symm
    | none =>
        rw [hlast] at h
        obtain ⟨srh, hsrh, h⟩ := Outcome.bind_eq_ok.1 h
        obtain rfl := payload_eq_ok hsrh
        rw [if_neg (by rw [hsource]; decide)] at h
        exact (Outcome.ok.inj h).symm
  · rw [if_neg hsource] at haddrs ⊢
    obtain rfl := Outcome.ok.inj haddrs
    obtain ⟨srh, hsrh, h⟩ := Outcome.bind_eq_ok.1 h
    obtain ⟨segments, hsegments, h⟩ := Outcome.bind_eq_ok.1 h
    obtain rfl := Outcome.ok.inj h
    obtain rfl := payload_eq_ok hsrh
    split_ifs at hsegments ⊢
    · rw [srh_segments_eq_ok hsegments, List.drop_drop]
    · obtain rfl := Outcome.ok.inj hsegments
      rfl

/-! ### Reading the rewritten packet -/

section Reads

variable (o : Outermost p options)

/-- A layer of the table is read as its bytes. -/
theorem Rewrites.bytes_headerOf (h : Rewrites p q) (htable : LayerTable p.bytes p.layers) {l : Layer}
    (hl : l ∈ p.layers) : (l.bytes q.bytes : Outcome ε _) = .ok (headerOf q l) := by
  have hinside := htable.inside l hl
  rw [Layer.bytes, Outcome.slice_eq_ok (Nat.le_add_right _ _) (h.bytes.length ▸ hinside),
    Nat.add_sub_cancel_left, headerOf]

/-- Another layer keeps its bytes when a field of one is set. -/
theorem headerOf_eq {l t : Layer} {f : Field} (htable : LayerTable p.bytes p.layers)
    (hl : l ∈ p.layers) (ht : t ∈ p.layers) (hne : l ≠ t)
    (hbytes : AgreesOutside (fieldRange t f) q.bytes q'.bytes) : headerOf q' l = headerOf q l := by
  refine hbytes.take_drop_eq fun k hlo hhi hk => ?_
  have hdisjoint := htable.disjoint hl ht hne
  have hlt := hk.2
  have hge := hk.1
  omega

/-- The extension headers are layers of the packet. -/
theorem extensions_mem {layers : List Layer} {l : Layer} (hl : l ∈ extensions layers) :
    l ∈ layers ∧ IsExtension l.protocol :=
  ⟨(List.dropWhile_suffix _).subset
      (List.mem_of_mem_tail ((List.takeWhile_prefix _).subset hl)),
    isChainLayer_iff.1 (List.mem_takeWhile_imp hl)⟩

include o in
/-- The extension headers of the outermost header are viewed. -/
theorem Rewrites.chainViewer_eq (h : Rewrites p q) (htable : LayerTable p.bytes p.layers)
    (hip : o.ip.protocol = .ipv6) (protocol : Protocol) :
    (chainViewer q protocol : Outcome ε _) =
      .ok (((extensions p.layers).find? fun l => l.protocol = protocol).map (headerOf q)) := by
  rw [chainViewer, h.chain_eq, (chainLayers_eq o hip).2, Option.bind_some, extensions,
    o.behindIp_eq]
  cases hfind : (o.after.takeWhile isChainLayer).find? fun l => l.protocol = protocol with
  | none => rfl
  | some l =>
      have hl := List.mem_of_find?_eq_some hfind
      rw [← o.behindIp_eq] at hl
      dsimp only
      rw [h.bytes_headerOf htable (extensions_mem hl).1]
      rfl

include o in
/-- **The destination of the pseudo header.** -/
theorem pseudoHeaderDst_eq_ok (h : Rewrites p q) (htable : LayerTable p.bytes p.layers)
    (hip : o.ip.protocol = .ipv6) {dst : Option ℕ}
    (hdst : (pseudoHeaderDst q (dstOf q o.ip) : Outcome ε _) = .ok dst) :
    dst = pseudoDst q o.ip := by
  have hne : ¬o.ip.protocol = .ipv4 := by rw [hip]; decide
  rw [pseudoHeaderDst, h.chainViewer_eq o htable hip, Outcome.ok_bind] at hdst
  rw [pseudoDst, if_neg hne, h.layers]
  cases hroute : (extensions p.layers).find? fun l => l.protocol = .ipv6Route with
  | none =>
      rw [hroute] at hdst
      exact (Outcome.ok.inj hdst).symm
  | some l =>
      rw [hroute, Option.map_some] at hdst
      obtain ⟨segmentsLeft, hleft, hdst⟩ := Outcome.bind_eq_ok.1 hdst
      obtain rfl := (Field.get_eq_ok hleft).2
      dsimp only
      split_ifs at hdst ⊢
      · exact (Outcome.ok.inj hdst).symm
      · exact finalDst_eq_ok hdst

end Reads

end Mergecap
end Maja
