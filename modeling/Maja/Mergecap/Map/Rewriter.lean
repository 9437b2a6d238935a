/-
# The address rewriter of a file

`Rewriter` of `tools/maja-mergecap/src/map.rs`, the checksums that it sets right
behind an address, and `transport_segment` of `map/packet.rs`.  `checks` says
whether the build has overflow checks.
-/

import Maja.Mergecap.Map.Direct
import Maja.Mergecap.Map.Flow
import Maja.Packet.Checksum

namespace Maja
namespace Mergecap

open Lib Packet

section Checksums

variable {ε : Type}

/-- The layer that `transport_segment` looks for. -/
def segmentLayer : IpProtocol → Option Protocol
  | .tcp => some .tcp
  | .udp => some .udp
  | .ipv6Icmp => some .icmpv6
  | _ => none

/-- The end of `transport_segment`: from the transport header to the end that the IP
header at `ipOffset` declares. -/
def segmentBehind (packet : Maja.Packet) (ipOffset headerLen payloadLen : ℕ) :
    Outcome ε (Option (List UInt8)) := do
  let protocol ← outerTransport packet
  match (protocol.bind segmentLayer).bind fun layer => packet.nthLayerRange layer (-1) with
  | none => pure none
  | some range =>
    if range.start < ipOffset + headerLen then pure none
    else
      let stop := if payloadLen = 0 then packet.bytes.length else ipOffset + headerLen + payloadLen
      if range.start ≤ stop ∧ stop ≤ packet.bytes.length then
        pure (some ((packet.bytes.drop range.start).take (stop - range.start)))
      else pure none

/-- `transport_segment`. -/
def transportSegment (packet : Maja.Packet) : Outcome ε (Option (List UInt8)) :=
  match outerIpFamily packet with
  | none => pure none
  | some .v4 => do
    match ← outerIpv4 packet with
    | none => pure none
    | some ipv4 =>
      let headerLen ← Ipv4Viewer.headerLen ipv4
      let totalLength ← Ipv4Viewer.totalLength.get ipv4
      if totalLength ≠ 0 ∧ totalLength < headerLen then pure none
      else
        match packet.nthLayerRange .ipv4 (-1) with
        | none => pure none
        | some range => segmentBehind packet range.start headerLen (totalLength - headerLen)
  | some .v6 =>
    match packet.nthLayerRange .ipv6 (-1) with
    | none => pure none
    | some range => do
      match ← outerIpv6 packet with
      | none => pure none
      | some ipv6 =>
        let payloadLength ← Ipv6Viewer.payloadLength.get ipv6
        segmentBehind packet range.start Ipv6.MIN_LEN payloadLength

/-- The final destination that a routing header with segments left shows. -/
def finalDst (route : List UInt8) : Outcome ε (Option ℕ) := do
  let type0 ← Ipv6RouteViewer.type0 route
  let addrs ← type0.elim (pure []) Ipv6RouteType0.addrs
  match addrs.getLast? with
  | some dst => pure (some dst)
  | none =>
    let srh ← Ipv6RouteViewer.srh route
    let segments ← srh.elim (pure []) Ipv6Srh.segments
    pure segments.head?

/-- `pseudo_header_dst`. -/
def pseudoHeaderDst (packet : Maja.Packet) (dst : ℕ) : Outcome ε (Option ℕ) := do
  match ← chainViewer packet .ipv6Route with
  | none => pure (some dst)
  | some route =>
    let segmentsLeft ← Ipv6RouteViewer.segmentsLeft.get route
    if segmentsLeft = 0 then pure (some dst) else finalDst route

/-- Set a field of the outermost header of a protocol. -/
def setOutermost (packet : Maja.Packet) (protocol : Protocol) (f : Field) (value : ℕ) :
    Outcome ε Maja.Packet :=
  match packet.nthLayer protocol (-1) with
  | some layer => packet.setField layer f value
  | none => pure packet

/-- Calculate a checksum over the transport segment and store it. -/
def fixSegment (packet : Maja.Packet) (protocol : Protocol) (f : Field)
    (calculate : List UInt8 → Outcome ε ℕ) : Outcome ε Maja.Packet := do
  match ← transportSegment packet with
  | none => pure packet
  | some segment =>
    let checksum ← calculate segment
    setOutermost packet protocol f checksum

/-- A stored zero: the checksum of UDP over IPv4 is off. -/
def udpDisabled (packet : Maja.Packet) : Outcome ε Bool := do
  match ← packet.nthLayerViewer .udp (-1) with
  | some udp =>
    let stored ← UdpViewer.checksum.get udp
    pure (stored = 0)
  | none => pure false

/-- The header checksum of `fix_checksums`. -/
def fixHeader (checks : Bool) (packet : Maja.Packet) : Outcome ε Maja.Packet := do
  match ← outerIpv4 packet with
  | some ipv4 =>
    let checksum ← Ipv4Viewer.calculateChecksum checks ipv4
    setOutermost packet .ipv4 Ipv4Viewer.checksum checksum
  | none => pure packet

/-- The transport of `fix_checksums` over IPv4. -/
def fixTransportIpv4 (checks : Bool) (packet : Maja.Packet) : Outcome ε Maja.Packet := do
  match ← outerTransport packet with
  | none => pure packet
  | some protocol =>
    match ← outerIpv4 packet with
    | none => pure packet
    | some ipv4 =>
      let src ← Ipv4Viewer.src.get ipv4
      let dst ← Ipv4Viewer.dst.get ipv4
      match protocol with
      | .tcp =>
        fixSegment packet .tcp TcpViewer.checksum (TcpViewer.calculateChecksumIpv4 checks src dst)
      | .udp =>
        let disabled ← udpDisabled packet
        if disabled then pure packet
        else
          fixSegment packet .udp UdpViewer.checksum (UdpViewer.calculateChecksumIpv4 checks src dst)
      | _ => pure packet

/-- The transport of `fix_checksums` over IPv6. -/
def fixTransportIpv6 (checks : Bool) (packet : Maja.Packet) : Outcome ε Maja.Packet := do
  match ← outerTransport packet with
  | none => pure packet
  | some protocol =>
    match ← outerIpv6 packet with
    | none => pure packet
    | some ipv6 =>
      let src ← Ipv6Viewer.src.get ipv6
      let dst ← Ipv6Viewer.dst.get ipv6
      match ← pseudoHeaderDst packet dst with
      | none => pure packet
      | some dst =>
        match protocol with
        | .tcp =>
          fixSegment packet .tcp TcpViewer.checksum (TcpViewer.calculateChecksumIpv6 checks src dst)
        | .udp =>
          fixSegment packet .udp UdpViewer.checksum (UdpViewer.calculateChecksumIpv6 checks src dst)
        | .ipv6Icmp =>
          fixSegment packet .icmpv6 Icmpv6Viewer.checksum
            (Icmpv6Viewer.calculateChecksumIpv6 checks src dst)
        | _ => pure packet

/-- `fix_checksums`. -/
def fixChecksums (checks : Bool) (packet : Maja.Packet) : Outcome ε Maja.Packet :=
  match outerIpFamily packet with
  | some .v4 => do
    let packet ← fixHeader checks packet
    let info ← PacketInfo.read packet
    if info.any fun info => info.fragment.isSome then pure packet
    else fixTransportIpv4 checks packet
  | some .v6 => do
    match ← outerFragment packet with
    | some _ => pure packet
    | none => fixTransportIpv6 checks packet
  | none => pure packet

end Checksums

/-- `Rewriter`. -/
structure MapRewriter (ρ : Type) where
  direct : Option (DirectMaps ρ)
  flow : Option (FlowState ρ)
  fixChecksum : Bool

namespace MapRewriter

variable {ρ : Type} [StdRng ρ]

/-- `Rewriter::is_active`. -/
def isActive (rewriter : MapRewriter ρ) : Bool := rewriter.direct.isSome || rewriter.flow.isSome

/-- A map that may be there: it rewrites the packet, or leaves it alone. -/
def runMap {μ : Type} (rewrite : Maja.Packet → Prog μ Empty (Bool × Maja.Packet))
    (packet : Maja.Packet) : Prog (Option μ) Empty (Bool × Maja.Packet) := fun map =>
  match map with
  | none => .ok ((false, packet), none)
  | some map =>
    match rewrite packet map with
    | .ok (r, map) => .ok (r, some map)
    | .err (e, _) => e.elim
    | .panic => .panic
    | .outOfFuel => .outOfFuel

/-- `Rewriter::rewrite`. -/
def rewrite (checks : Bool) (packet : Maja.Packet) (group : ℕ) :
    Prog (MapRewriter ρ) Empty (Bool × Maja.Packet) := fun rewriter =>
  match runMap DirectMaps.rewrite packet rewriter.direct with
  | .ok ((changedDirect, packet), direct) =>
    match runMap (fun packet => FlowState.rewrite packet group) packet rewriter.flow with
    | .ok ((changedFlow, packet), flow) => do
      let changed := changedDirect || changedFlow
      let packet ← if changed && rewriter.fixChecksum then fixChecksums checks packet
        else pure packet
      pure ((changed, packet), { rewriter with direct, flow })
    | .err (e, _) => e.elim
    | .panic => .panic
    | .outOfFuel => .outOfFuel
  | .err (e, _) => e.elim
  | .panic => .panic
  | .outOfFuel => .outOfFuel

/-- A rewriter that has a flow map only. -/
theorem rewrite_flow_eq_ok {checks changed : Bool} {packet packet' : Maja.Packet} {group : ℕ}
    {rewriter rewriter' : MapRewriter ρ} {s : FlowState ρ} (hdirect : rewriter.direct = none)
    (hflow : rewriter.flow = some s)
    (h : rewrite checks packet group rewriter = .ok ((changed, packet'), rewriter')) :
    ∃ packet₁ s', FlowState.rewrite packet group s = .ok ((changed, packet₁), s') ∧
      rewriter' = { rewriter with flow := some s' } ∧
      if changed && rewriter.fixChecksum then
        (fixChecksums checks packet₁ : Outcome (Empty × MapRewriter ρ) _) = .ok packet'
      else packet' = packet₁ := by
  simp only [rewrite, runMap, hdirect, hflow] at h
  rcases hrun : FlowState.rewrite packet group s with ⟨⟨changed₁, packet₁⟩, s'⟩ | ⟨e, _⟩ | _ | _
  · rw [hrun] at h
    dsimp only at h
    rw [Bool.false_or] at h
    refine ⟨packet₁, s', ?_⟩
    split_ifs at h with hfix
    · obtain ⟨packet₂, hfixed, h⟩ := Outcome.bind_eq_ok.1 h
      obtain ⟨hpair, rfl⟩ := Prod.mk.inj (Outcome.ok.inj h)
      obtain ⟨rfl, rfl⟩ := Prod.mk.inj hpair
      exact ⟨rfl, by rw [hdirect], by rwa [if_pos hfix]⟩
    · obtain ⟨hpair, rfl⟩ := Prod.mk.inj (Outcome.ok.inj h)
      obtain ⟨rfl, rfl⟩ := Prod.mk.inj hpair
      exact ⟨rfl, by rw [hdirect], by rw [if_neg hfix]⟩
  · exact e.elim
  · rw [hrun] at h
    cases h
  · rw [hrun] at h
    cases h

end MapRewriter

end Mergecap
end Maja
