/-
# The direct maps

`DirectMaps` of `tools/maja-mergecap/src/map/entry.rs`: either address of a packet
is drawn anew for every packet, by the rule of its network or from the pool of the
entries that have none.
-/

import Maja.Mergecap.Map.Entry
import Maja.Mergecap.Map.Packet

namespace Maja
namespace Mergecap

open Lib Packet

/-- `DirectionMap`, with the merged pool of either family. -/
structure DirectionMap where
  rules : List CompiledEntry
  merged : Family → Pool

/-- `DirectMaps`. -/
structure DirectMaps (ρ : Type) where
  src : DirectionMap
  dst : DirectionMap
  rng : ρ

/-- `DirectionMap::new`. -/
def DirectionMap.new (entries : List MapEntry) : Except CompileError DirectionMap := do
  let compiled ← entries.mapM fun entry => CompiledEntry.compile entry .random
  pure {
    rules := sortEntries (compiled.filter fun entry => entry.source.isSome)
    merged := fun family => .fromNets
      ((entries.filter fun entry => entry.source.isNone && Family.ofNet entry.target.toNet = family).map
        fun entry => entry.target.toNet) }

variable {ρ : Type} [StdRng ρ]

/-- `DirectionMap::target`. -/
def DirectionMap.target (map : DirectionMap) (addr : IpAddr) (rng : ρ) : Option IpAddr × ρ :=
  match map.rules.find? fun rule => rule.source.any fun net => net.contains addr with
  | some rule =>
    match rule.action with
    | .fixed ip => (some ip, rng)
    | .mask net => (maskMap net addr, rng)
    | .pool pool _ => pool.choose rng
  | none => (map.merged (Family.ofAddr addr)).choose rng

namespace DirectMaps

/-- `DirectMaps::new`. -/
def new (srcMap ipMap dstMap : List MapEntry) (rng : ρ) : Except CompileError (DirectMaps ρ) := do
  let src ← DirectionMap.new (srcMap ++ ipMap)
  let dst ← DirectionMap.new (dstMap ++ ipMap)
  pure ⟨src, dst, rng⟩

/-- The address of a field of the family's header. -/
def addrOf : IpFamily → ℕ → IpAddr
  | .v4, value => .v4 (BitVec.ofNat 32 value)
  | .v6, value => .v6 (BitVec.ofNat 128 value)

/-- One address field of a header: it is read, and set to the target that it is given.
-/
def rewriteField {ε : Type} (map : DirectionMap) (family : IpFamily) (layer : Layer) (f : Field)
    (packet : Maja.Packet) (rng : ρ) : Outcome ε ((Bool × Maja.Packet) × ρ) := do
  let header ← layer.bytes packet.bytes
  let addr ← f.get header
  let (target, rng) := map.target (addrOf family addr) rng
  let packet ← setAddr family layer f target packet
  pure ((writes family target, packet), rng)

/-- Both address fields of a header. -/
def rewriteHeader (family : IpFamily) (layer : Layer) (src dst : Field) (packet : Maja.Packet) :
    Prog (DirectMaps ρ) Empty (Bool × Maja.Packet) := fun maps => do
  let ((changedSrc, packet), rng) ← rewriteField maps.src family layer src packet maps.rng
  let ((changedDst, packet), rng) ← rewriteField maps.dst family layer dst packet rng
  pure ((changedSrc || changedDst, packet), { maps with rng })

/-- `DirectMaps::rewrite`. -/
def rewrite (packet : Maja.Packet) : Prog (DirectMaps ρ) Empty (Bool × Maja.Packet) := fun maps =>
  match outerIpFamily packet with
  | some .v4 =>
    match packet.nthLayer .ipv4 (-1) with
    | some layer => rewriteHeader .v4 layer Ipv4Viewer.src Ipv4Viewer.dst packet maps
    | none => .ok ((false, packet), maps)
  | some .v6 =>
    match packet.nthLayer .ipv6 (-1) with
    | some layer => rewriteHeader .v6 layer Ipv6Viewer.src Ipv6Viewer.dst packet maps
    | none => .ok ((false, packet), maps)
  | none => .ok ((false, packet), maps)

end DirectMaps

end Mergecap
end Maja
