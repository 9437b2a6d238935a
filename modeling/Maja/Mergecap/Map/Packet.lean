/-
# The outermost IP envelope

`tools/maja-mergecap/src/map/packet.rs`: addresses, ports, protocol and fragment
identity of the outermost IP header of a packet.  A packet inside a tunnel never
answers for it.
-/

import Maja.Mergecap.Map.Pool
import Maja.Packet.Access

namespace Maja
namespace Mergecap

open Lib Packet

variable {ε : Type}

/-- `IpFamily`. -/
inductive IpFamily where
  | v4
  | v6
  deriving DecidableEq, Repr

/-- `outer_ip_family`. -/
def outerIpFamily (packet : Maja.Packet) : Option IpFamily :=
  match packet.nthLayer .ipv4 (-1), packet.nthLayer .ipv6 (-1) with
  | some ipv4, some ipv6 => if ipv4.offset < ipv6.offset then some .v4 else some .v6
  | some _, none => some .v4
  | none, some _ => some .v6
  | none, none => none

/-- `outer_ipv4`. -/
def outerIpv4 (packet : Maja.Packet) : Outcome ε (Option (List UInt8)) :=
  packet.nthLayerViewer .ipv4 (-1)

/-- `outer_ipv6`. -/
def outerIpv6 (packet : Maja.Packet) : Outcome ε (Option (List UInt8)) :=
  packet.nthLayerViewer .ipv6 (-1)

/-- `is_chain_layer`. -/
def isChainLayer (layer : Layer) : Bool :=
  match layer.protocol with
  | .ipv6Hopopt | .ipv6DestOpts | .ipv6Route | .ipv6Frag | .ah | .ipv6Mobility | .ipv6Hip
  | .ipv6Shim6 => true
  | _ => false

/-- `&layers[chain_range(packet)?]`: the extension headers right behind the
outermost IPv6 header. -/
def chainLayers (packet : Maja.Packet) : Option (List Layer) :=
  (packet.layers.findIdx? fun layer => layer.protocol = .ipv6).map fun start =>
    (packet.layers.drop (start + 1)).takeWhile isChainLayer

/-- The loop of `next_header`. -/
def followChain (bytes : List UInt8) : ℕ → List Layer → Outcome ε ℕ
  | nextHeader, [] => .ok nextHeader
  | _, layer :: layers => do
    let header ← layer.bytes bytes
    let nextHeader ← Outcome.index header 0
    followChain bytes nextHeader.toNat layers

/-- `next_header`. -/
def nextHeader (packet : Maja.Packet) : Outcome ε (Option ℕ) :=
  match packet.layers.find? (fun layer => layer.protocol = .ipv6), chainLayers packet with
  | some ipv6, some chain => do
    let header ← ipv6.bytes packet.bytes
    let first ← Ipv6Viewer.nextHeader.get header
    let last ← followChain packet.bytes first chain
    pure (some last)
  | _, _ => pure none

/-- `chain_viewer`. -/
def chainViewer (packet : Maja.Packet) (protocol : Protocol) : Outcome ε (Option (List UInt8)) :=
  match (chainLayers packet).bind (List.find? fun layer => layer.protocol = protocol) with
  | some layer => do
    let bytes ← layer.bytes packet.bytes
    pure (some bytes)
  | none => pure none

/-- `outer_fragment`. -/
def outerFragment (packet : Maja.Packet) : Outcome ε (Option (List UInt8)) :=
  chainViewer packet .ipv6Frag

/-- `outer_transport`. -/
def outerTransport (packet : Maja.Packet) : Outcome ε (Option IpProtocol) :=
  if outerIpFamily packet = some .v4 then do
    match ← outerIpv4 packet with
    | some ipv4 => do
      let protocol ← Ipv4Viewer.protocol.get ipv4
      pure (some (.ofCode protocol))
    | none => pure none
  else do
    let nextHeader ← nextHeader packet
    pure (nextHeader.map .ofCode)

/-- `addr_to_u128`. -/
def addrToU128 : IpAddr → ℕ
  | .v4 addr => addr.toNat
  | .v6 addr => addr.toNat

/-- `SessionId`. -/
structure SessionId where
  family : Family
  a : ℕ × ℕ
  b : ℕ × ℕ
  proto : ℕ
  deriving DecidableEq, Repr

/-- `SessionId::new`. -/
def SessionId.new (src : IpAddr) (srcPort : ℕ) (dst : IpAddr) (dstPort proto : ℕ) : SessionId :=
  let source := (addrToU128 src, srcPort)
  let target := (addrToU128 dst, dstPort)
  if source.1 < target.1 ∨ source.1 = target.1 ∧ source.2 ≤ target.2 then
    ⟨.ofAddr src, source, target, proto⟩
  else ⟨.ofAddr src, target, source, proto⟩

/-- `FragKey`. -/
structure FragKey where
  src : IpAddr
  dst : IpAddr
  proto : ℕ
  id : ℕ
  deriving DecidableEq, Repr

/-- `Targets`. -/
@[ext] structure Targets where
  src : Option IpAddr := none
  dst : Option IpAddr := none
  deriving DecidableEq, Repr

/-- `PacketInfo`. -/
structure PacketInfo where
  src : IpAddr
  dst : IpAddr
  proto : ℕ
  srcPort : ℕ
  dstPort : ℕ
  hasPorts : Bool
  fragment : Option FragKey
  deriving DecidableEq, Repr

/-- The ports of a transport header, or none. -/
def portsOf (packet : Maja.Packet) (protocol : Protocol) (srcPort dstPort : Field) :
    Outcome ε (ℕ × ℕ × Bool) := do
  match ← packet.nthLayerViewer protocol (-1) with
  | some header => do
    let src ← srcPort.get header
    let dst ← dstPort.get header
    pure (src, dst, true)
  | none => pure (0, 0, false)

/-- `ports`. -/
def ports (packet : Maja.Packet) : Outcome ε (ℕ × ℕ × Bool) := do
  match ← outerTransport packet with
  | some .tcp => portsOf packet .tcp TcpViewer.srcPort TcpViewer.dstPort
  | some .udp => portsOf packet .udp UdpViewer.srcPort UdpViewer.dstPort
  | _ => pure (0, 0, false)

/-- `FRAG_MORE`. -/
def FRAG_MORE : ℕ := 0x1

namespace PacketInfo

/-- `PacketInfo::from_ipv4`. -/
def fromIpv4 (packet : Maja.Packet) (ipv4 : List UInt8) : Outcome ε PacketInfo := do
  let (srcPort, dstPort, hasPorts) ← ports packet
  let flags ← Ipv4Viewer.flags.get ipv4
  let fragmentOffset ← Ipv4Viewer.fragmentOffset.get ipv4
  let src ← Ipv4Viewer.src.get ipv4
  let dst ← Ipv4Viewer.dst.get ipv4
  let proto ← Ipv4Viewer.protocol.get ipv4
  let id ← Ipv4Viewer.identification.get ipv4
  let src := IpAddr.v4 (BitVec.ofNat 32 src)
  let dst := IpAddr.v4 (BitVec.ofNat 32 dst)
  pure {
    src, dst, proto, srcPort, dstPort, hasPorts
    fragment := if fragmentOffset ≠ 0 ∨ flags &&& FRAG_MORE ≠ 0 then some { src, dst, proto, id }
      else none }

/-- The fragment key of `from_ipv6`. -/
def fragmentOf (src dst : IpAddr) : Option (List UInt8) → Outcome ε (Option FragKey)
  | some frag => do
    let proto ← Ipv6FragViewer.nextHeader.get frag
    let id ← Ipv6FragViewer.identification.get frag
    pure (some { src, dst, proto, id })
  | none => pure none

/-- `PacketInfo::from_ipv6`. -/
def fromIpv6 (packet : Maja.Packet) (ipv6 : List UInt8) : Outcome ε PacketInfo := do
  let (srcPort, dstPort, hasPorts) ← ports packet
  let src ← Ipv6Viewer.src.get ipv6
  let dst ← Ipv6Viewer.dst.get ipv6
  let declared ← Ipv6Viewer.nextHeader.get ipv6
  let behindChain ← nextHeader packet
  let src := IpAddr.v6 (BitVec.ofNat 128 src)
  let dst := IpAddr.v6 (BitVec.ofNat 128 dst)
  let frag ← outerFragment packet
  let fragment ← fragmentOf src dst frag
  pure { src, dst, proto := behindChain.getD declared, srcPort, dstPort, hasPorts, fragment }

/-- `PacketInfo::read`. -/
def read (packet : Maja.Packet) : Outcome ε (Option PacketInfo) :=
  match outerIpFamily packet with
  | some .v4 => do
    match ← outerIpv4 packet with
    | some ipv4 => do
      let info ← fromIpv4 packet ipv4
      pure (some info)
    | none => pure none
  | some .v6 => do
    match ← outerIpv6 packet with
    | some ipv6 => do
      let info ← fromIpv6 packet ipv6
      pure (some info)
    | none => pure none
  | none => pure none

/-- `PacketInfo::session`. -/
def session (info : PacketInfo) : Option SessionId :=
  if info.hasPorts then some (.new info.src info.srcPort info.dst info.dstPort info.proto) else none

end PacketInfo

/-- The address that a field of the header holds. -/
def IpFamily.addrOf : IpFamily → ℕ → IpAddr
  | v4, value => .v4 (BitVec.ofNat 32 value)
  | v6, value => .v6 (BitVec.ofNat 128 value)

/-- The addresses of a header, read through the viewer of its layer. -/
def addrsAt (family : IpFamily) (layer : Layer) (src dst : Field) (packet : Maja.Packet) :
    Outcome ε (IpAddr × IpAddr) := do
  let src ← packet.getField layer src
  let dst ← packet.getField layer dst
  pure (family.addrOf src, family.addrOf dst)

/-- The addresses of the outermost IP header. -/
def outerAddrs (packet : Maja.Packet) : Outcome ε (Option (IpAddr × IpAddr)) :=
  match outerIpFamily packet with
  | some .v4 =>
    match packet.nthLayer .ipv4 (-1) with
    | some layer => do
      let addrs ← addrsAt .v4 layer Ipv4Viewer.src Ipv4Viewer.dst packet
      pure (some addrs)
    | none => pure none
  | some .v6 =>
    match packet.nthLayer .ipv6 (-1) with
    | some layer => do
      let addrs ← addrsAt .v6 layer Ipv6Viewer.src Ipv6Viewer.dst packet
      pure (some addrs)
    | none => pure none
  | none => pure none

/-- Set an address field to a target of the header's family; another one is
skipped. -/
def setAddr (family : IpFamily) (layer : Layer) (f : Field) (target : Option IpAddr)
    (packet : Maja.Packet) : Outcome ε Maja.Packet :=
  match family, target with
  | .v4, some (.v4 addr) => packet.setField layer f addr.toNat
  | .v6, some (.v6 addr) => packet.setField layer f addr.toNat
  | _, _ => pure packet

/-- The target is of the header's family, so that it is written. -/
def writes : IpFamily → Option IpAddr → Bool
  | .v4, some (.v4 _) => true
  | .v6, some (.v6 _) => true
  | _, _ => false

/-- A target of the other family, or none, is not written. -/
theorem setAddr_of_not_writes {family : IpFamily} {target : Option IpAddr}
    (h : writes family target = false) (layer : Layer) (f : Field) (packet : Maja.Packet) :
    (setAddr family layer f target packet : Outcome ε _) = .ok packet := by
  unfold setAddr
  split
  · cases h
  · cases h
  · rfl

/-- Both address fields, through the mutable viewer of the header. -/
def setAddrs (family : IpFamily) (layer : Layer) (src dst : Field) (targets : Targets)
    (packet : Maja.Packet) : Outcome ε Maja.Packet := do
  let _ ← layer.bytes packet.bytes
  let packet ← setAddr family layer src targets.src packet
  setAddr family layer dst targets.dst packet

/-- `apply_targets`. -/
def applyTargets (packet : Maja.Packet) (targets : Targets) : Outcome ε Maja.Packet :=
  match outerIpFamily packet with
  | some .v4 =>
    match packet.nthLayer .ipv4 (-1) with
    | some layer => setAddrs .v4 layer Ipv4Viewer.src Ipv4Viewer.dst targets packet
    | none => pure packet
  | some .v6 =>
    match packet.nthLayer .ipv6 (-1) with
    | some layer => setAddrs .v6 layer Ipv6Viewer.src Ipv6Viewer.dst targets packet
    | none => pure packet
  | none => pure packet

/-- Where neither target is written the packet stays as it is. -/
theorem setAddrs_of_not_writes {family : IpFamily} {layer : Layer} {src dst : Field}
    {targets : Targets} {packet packet' : Maja.Packet}
    (h : (writes family targets.src || writes family targets.dst) = false)
    (hset : (setAddrs family layer src dst targets packet : Outcome ε _) = .ok packet') :
    packet' = packet := by
  rw [Bool.or_eq_false_iff] at h
  obtain ⟨_, -, hset⟩ := Outcome.bind_eq_ok.1 hset
  rw [setAddr_of_not_writes h.1, Outcome.ok_bind, setAddr_of_not_writes h.2] at hset
  exact (Outcome.ok.inj hset).symm

/-- `apply_targets` writes a target into the packet. -/
def Targets.writtenTo (packet : Maja.Packet) (targets : Targets) : Bool :=
  match outerIpFamily packet with
  | some family => writes family targets.src || writes family targets.dst
  | none => false

/-- Without targets nothing is written. -/
theorem Targets.writtenTo_none (packet : Maja.Packet) : ({} : Targets).writtenTo packet = false := by
  unfold Targets.writtenTo
  split
  · rename_i family _
    cases family <;> rfl
  · rfl

/-- Where nothing is written the packet stays as it is. -/
theorem applyTargets_of_not_writtenTo {packet packet' : Maja.Packet} {targets : Targets}
    (h : targets.writtenTo packet = false)
    (happly : (applyTargets packet targets : Outcome ε _) = .ok packet') : packet' = packet := by
  unfold Targets.writtenTo at h
  unfold applyTargets at happly
  split at happly
  · rename_i hfamily
    rw [hfamily] at h
    split at happly
    · exact setAddrs_of_not_writes h happly
    · exact (Outcome.ok.inj happly).symm
  · rename_i hfamily
    rw [hfamily] at h
    split at happly
    · exact setAddrs_of_not_writes h happly
    · exact (Outcome.ok.inj happly).symm
  · exact (Outcome.ok.inj happly).symm

end Mergecap
end Maja
