/-
# Three keys of a conversation

The key under which a tool finds both directions of a conversation: the symmetric
`Tuple5` of `src/packet/flow.rs`, `SessionId` of
`tools/maja-mergecap/src/map/packet.rs` and `FlowKey` of
`tools/maja-cicflowmeter/src/flow.rs`.

Each puts the two endpoints in order, by its own comparison: of addresses, of
addresses as integers with the family beside them, of addresses again.  They come to
the same thing (`keys_agree`), the unordered pair of endpoints and the protocol.
-/

import Maja.Cicflowmeter.Flow
import Maja.Mergecap.Map.Packet
import Maja.Net.FlowId
import Maja.Splitcap.Flow

namespace Maja
namespace Net

open Lib Packet Cicflowmeter

/-- The address as mergecap's model has it. -/
def IpAddr.toMergecap : IpAddr → Mergecap.IpAddr
  | v4 addr => .v4 addr
  | v6 addr => .v6 addr

/-- `Family::of_addr`. -/
def IpAddr.family (addr : IpAddr) : Mergecap.Family := .ofAddr addr.toMergecap

/-- The sender's endpoint. -/
def source (packet : FlowPacket) : Endpoint := (packet.srcIp, packet.srcPort)

/-- The receiver's endpoint. -/
def target (packet : FlowPacket) : Endpoint := (packet.dstIp, packet.dstPort)

/-- The endpoints of a packet are of one address family. -/
def OneFamily (packet : FlowPacket) : Prop := packet.srcIp.family = packet.dstIp.family

instance (packet : FlowPacket) : Decidable (OneFamily packet) := inferInstanceAs (Decidable (_ = _))

/-- The packets are of one conversation: between the same two endpoints, whichever of
them sends, and of one protocol. -/
def SameConversation (packet packet' : FlowPacket) : Prop :=
  s(source packet, target packet) = s(source packet', target packet') ∧
    packet.protocol = packet'.protocol

/-- The symmetric `Tuple5` of a packet. -/
def tuple5Of (packet : FlowPacket) : FlowId :=
  .tuple5Symmetric packet.srcIp packet.dstIp packet.srcPort packet.dstPort
    (.ofCode packet.protocol.toNat)

/-- The `SessionId` of a packet. -/
def sessionIdOf (packet : FlowPacket) : Mergecap.SessionId :=
  .new packet.srcIp.toMergecap packet.srcPort.toNat packet.dstIp.toMergecap packet.dstPort.toNat
    packet.protocol.toNat

variable {packet packet' : FlowPacket}

/-- The protocol number survives `IpProtocol::from`. -/
theorem ofCode_toNat_inj {a b : UInt8} :
    IpProtocol.ofCode a.toNat = IpProtocol.ofCode b.toNat ↔ a = b := by
  constructor
  · intro h
    have hcode := congrArg Splitcap.protocolCode h
    rw [Splitcap.protocolCode_ofCode, Splitcap.protocolCode_ofCode] at hcode
    exact UInt8.toNat_inj.1 hcode
  · rintro rfl
    rfl

/-- Two packets have one five-tuple exactly when they are of one conversation. -/
theorem tuple5Of_eq_iff :
    tuple5Of packet = tuple5Of packet' ↔ SameConversation packet packet' := by
  rw [tuple5Of, tuple5Of, FlowId.tuple5Symmetric_eq_iff, ofCode_toNat_inj]
  rfl

/-- Two packets have one flow key exactly when they are of one conversation. -/
theorem flowKey_eq_iff :
    FlowKey.fromPacket packet = FlowKey.fromPacket packet' ↔ SameConversation packet packet' := by
  have hsort : ∀ packet, FlowKey.fromPacket packet =
      (fun p : Endpoint × Endpoint => FlowKey.mk p.1.1 p.1.2 p.2.1 p.2.2 packet.protocol)
        (sortPair (fun a b => Endpoint.le a b) (source packet) (target packet)) :=
    fun packet => ite_eq_sortPair (r := fun a b => Endpoint.le a b)
      (fun p => FlowKey.mk p.1.1 p.1.2 p.2.1 p.2.2 packet.protocol) (source packet) (target packet)
  rw [hsort, hsort, SameConversation, ← sortPair_eq_iff Endpoint.sorts_le]
  simp only [FlowKey.mk.injEq, Prod.ext_iff]
  tauto

/-! ### Sessions -/

/-- An endpoint as the integers of a session. -/
def sessionEndpoint (e : Endpoint) : ℕ × ℕ :=
  (Mergecap.addrToU128 e.1.toMergecap, e.2.toNat)

/-- Within a family, the integers tell endpoints apart. -/
theorem sessionEndpoint_inj {a b : Endpoint} (hfamily : a.1.family = b.1.family)
    (h : sessionEndpoint a = sessionEndpoint b) : a = b := by
  obtain ⟨addr, port⟩ := a
  obtain ⟨addr', port'⟩ := b
  obtain ⟨haddr, hport⟩ := Prod.mk.inj h
  obtain rfl : port = port' := UInt16.toNat_inj.1 hport
  rcases addr with addr | addr <;> rcases addr' with addr' | addr'
  · rw [BitVec.eq_of_toNat_eq haddr]
  · cases hfamily
  · cases hfamily
  · rw [BitVec.eq_of_toNat_eq haddr]

/-- The order of a session's endpoints. -/
theorem sorts_session : Sorts fun x y : ℕ × ℕ => x.1 < y.1 ∨ x.1 = y.1 ∧ x.2 ≤ y.2 :=
  (Sorts.lt ℕ).lex lt_irrefl (Sorts.le ℕ)

/-- Unordered pairs within a family are the pairs of their integers. -/
theorem mk_sessionEndpoint_eq_iff {a b c d : Endpoint} (hab : a.1.family = b.1.family)
    (hcd : c.1.family = d.1.family) (hac : a.1.family = c.1.family) :
    s(sessionEndpoint a, sessionEndpoint b) = s(sessionEndpoint c, sessionEndpoint d) ↔
      s(a, b) = s(c, d) := by
  constructor
  · intro h
    rcases Sym2.eq_iff.1 h with ⟨hca, hdb⟩ | ⟨hda, hcb⟩
    · rw [sessionEndpoint_inj hac hca, sessionEndpoint_inj (hab.symm.trans (hac.trans hcd)) hdb]
    · rw [sessionEndpoint_inj (hac.trans hcd) hda,
        sessionEndpoint_inj (hab.symm.trans hac) hcb, Sym2.eq_swap]
  · intro h
    exact congrArg (Sym2.map sessionEndpoint) h

/-- Two packets have one session exactly when they are of one conversation. -/
theorem sessionIdOf_eq_iff (h : OneFamily packet) (h' : OneFamily packet') :
    sessionIdOf packet = sessionIdOf packet' ↔ SameConversation packet packet' := by
  have hsessions : packet.srcIp.family = packet'.srcIp.family →
      (s(sessionEndpoint (source packet), sessionEndpoint (target packet)) =
          s(sessionEndpoint (source packet'), sessionEndpoint (target packet')) ↔
        s(source packet, target packet) = s(source packet', target packet')) :=
    mk_sessionEndpoint_eq_iff (a := source packet) (b := target packet) (c := source packet')
      (d := target packet') h h'
  have hsort : ∀ packet : FlowPacket, sessionIdOf packet =
      (fun p : (ℕ × ℕ) × (ℕ × ℕ) =>
        Mergecap.SessionId.mk packet.srcIp.family p.1 p.2 packet.protocol.toNat)
        (sortPair (fun x y : ℕ × ℕ => x.1 < y.1 ∨ x.1 = y.1 ∧ x.2 ≤ y.2)
          (sessionEndpoint (source packet)) (sessionEndpoint (target packet))) :=
    fun packet => ite_eq_sortPair (r := fun x y : ℕ × ℕ => x.1 < y.1 ∨ x.1 = y.1 ∧ x.2 ≤ y.2)
      (fun p => Mergecap.SessionId.mk packet.srcIp.family p.1 p.2 packet.protocol.toNat)
      (sessionEndpoint (source packet)) (sessionEndpoint (target packet))
  have hpairs : sessionIdOf packet = sessionIdOf packet' ↔
      packet.srcIp.family = packet'.srcIp.family ∧
        s(sessionEndpoint (source packet), sessionEndpoint (target packet)) =
          s(sessionEndpoint (source packet'), sessionEndpoint (target packet')) ∧
        packet.protocol = packet'.protocol := by
    rw [hsort, hsort, ← sortPair_eq_iff sorts_session, Mergecap.SessionId.mk.injEq,
      UInt8.toNat_inj, Prod.ext_iff (x := sortPair ..), and_assoc]
  rw [hpairs]
  constructor
  · rintro ⟨hfamily, hendpoints, hprotocol⟩
    exact ⟨(hsessions hfamily).1 hendpoints, hprotocol⟩
  · rintro ⟨hendpoints, hprotocol⟩
    -- One of the second packet's endpoints is the first packet's source.
    have hfamily : packet.srcIp.family = packet'.srcIp.family := by
      rcases Sym2.eq_iff.1 hendpoints with ⟨hsource, -⟩ | ⟨hsource, -⟩
      · exact congrArg (fun e : Endpoint => e.1.family) hsource
      · exact (congrArg (fun e : Endpoint => e.1.family) hsource).trans h'.symm
    exact ⟨hfamily, (hsessions hfamily).2 hendpoints, hprotocol⟩

/-! ### All of them -/

/-- **The keys agree.**  Packets within a family have one symmetric `Tuple5`, one
`SessionId` or one `FlowKey` exactly when they are of one conversation; and the
smaller symmetric ids stand for the unordered pairs of what they hold. -/
theorem keys_agree (packet packet' : FlowPacket) (h : OneFamily packet) (h' : OneFamily packet') :
    (tuple5Of packet = tuple5Of packet' ↔ SameConversation packet packet') ∧
    (sessionIdOf packet = sessionIdOf packet' ↔ SameConversation packet packet') ∧
    (FlowKey.fromPacket packet = FlowKey.fromPacket packet' ↔ SameConversation packet packet') ∧
    (FlowId.tuple2Symmetric packet.srcIp packet.dstIp =
        .tuple2Symmetric packet'.srcIp packet'.dstIp ↔
      s(packet.srcIp, packet.dstIp) = s(packet'.srcIp, packet'.dstIp)) ∧
    (FlowId.tuple3Symmetric packet.srcIp packet.dstIp (.ofCode packet.protocol.toNat) =
        .tuple3Symmetric packet'.srcIp packet'.dstIp (.ofCode packet'.protocol.toNat) ↔
      s(packet.srcIp, packet.dstIp) = s(packet'.srcIp, packet'.dstIp) ∧
        packet.protocol = packet'.protocol) ∧
    (FlowId.tuple4Symmetric packet.srcIp packet.dstIp packet.srcPort packet.dstPort =
        .tuple4Symmetric packet'.srcIp packet'.dstIp packet'.srcPort packet'.dstPort ↔
      s(source packet, target packet) = s(source packet', target packet')) := by
  refine ⟨tuple5Of_eq_iff, sessionIdOf_eq_iff h h', flowKey_eq_iff, FlowId.tuple2Symmetric_eq_iff,
    ?_, FlowId.tuple4Symmetric_eq_iff⟩
  rw [FlowId.tuple3Symmetric_eq_iff, ofCode_toNat_inj]

/-- A UDP packet of no payload. -/
def flowPacket (src dst : IpAddr) (srcPort dstPort : UInt16) : FlowPacket :=
  ⟨I64.ofInt 0, src, dst, srcPort, dstPort, 17, 0, 8, ⟨0⟩, 0⟩

/-- A packet and the answer to it. -/
theorem keys_agree_answer :
    OneFamily (flowPacket (.v4 1) (.v4 2) 1234 53) ∧
    OneFamily (flowPacket (.v4 2) (.v4 1) 53 1234) ∧
    (sessionIdOf (flowPacket (.v4 1) (.v4 2) 1234 53) =
        sessionIdOf (flowPacket (.v4 2) (.v4 1) 53 1234) ↔
      SameConversation (flowPacket (.v4 1) (.v4 2) 1234 53)
        (flowPacket (.v4 2) (.v4 1) 53 1234)) :=
  ⟨rfl, rfl, (keys_agree (flowPacket (.v4 1) (.v4 2) 1234 53)
    (flowPacket (.v4 2) (.v4 1) 53 1234) rfl rfl).2.1⟩

end Net
end Maja
