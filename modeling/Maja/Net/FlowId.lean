/-
# Flow ids

`FlowId` of `src/packet/flow.rs`.  A symmetric id has its endpoints in order, so it
stands for the unordered pair of them: of addresses alone in `Tuple2` and `Tuple3`,
of addresses with their ports in `Tuple4` and `Tuple5`.
-/

import Maja.Lib.SortedPair
import Maja.Net.Address
import Maja.Packet.Ip

namespace Maja
namespace Net

open Lib Packet

/-- `FlowId`, of either directionality. -/
inductive FlowId where
  | ip (addr : IpAddr)
  | tuple2 (src dst : IpAddr)
  | tuple3 (src dst : IpAddr) (proto : IpProtocol)
  | tuple4 (src dst : IpAddr) (srcPort dstPort : UInt16)
  | tuple5 (src dst : IpAddr) (srcPort dstPort : UInt16) (proto : IpProtocol)
  deriving DecidableEq, Repr

namespace FlowId

/-- `From<(IpAddr, IpAddr)> for FlowId<true>`. -/
def tuple2Symmetric (src dst : IpAddr) : FlowId :=
  if src.lt dst then tuple2 src dst else tuple2 dst src

/-- `From<(IpAddr, IpAddr, IpProtocol)> for FlowId<true>`. -/
def tuple3Symmetric (src dst : IpAddr) (proto : IpProtocol) : FlowId :=
  if src.lt dst then tuple3 src dst proto else tuple3 dst src proto

/-- `From<(IpAddr, IpAddr, u16, u16)> for FlowId<true>`. -/
def tuple4Symmetric (src dst : IpAddr) (srcPort dstPort : UInt16) : FlowId :=
  if Endpoint.le (src, srcPort) (dst, dstPort) then tuple4 src dst srcPort dstPort
  else tuple4 dst src dstPort srcPort

/-- `From<(Addr, Addr, Port, Port, Protocol)> for FlowId<true>`. -/
def tuple5Symmetric (src dst : IpAddr) (srcPort dstPort : UInt16) (proto : IpProtocol) : FlowId :=
  if Endpoint.le (src, srcPort) (dst, dstPort) then tuple5 src dst srcPort dstPort proto
  else tuple5 dst src dstPort srcPort proto

end FlowId

/-! ### The orders -/

/-- No address is less than itself. -/
theorem IpAddr.lt_irrefl (a : IpAddr) : ¬a.lt a := by
  cases a <;> simp [IpAddr.lt]

/-- The addresses of each family are ordered by their numbers, and the families by
themselves. -/
theorem IpAddr.sorts_lt : Sorts fun a b : IpAddr => a.lt b := by
  constructor
  · rintro (a | a) (b | b) h h' <;> simp [IpAddr.lt, BitVec.lt_def] at h h' ⊢ <;> omega
  · rintro (a | a) (b | b) hne
    · have hne' : a.toNat ≠ b.toNat := fun h => hne (by rw [BitVec.eq_of_toNat_eq h])
      simp only [IpAddr.lt, decide_eq_true_eq, BitVec.lt_def]
      omega
    · exact .inl rfl
    · exact .inr rfl
    · have hne' : a.toNat ≠ b.toNat := fun h => hne (by rw [BitVec.eq_of_toNat_eq h])
      simp only [IpAddr.lt, decide_eq_true_eq, BitVec.lt_def]
      omega

/-- The order of the endpoints sorts. -/
theorem Endpoint.sorts_le : Sorts fun a b : Endpoint => Endpoint.le a b := by
  have hports : Sorts fun a b : UInt16 => a ≤ b := ⟨UInt16.le_antisymm, fun _ => UInt16.le_total _ _⟩
  have hlex := IpAddr.sorts_lt.lex IpAddr.lt_irrefl hports
  constructor
  · intro a b h h'
    exact hlex.antisymm (by simpa [Endpoint.le] using h) (by simpa [Endpoint.le] using h')
  · intro a b hne
    simpa [Endpoint.le] using hlex.connex hne

/-! ### Symmetric ids -/

namespace FlowId

variable {src dst src' dst' : IpAddr} {srcPort dstPort srcPort' dstPort' : UInt16}
  {proto proto' : IpProtocol}

/-- The symmetric two-tuple forgets the direction and nothing else. -/
theorem tuple2Symmetric_eq_iff :
    tuple2Symmetric src dst = tuple2Symmetric src' dst' ↔ s(src, dst) = s(src', dst') := by
  have hsort : ∀ a b, tuple2Symmetric a b =
      (fun p : IpAddr × IpAddr => tuple2 p.1 p.2) (sortPair (fun a b => a.lt b) a b) :=
    fun a b => ite_eq_sortPair (r := fun a b => IpAddr.lt a b) (fun p => tuple2 p.1 p.2) a b
  rw [hsort, hsort, ← sortPair_eq_iff IpAddr.sorts_lt]
  simp [Prod.ext_iff]

/-- The symmetric three-tuple forgets the direction and nothing else. -/
theorem tuple3Symmetric_eq_iff :
    tuple3Symmetric src dst proto = tuple3Symmetric src' dst' proto' ↔
      s(src, dst) = s(src', dst') ∧ proto = proto' := by
  have hsort : ∀ a b proto, tuple3Symmetric a b proto =
      (fun p : IpAddr × IpAddr => tuple3 p.1 p.2 proto) (sortPair (fun a b => a.lt b) a b) :=
    fun a b proto =>
      ite_eq_sortPair (r := fun a b => IpAddr.lt a b) (fun p => tuple3 p.1 p.2 proto) a b
  rw [hsort, hsort, ← sortPair_eq_iff IpAddr.sorts_lt]
  simp [Prod.ext_iff, and_assoc]

/-- The symmetric four-tuple forgets the direction and nothing else. -/
theorem tuple4Symmetric_eq_iff :
    tuple4Symmetric src dst srcPort dstPort = tuple4Symmetric src' dst' srcPort' dstPort' ↔
      s((src, srcPort), (dst, dstPort)) = s((src', srcPort'), (dst', dstPort')) := by
  have hsort : ∀ a b : Endpoint, tuple4Symmetric a.1 b.1 a.2 b.2 =
      (fun p : Endpoint × Endpoint => tuple4 p.1.1 p.2.1 p.1.2 p.2.2)
        (sortPair (fun a b => Endpoint.le a b) a b) :=
    fun a b => ite_eq_sortPair (r := fun a b => Endpoint.le a b)
      (fun p => tuple4 p.1.1 p.2.1 p.1.2 p.2.2) a b
  rw [hsort (src, srcPort) (dst, dstPort), hsort (src', srcPort') (dst', dstPort'),
    ← sortPair_eq_iff Endpoint.sorts_le]
  simp only [tuple4.injEq, Prod.ext_iff]
  tauto

/-- The symmetric five-tuple forgets the direction and nothing else. -/
theorem tuple5Symmetric_eq_iff :
    tuple5Symmetric src dst srcPort dstPort proto =
        tuple5Symmetric src' dst' srcPort' dstPort' proto' ↔
      s((src, srcPort), (dst, dstPort)) = s((src', srcPort'), (dst', dstPort')) ∧
        proto = proto' := by
  have hsort : ∀ (a b : Endpoint) proto, tuple5Symmetric a.1 b.1 a.2 b.2 proto =
      (fun p : Endpoint × Endpoint => tuple5 p.1.1 p.2.1 p.1.2 p.2.2 proto)
        (sortPair (fun a b => Endpoint.le a b) a b) :=
    fun a b proto => ite_eq_sortPair (r := fun a b => Endpoint.le a b)
      (fun p => tuple5 p.1.1 p.2.1 p.1.2 p.2.2 proto) a b
  rw [hsort (src, srcPort) (dst, dstPort), hsort (src', srcPort') (dst', dstPort'),
    ← sortPair_eq_iff Endpoint.sorts_le]
  simp only [tuple5.injEq, Prod.ext_iff]
  tauto

end FlowId

end Net
end Maja
