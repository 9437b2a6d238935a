/-
# The names of splitcap's files

`to_filename` of `src/tools/maja-splitcap/src/main.rs`: the fields of a flow id with
`.`, `:` and `_` between them.

A name can be read back up to its last field.  Addresses and ports are decimal
numbers, which contain none of the separators.  The protocol is written as the name
of its variant, and the codes without a variant of their own are all `Reserved`: ids
that differ there only share a file (`toFilename_eq_iff`).
-/

import Maja.Lib.Delimited
import Maja.Splitcap.Flow
import Mathlib.Data.List.Nodup

namespace Maja
namespace Splitcap

open Lib Capture Net Packet

/-! ### Addresses -/

namespace Ipv4Addr

/-- An octet of the address. -/
def octet (addr : Ipv4Addr) (i : ℕ) : ℕ := addr.toNat / 256 ^ i % 256

/-- The text of an address is its octets with dots between them. -/
theorem toList_display (addr : Ipv4Addr) : addr.display.toList =
    Nat.toDigits 10 (addr.octet 3) ++ '.' :: (Nat.toDigits 10 (addr.octet 2) ++
      '.' :: (Nat.toDigits 10 (addr.octet 1) ++ '.' :: Nat.toDigits 10 (addr.octet 0))) := by
  have hdot : ".".toList = ['.'] := rfl
  simp only [display, String.toList_append, Nat.toString_eq_repr, Nat.toList_repr, hdot,
    List.append_assoc, List.singleton_append]
  rfl

/-- Only digits and dots are in an address. -/
theorem notMem_display {c : Char} (hdigit : c.isDigit = false) (hdot : c ≠ '.')
    (addr : Ipv4Addr) : c ∉ addr.display.toList := by
  rw [toList_display]
  simp [notMem_toDigits hdigit, hdot]

/-- Different addresses have different texts. -/
theorem display_inj {addr addr' : Ipv4Addr} :
    addr.display.toList = addr'.display.toList ↔ addr = addr' := by
  constructor
  · intro h
    have hdigits := notMem_toDigits (c := '.') rfl
    rw [toList_display, toList_display,
      append_cons_inj_of_notMem_left (hdigits _) (hdigits _),
      append_cons_inj_of_notMem_left (hdigits _) (hdigits _),
      append_cons_inj_of_notMem_left (hdigits _) (hdigits _),
      toDigits_inj, toDigits_inj, toDigits_inj, toDigits_inj] at h
    obtain ⟨h₃, h₂, h₁, h₀⟩ := h
    have hlt := addr.isLt
    have hlt' := addr'.isLt
    simp only [octet] at h₃ h₂ h₁ h₀
    exact BitVec.eq_of_toNat_eq (by omega)
  · rintro rfl
    rfl

end Ipv4Addr

/-! ### Protocols -/

/-- The code has no variant of its own. -/
def Unassigned (protocol : IpProtocol) : Prop := protocolNames.length ≤ protocolCode protocol

instance : DecidablePred Unassigned := fun _ => inferInstanceAs (Decidable (_ ≤ _))

/-- Protocols have one name if they are one, or both have no variant. -/
theorem protocolName_inj (code code' : ℕ) :
    protocolName (.ofCode code) = protocolName (.ofCode code') ↔
      code = code' ∨ Unassigned (.ofCode code) ∧ Unassigned (.ofCode code') := by
  have hnodup : protocolNames.Nodup := by decide +kernel
  have hreserved : "Reserved" ∉ protocolNames := by decide +kernel
  have hname : ∀ n, n < protocolNames.length →
      protocolNames[n]?.getD "Reserved" ≠ "Reserved" := by
    intro n hn heq
    rw [List.getElem?_eq_getElem hn, Option.getD_some] at heq
    exact hreserved (heq ▸ List.getElem_mem hn)
  have hunassigned : ∀ n, protocolNames.length ≤ n →
      protocolNames[n]?.getD "Reserved" = "Reserved" := fun n hn => by
    rw [List.getElem?_eq_none hn, Option.getD_none]
  unfold protocolName Unassigned
  rw [protocolCode_ofCode, protocolCode_ofCode]
  rcases Nat.lt_or_ge code protocolNames.length with h | h <;>
    rcases Nat.lt_or_ge code' protocolNames.length with h' | h'
  · have hinj : protocolNames[code] = protocolNames[code'] ↔ code = code' :=
      List.Nodup.getElem_inj_iff hnodup
    rw [List.getElem?_eq_getElem h, List.getElem?_eq_getElem h', Option.getD_some,
      Option.getD_some, hinj]
    omega
  · rw [hunassigned code' h']
    exact ⟨fun heq => absurd heq (hname code h), by omega⟩
  · rw [hunassigned code h]
    exact ⟨fun heq => absurd heq.symm (hname code' h'), by omega⟩
  · rw [hunassigned code h, hunassigned code' h']
    exact ⟨fun _ => .inr ⟨h, h'⟩, fun _ => rfl⟩

/-! ### Names -/

namespace FlowId

/-- Ids of one kind. -/
def SameKind : FlowId → FlowId → Prop
  | .ip _, .ip _ => True
  | .tuple2 .., .tuple2 .. => True
  | .tuple3 .., .tuple3 .. => True
  | .tuple4 .., .tuple4 .. => True
  | .tuple5 .., .tuple5 .. => True
  | _, _ => False

/-- The address is an IPv4 address. -/
def IsIpv4 (ip : IpAddr) : Prop := ∃ addr, ip = .v4 addr

/-- The addresses are IPv4 addresses, and the id's protocol, if it has one, was read from a
packet. -/
def FromWire : FlowId → Prop
  | .ip addr => IsIpv4 addr
  | .tuple2 ip1 ip2 => IsIpv4 ip1 ∧ IsIpv4 ip2
  | .tuple3 ip1 ip2 protocol => IsIpv4 ip1 ∧ IsIpv4 ip2 ∧ ∃ code, protocol = .ofCode code
  | .tuple4 ip1 ip2 _ _ => IsIpv4 ip1 ∧ IsIpv4 ip2
  | .tuple5 ip1 ip2 _ _ protocol => IsIpv4 ip1 ∧ IsIpv4 ip2 ∧ ∃ code, protocol = .ofCode code

/-- The ids differ in their protocols only, and these have no variants. -/
def ReservedClash : FlowId → FlowId → Prop
  | .tuple3 ip1 ip2 protocol, .tuple3 ip1' ip2' protocol' =>
    ip1 = ip1' ∧ ip2 = ip2' ∧ protocol ≠ protocol' ∧ Unassigned protocol ∧ Unassigned protocol'
  | .tuple5 ip1 ip2 port1 port2 protocol, .tuple5 ip1' ip2' port1' port2' protocol' =>
    ip1 = ip1' ∧ ip2 = ip2' ∧ port1 = port1' ∧ port2 = port2' ∧ protocol ≠ protocol' ∧
      Unassigned protocol ∧ Unassigned protocol'
  | _, _ => False

/-- Different IPv4 addresses have different texts. -/
theorem displayIp_inj {addr addr' : Ipv4Addr} :
    (displayIp (.v4 addr)).toList = (displayIp (.v4 addr')).toList ↔
      IpAddr.v4 addr = .v4 addr' := by
  rw [IpAddr.v4.injEq]
  exact Ipv4Addr.display_inj

/-- An address, a separator, and what is behind it. -/
theorem display_append_inj (sep : Char) (hdigit : sep.isDigit = false) (hdot : sep ≠ '.')
    {addr addr' : Ipv4Addr} {rest rest' : List Char} :
    (displayIp (.v4 addr)).toList ++ sep :: rest = (displayIp (.v4 addr')).toList ++ sep :: rest' ↔
      IpAddr.v4 addr = .v4 addr' ∧ rest = rest' := by
  have haddr := addr.notMem_display hdigit hdot
  have haddr' := addr'.notMem_display hdigit hdot
  exact (append_cons_inj_of_notMem_left haddr haddr').trans (and_congr_left' displayIp_inj)

/-- A port, a separator, and what is behind it. -/
theorem toDigits_append_inj (sep : Char) (hdigit : sep.isDigit = false) {port port' : UInt16}
    {rest rest' : List Char} :
    Nat.toDigits 10 port.toNat ++ sep :: rest = Nat.toDigits 10 port'.toNat ++ sep :: rest' ↔
      port = port' ∧ rest = rest' := by
  rw [append_cons_inj_of_notMem_left (notMem_toDigits hdigit _) (notMem_toDigits hdigit _),
    toDigits_inj, UInt16.toNat_inj]

/-- A protocol in front of the extension. -/
theorem protocolName_append_inj (code code' : ℕ) :
    (protocolName (.ofCode code)).toList ++ ".pcap".toList =
        (protocolName (.ofCode code')).toList ++ ".pcap".toList ↔
      IpProtocol.ofCode code = .ofCode code' ∨
        IpProtocol.ofCode code ≠ .ofCode code' ∧ Unassigned (.ofCode code) ∧
          Unassigned (.ofCode code') := by
  have hcode : IpProtocol.ofCode code = .ofCode code' ↔ code = code' := by
    constructor
    · intro h
      simpa using congrArg protocolCode h
    · rintro rfl
      rfl
  rw [List.append_left_inj, String.toList_inj, protocolName_inj, Ne, hcode]
  by_cases h : code = code' <;> simp [h]

/-- **The name tells the ids of a kind apart**, reserved protocols excepted. -/
theorem flowIdFilename_eq_iff {id id' : FlowId} (hkind : SameKind id id') (hid : FromWire id)
    (hid' : FromWire id') :
    flowIdFilename id = flowIdFilename id' ↔ id = id' ∨ ReservedClash id id' := by
  have hpcap : ".pcap".toList = '.' :: "pcap".toList := rfl
  have hunderscore : "_".toList = ['_'] := rfl
  have hcolon : ":".toList = [':'] := rfl
  rw [← String.toList_inj]
  cases id <;> cases id' <;> try exact hkind.elim
  case ip.ip addr addr' =>
    obtain ⟨addr, rfl⟩ := hid
    obtain ⟨addr', rfl⟩ := hid'
    simp only [flowIdFilename, String.toList_append, List.append_left_inj, displayIp_inj,
      ReservedClash, FlowId.ip.injEq, or_false]
  case tuple2.tuple2 ip1 ip2 ip1' ip2' =>
    obtain ⟨⟨addr1, rfl⟩, ⟨addr2, rfl⟩⟩ := hid
    obtain ⟨⟨addr1', rfl⟩, ⟨addr2', rfl⟩⟩ := hid'
    simp only [flowIdFilename, String.toList_append, hunderscore, List.append_assoc,
      List.cons_append, List.nil_append, display_append_inj '_' rfl (by decide),
      List.append_left_inj, displayIp_inj, ReservedClash, FlowId.tuple2.injEq, or_false]
  case tuple3.tuple3 ip1 ip2 protocol ip1' ip2' protocol' =>
    obtain ⟨⟨addr1, rfl⟩, ⟨addr2, rfl⟩, code, rfl⟩ := hid
    obtain ⟨⟨addr1', rfl⟩, ⟨addr2', rfl⟩, code', rfl⟩ := hid'
    simp only [flowIdFilename, String.toList_append, hunderscore, List.append_assoc,
      List.cons_append, List.nil_append, display_append_inj '_' rfl (by decide),
      protocolName_append_inj, ReservedClash, FlowId.tuple3.injEq, and_or_left]
  case tuple4.tuple4 ip1 ip2 port1 port2 ip1' ip2' port1' port2' =>
    obtain ⟨⟨addr1, rfl⟩, ⟨addr2, rfl⟩⟩ := hid
    obtain ⟨⟨addr1', rfl⟩, ⟨addr2', rfl⟩⟩ := hid'
    simp only [flowIdFilename, String.toList_append, hunderscore, hcolon, hpcap, List.append_assoc,
      List.cons_append, List.nil_append, Nat.toString_eq_repr, Nat.toList_repr,
      display_append_inj ':' rfl (by decide), toDigits_append_inj '_' rfl,
      toDigits_append_inj '.' rfl, ReservedClash, FlowId.tuple4.injEq, or_false]
    constructor
    · rintro ⟨hip1, hport1, hip2, hport2, -⟩
      exact ⟨hip1, hip2, hport1, hport2⟩
    · rintro ⟨hip1, hip2, hport1, hport2⟩
      exact ⟨hip1, hport1, hip2, hport2, trivial⟩
  case tuple5.tuple5 ip1 ip2 port1 port2 protocol ip1' ip2' port1' port2' protocol' =>
    obtain ⟨⟨addr1, rfl⟩, ⟨addr2, rfl⟩, code, rfl⟩ := hid
    obtain ⟨⟨addr1', rfl⟩, ⟨addr2', rfl⟩, code', rfl⟩ := hid'
    simp only [flowIdFilename, String.toList_append, hunderscore, hcolon, List.append_assoc,
      List.cons_append, List.nil_append, Nat.toString_eq_repr, Nat.toList_repr,
      display_append_inj ':' rfl (by decide), toDigits_append_inj '_' rfl,
      protocolName_append_inj, ReservedClash, FlowId.tuple5.injEq]
    constructor
    · rintro ⟨hip1, hport1, hip2, hport2, hsame | hclash⟩
      · exact .inl ⟨hip1, hip2, hport1, hport2, hsame⟩
      · exact .inr ⟨hip1, hip2, hport1, hport2, hclash⟩
    · rintro (⟨hip1, hip2, hport1, hport2, hsame⟩ | ⟨hip1, hip2, hport1, hport2, hclash⟩)
      · exact ⟨hip1, hport1, hip2, hport2, .inl hsame⟩
      · exact ⟨hip1, hport1, hip2, hport2, .inr hclash⟩

end FlowId

/-! ### Flows of packets -/

/-- The addresses of a flow are IPv4 addresses, and its protocol was read from a packet. -/
theorem wire_of_processPacket {ε : Type} {packet : PacketRecord} {info : FlowInfo}
    (h : (processPacket packet : Outcome ε (Option FlowInfo)) = .ok (some info)) :
    FlowId.IsIpv4 info.srcIp ∧ FlowId.IsIpv4 info.dstIp ∧
      ∃ code, info.protocol = .ofCode code := by
  unfold processPacket at h
  split at h
  · unfold flowInfo at h
    obtain ⟨viewer, -, h⟩ := Outcome.bind_eq_ok.1 h
    rcases viewer with _ | ipv4
    · cases h
    · obtain ⟨code, -, h⟩ := Outcome.bind_eq_ok.1 h
      obtain ⟨ports, -, h⟩ := Outcome.bind_eq_ok.1 h
      obtain ⟨src, -, h⟩ := Outcome.bind_eq_ok.1 h
      obtain ⟨dst, -, h⟩ := Outcome.bind_eq_ok.1 h
      obtain rfl := Option.some.inj (Outcome.ok.inj h)
      exact ⟨⟨_, rfl⟩, ⟨_, rfl⟩, code, rfl⟩
  · cases h
  · cases h
  · cases h

namespace SplitFlowId

/-- The id proper. -/
def flowId : SplitFlowId → FlowId
  | symmetric id => id
  | asymmetric id => id

/-- The ids differ in their protocols only, and these have no variants. -/
def ReservedClash (flow flow' : SplitFlowId) : Prop :=
  FlowId.ReservedClash flow.flowId flow'.flowId

/-- The name of a file is that of its flow. -/
theorem toFilename_eq (flow : SplitFlowId) : flow.toFilename = flowIdFilename flow.flowId := by
  cases flow <;> rfl

/-- Ids of one granularity are of one kind, with the addresses and the protocol of the
packet. -/
theorem flowId_fromInfo (granularity : SplitGranularity) (info info' : FlowInfo)
    (h : FlowId.IsIpv4 info.srcIp ∧ FlowId.IsIpv4 info.dstIp ∧
      ∃ code, info.protocol = .ofCode code) :
    FlowId.SameKind (fromInfo granularity info).flowId (fromInfo granularity info').flowId ∧
      FlowId.FromWire (fromInfo granularity info).flowId := by
  obtain ⟨hsrc, hdst, hprotocol⟩ := h
  cases granularity <;>
    simp only [fromInfo, flowId, FlowId.tuple2Symmetric, FlowId.tuple3Symmetric,
      FlowId.tuple4Symmetric, FlowId.tuple5Symmetric] <;>
    (try split_ifs) <;> simp only [FlowId.SameKind, FlowId.FromWire, true_and] <;>
    simp only [hsrc, hdst, hprotocol, and_self]

/-- Ids of one granularity are equal if they are it without their directionality. -/
theorem flowId_fromInfo_inj (granularity : SplitGranularity) (info info' : FlowInfo) :
    (fromInfo granularity info).flowId = (fromInfo granularity info').flowId ↔
      fromInfo granularity info = fromInfo granularity info' := by
  cases granularity <;> simp [fromInfo, flowId]

/-- **Two flows have two files** if they do not differ in reserved protocols only, and
only then. -/
theorem toFilename_ne_iff {ε : Type} (granularity : SplitGranularity)
    (packet packet' : PacketRecord) (info info' : FlowInfo)
    (h : (processPacket packet : Outcome ε (Option FlowInfo)) = .ok (some info))
    (h' : (processPacket packet' : Outcome ε (Option FlowInfo)) = .ok (some info')) :
    (fromInfo granularity info ≠ fromInfo granularity info' →
        (fromInfo granularity info).toFilename ≠ (fromInfo granularity info').toFilename) ↔
      ¬ReservedClash (fromInfo granularity info) (fromInfo granularity info') := by
  have hwire := flowId_fromInfo granularity info info' (wire_of_processPacket h)
  have hwire' := flowId_fromInfo granularity info' info (wire_of_processPacket h')
  have hname : (fromInfo granularity info).toFilename = (fromInfo granularity info').toFilename ↔
      fromInfo granularity info = fromInfo granularity info' ∨
        ReservedClash (fromInfo granularity info) (fromInfo granularity info') := by
    rw [toFilename_eq, toFilename_eq, FlowId.flowIdFilename_eq_iff hwire.1 hwire.2 hwire'.2,
      flowId_fromInfo_inj]
    rfl
  have hclash : ReservedClash (fromInfo granularity info) (fromInfo granularity info') →
      fromInfo granularity info ≠ fromInfo granularity info' := by
    intro hclash heq
    rw [heq] at hclash
    revert hclash
    unfold ReservedClash
    cases (fromInfo granularity info').flowId <;> simp [FlowId.ReservedClash]
  constructor
  · intro hne hclash'
    exact hne (hclash hclash') (hname.2 (.inr hclash'))
  · intro hnot hne heq
    exact (hname.1 heq).elim hne hnot

/-- A packet of an IP protocol, from host 1.1.1.1 to host 2.2.2.2. -/
def bareIpv4 (protocol : UInt8) : PacketRecord :=
  ⟨I64.ofInt 0, 20, [0x45, 0, 0, 20, 0, 0, 0, 0, 64, protocol, 0, 0, 1, 1, 1, 1, 2, 2, 2, 2], .ipv4⟩

/-- The flow of that packet. -/
def bareInfo (protocol : UInt8) : FlowInfo :=
  ⟨.v4 0x01010101, .v4 0x02020202, .ofCode protocol.toNat, 0, 0⟩

/-- **Protocols 146 and 147 share a file.** -/
theorem reserved_share_file :
    (processPacket (bareIpv4 146) : Outcome CaptureError _) = .ok (some (bareInfo 146)) ∧
      (processPacket (bareIpv4 147) : Outcome CaptureError _) = .ok (some (bareInfo 147)) ∧
      fromInfo .tuple3 (bareInfo 146) ≠ fromInfo .tuple3 (bareInfo 147) ∧
      (fromInfo .tuple3 (bareInfo 146)).toFilename =
        (fromInfo .tuple3 (bareInfo 147)).toFilename := by
  decide +kernel

/-- Protocols 89 and 103 do not. -/
theorem toFilename_ne_iff_assigned :
    (fromInfo .tuple3 (bareInfo 89) ≠ fromInfo .tuple3 (bareInfo 103) →
        (fromInfo .tuple3 (bareInfo 89)).toFilename ≠
          (fromInfo .tuple3 (bareInfo 103)).toFilename) ↔
      ¬ReservedClash (fromInfo .tuple3 (bareInfo 89)) (fromInfo .tuple3 (bareInfo 103)) :=
  toFilename_ne_iff (ε := CaptureError) .tuple3 (bareIpv4 89) (bareIpv4 103) (bareInfo 89)
    (bareInfo 103) (by decide +kernel) (by decide +kernel)

end SplitFlowId

end Splitcap
end Maja
