/-
# The builders of layers

`src/packet/layer/{eth,ip/v4,tcp,udp,icmp/echo,raw}/craft.rs`: what each builder
measures and writes, as layers of a `PacketStack`.  A field that the caller leaves
out is `none`; `checks` says whether the build has overflow checks, which only the
checksums see.

The slices that a `write` takes of its bytes panic where they are too short; that
no measured stack lets this happen is a theorem.
-/

import Maja.Net.Address
import Maja.Packet.Checksum
import Maja.Packet.Craft
import Maja.Packet.HeaderBits

namespace Maja
namespace Packet

open Lib

/-- `checked_u16_len`. -/
def checkedU16Len (protocol field : String) (len : ℕ) : Outcome CraftError ℕ :=
  if len ≤ 0xFFFF then pure len else .err (.lengthOverflow protocol field len 0xFFFF)

/-- The value of an `EthType`. -/
def EthType.code : EthType → ℕ
  | ipv4 => 0x0800
  | arp => 0x0806
  | frameRelayArp => 0x0808
  | vlan => 0x8100
  | novell8137 => 0x8137
  | novell8138 => 0x8138
  | ipv6 => 0x86DD
  | mplsUnicast => 0x8847
  | mplsMulticast => 0x8848
  | reserverd value => value

/-- The value of an `IpProtocol`. -/
def IpProtocol.code : IpProtocol → ℕ
  | hopopt => 0
  | icmp => 1
  | igmp => 2
  | ipv4 => 4
  | tcp => 6
  | udp => 17
  | ipv6 => 41
  | ipv6Route => 43
  | ipv6Frag => 44
  | gre => 47
  | esp => 50
  | ah => 51
  | ipv6Icmp => 58
  | ipv6NoNxt => 59
  | ipv6Opts => 60
  | sctp => 132
  | mobilityHeader => 135
  | hip => 139
  | shim6 => 140
  | other value => value

/-- `IcmpType`; the types that no builder names are among `unknown`. -/
inductive IcmpType where
  | echoReply | echoRequest
  | unknown (value : UInt8)
  deriving DecidableEq, Repr

/-- The value of an `IcmpType`. -/
def IcmpType.code : IcmpType → ℕ
  | echoReply => 0
  | echoRequest => 8
  | unknown value => value.toNat

namespace IcmpViewer

def checksum : Field := { lo := 2, hi := 4, spec := { size := 2 } }
def identifier : Field := { lo := 4, hi := 6, spec := { size := 2 } }
def sequence : Field := { lo := 6, hi := 8, spec := { size := 2 } }

/-- `IcmpViewer::calculate_checksum`. -/
def calculateChecksum {ε : Type} (checks : Bool) (data : List UInt8) : Outcome ε ℕ :=
  internetChecksumZeroing checks data checksum.range

/-- `IcmpViewer::validate_checksum`. -/
def validateChecksum {ε : Type} (checks : Bool) (data : List UInt8) : Outcome ε Bool :=
  storedEquals checksum data (calculateChecksum checks data)

end IcmpViewer

/-! ### What the builders share -/

/-- Change `&mut bytes[lo..hi]` in place. -/
def editSlice (lo hi : ℕ) (edit : List UInt8 → Outcome CraftError (List UInt8))
    (bytes : List UInt8) : Outcome CraftError (List UInt8) := do
  let slice ← Outcome.slice bytes lo hi
  let edited ← edit slice
  pure (bytes.take lo ++ edited ++ bytes.drop hi)

/-- `slice.copy_from_slice(src)`. -/
def copyFromSlice (src slice : List UInt8) : Outcome CraftError (List UInt8) :=
  if slice.length = src.length then pure src else .panic

/-- The length of a child, zero where there is none. -/
def childLen (child : Option (CraftChildPlan Protocol)) : ℕ := (child.map CraftChildPlan.len).getD 0

/-- `measure_header_len` of a header of at least 20 bytes whose length is a field of
four bits, in words of 32 bits. -/
def measureWords (protocol field reason : String) (options : List UInt8) (given : Option UInt8) :
    Outcome CraftError ℕ := do
  let optionsLen := (options.length + 3) / 4 * 4
  let minHeaderLen ← checkedAddLen protocol field 20 optionsLen
  let words := given.getD (UInt8.ofNat (minHeaderLen / 4))
  if words < 5 then .err (.invalidField protocol field words.toNat reason)
  else if words > 15 then .err (.lengthOverflow protocol field words.toNat 15)
  else
    let headerLen := words.toNat * 4
    if headerLen < minHeaderLen then .err (.invalidLength protocol field headerLen minHeaderLen)
    else pure headerLen

/-- The `match` of a `measure` on a length that the caller may have set. -/
def measureLength (protocol field : String) (given : Option UInt16) (generated : ℕ) :
    Outcome CraftError ℕ :=
  match given with
  | some length =>
    if length.toNat = generated then pure length.toNat
    else .err (.invalidField protocol field length.toNat
      "must match generated header plus child length; use raw!(...) to add payload bytes")
  | none => checkedU16Len protocol field generated

/-- `self.checksum.unwrap_or_else(..)`. -/
def givenOr (given : Option UInt16) (calculate : Outcome CraftError ℕ) : Outcome CraftError ℕ :=
  match given with
  | some checksum => pure checksum.toNat
  | none => calculate

/-- A checksum over the pseudo header of the IPv4 parent, zero where there is none. -/
def withParent (context : CraftContext) (calculate : ℕ → ℕ → Outcome CraftError ℕ) :
    Outcome CraftError ℕ :=
  match context.ipv4 with
  | some parent => calculate parent.src parent.dst
  | none => pure 0

/-- The end of a `write`: the fields of the header, and the checksum of what is then
in the bytes. -/
def writeChecksummed (headerLen : ℕ) (puts : List (Field × ℕ)) (field : Field)
    (checksum : List UInt8 → Outcome CraftError ℕ) (bytes : List UInt8) :
    Outcome CraftError (List UInt8) := do
  let bytes ← editSlice 0 headerLen (putAll puts) bytes
  let checksum ← checksum bytes
  editSlice 0 headerLen (field.put · checksum) bytes

/-! ### Ethernet -/

/-- `EthBuilder`. -/
structure EthBuilder where
  src : Option (BitVec 48) := none
  dst : Option (BitVec 48) := none
  ethType : Option EthType := none
  deriving DecidableEq, Repr

namespace EthBuilder

/-- The type that is written above a child. -/
def typeFor (b : EthBuilder) (child : Option Protocol) : EthType :=
  b.ethType.getD (if child = some .ipv4 then .ipv4 else .reserverd 0)

/-- `EthBuilder::measure`. -/
def measure (child : Option (CraftChildPlan Protocol)) : Outcome CraftError CraftPlan := do
  let totalLen ← checkedAddLen "eth" "total_len" 14 (childLen child)
  pure ⟨14, totalLen⟩

/-- The fields that are set, in order. -/
def puts (b : EthBuilder) (child : Option Protocol) : List (Field × ℕ) :=
  [(EthViewer.dst, (b.dst.getD 0).toNat), (EthViewer.src, (b.src.getD 0).toNat),
    (EthViewer.ethType, (b.typeFor child).code)]

/-- `EthBuilder::write`. -/
def write (b : EthBuilder) (child : Option Protocol) (bytes : List UInt8) :
    Outcome CraftError (List UInt8) :=
  editSlice 0 14 (putAll (b.puts child)) bytes

end EthBuilder

/-! ### IPv4 -/

/-- `Ipv4Builder`. -/
structure Ipv4Builder where
  ihl : Option UInt8 := none
  dscp : Option UInt8 := none
  ecn : Option UInt8 := none
  totalLength : Option UInt16 := none
  identification : Option UInt16 := none
  flags : Option UInt8 := none
  fragmentOffset : Option UInt16 := none
  ttl : Option UInt8 := none
  protocol : Option IpProtocol := none
  checksum : Option UInt16 := none
  src : Option (BitVec 32) := none
  dst : Option (BitVec 32) := none
  options : List UInt8 := []
  deriving DecidableEq, Repr

namespace Ipv4Builder

/-- `Ipv4Builder::effective_src`. -/
def effectiveSrc (b : Ipv4Builder) : ℕ := (b.src.getD 0).toNat

/-- `Ipv4Builder::effective_dst`. -/
def effectiveDst (b : Ipv4Builder) : ℕ := (b.dst.getD 0).toNat

/-- The protocol that is written above a child. -/
def protocolFor (b : Ipv4Builder) (child : Option Protocol) : IpProtocol :=
  b.protocol.getD <|
    match child with
    | some .icmp => .icmp
    | some .tcp => .tcp
    | some .udp => .udp
    | _ => .other 255

/-- `Ipv4Builder::measure_header_len`. -/
def measureHeaderLen (b : Ipv4Builder) : Outcome CraftError ℕ :=
  measureWords "ipv4" "ihl" "IHL must be at least 5" b.options b.ihl

/-- `Ipv4Builder::measure`. -/
def measure (b : Ipv4Builder) (child : Option (CraftChildPlan Protocol)) :
    Outcome CraftError CraftPlan := do
  let headerLen ← b.measureHeaderLen
  let generated ← checkedAddLen "ipv4" "total_length" headerLen (childLen child)
  let totalLength ← measureLength "ipv4" "total_length" b.totalLength generated
  pure ⟨headerLen, totalLength⟩

/-- The fields that are set, in order. -/
def puts (b : Ipv4Builder) (headerLen totalLength : ℕ) (child : Option Protocol) :
    List (Field × ℕ) :=
  [(Ipv4Viewer.version, 4), (Ipv4Viewer.ihl, headerLen / 4 % 256),
    (Ipv4Viewer.dscp, (b.dscp.getD 0).toNat), (Ipv4Viewer.ecn, (b.ecn.getD 0).toNat),
    (Ipv4Viewer.totalLength, totalLength),
    (Ipv4Viewer.identification, (b.identification.getD 0).toNat),
    (Ipv4Viewer.flags, (b.flags.getD 0).toNat),
    (Ipv4Viewer.fragmentOffset, (b.fragmentOffset.getD 0).toNat),
    (Ipv4Viewer.ttl, (b.ttl.getD 64).toNat), (Ipv4Viewer.protocol, (b.protocolFor child).code),
    (Ipv4Viewer.checksum, 0), (Ipv4Viewer.src, b.effectiveSrc), (Ipv4Viewer.dst, b.effectiveDst)]

/-- `Ipv4Builder::write`. -/
def write (checks : Bool) (b : Ipv4Builder) (plan : CraftPlan) (child : Option Protocol)
    (bytes : List UInt8) : Outcome CraftError (List UInt8) := do
  let totalLength ← checkedU16Len "ipv4" "total_length" plan.totalLen
  let bytes ← editSlice Ipv4.MIN_LEN (Ipv4.MIN_LEN + b.options.length) (copyFromSlice b.options)
    bytes
  writeChecksummed plan.layerLen (b.puts plan.layerLen totalLength child) Ipv4Viewer.checksum
    (fun bytes => givenOr b.checksum do
      let header ← Outcome.slice bytes 0 plan.layerLen
      Ipv4Viewer.calculateChecksum checks header) bytes

end Ipv4Builder

/-! ### TCP -/

/-- `TcpBuilder`. -/
structure TcpBuilder where
  srcPort : Option UInt16 := none
  dstPort : Option UInt16 := none
  seqNum : Option UInt32 := none
  ackNum : Option UInt32 := none
  dataOffset : Option UInt8 := none
  flags : Option UInt8 := none
  windowSize : Option UInt16 := none
  checksum : Option UInt16 := none
  urgentPointer : Option UInt16 := none
  options : List UInt8 := []
  deriving DecidableEq, Repr

namespace TcpBuilder

/-- `TcpBuilder::measure_header_len`. -/
def measureHeaderLen (b : TcpBuilder) : Outcome CraftError ℕ :=
  measureWords "tcp" "data_offset" "data offset must be at least 5" b.options b.dataOffset

/-- `TcpBuilder::measure`. -/
def measure (b : TcpBuilder) (child : Option (CraftChildPlan Protocol)) :
    Outcome CraftError CraftPlan := do
  let headerLen ← b.measureHeaderLen
  let segmentLen ← checkedAddLen "tcp" "segment_len" headerLen (childLen child)
  let _ ← checkedU16Len "tcp" "ipv4_pseudo_length" segmentLen
  pure ⟨headerLen, segmentLen⟩

/-- The fields that are set, in order. -/
def puts (b : TcpBuilder) (headerLen : ℕ) : List (Field × ℕ) :=
  [(TcpViewer.srcPort, (b.srcPort.getD 0).toNat), (TcpViewer.dstPort, (b.dstPort.getD 0).toNat),
    (TcpViewer.seqNum, (b.seqNum.getD 0).toNat), (TcpViewer.ackNum, (b.ackNum.getD 0).toNat),
    (TcpViewer.dataOffset, headerLen / 4 % 256), (TcpViewer.flags, (b.flags.getD 0).toNat),
    (TcpViewer.windowSize, (b.windowSize.getD 64).toNat), (TcpViewer.checksum, 0),
    (TcpViewer.urgentPointer, (b.urgentPointer.getD 0).toNat)]

/-- `TcpBuilder::write`. -/
def write (checks : Bool) (b : TcpBuilder) (context : CraftContext) (plan : CraftPlan)
    (bytes : List UInt8) : Outcome CraftError (List UInt8) := do
  let bytes ← editSlice Tcp.MIN_LEN (Tcp.MIN_LEN + b.options.length) (copyFromSlice b.options)
    bytes
  writeChecksummed plan.layerLen (b.puts plan.layerLen) TcpViewer.checksum
    (fun bytes => givenOr b.checksum <| withParent context fun src dst =>
      TcpViewer.calculateChecksumIpv4 checks src dst bytes) bytes

end TcpBuilder

/-! ### UDP -/

/-- `UdpBuilder`. -/
structure UdpBuilder where
  srcPort : Option UInt16 := none
  dstPort : Option UInt16 := none
  length : Option UInt16 := none
  checksum : Option UInt16 := none
  deriving DecidableEq, Repr

namespace UdpBuilder

/-- `UdpBuilder::measure`. -/
def measure (b : UdpBuilder) (child : Option (CraftChildPlan Protocol)) :
    Outcome CraftError CraftPlan := do
  let generated ← checkedAddLen "udp" "length" Udp.MIN_LEN (childLen child)
  let length ← measureLength "udp" "length" b.length generated
  pure ⟨Udp.MIN_LEN, length⟩

/-- The fields that are set, in order. -/
def puts (b : UdpBuilder) (length : ℕ) : List (Field × ℕ) :=
  [(UdpViewer.srcPort, (b.srcPort.getD 0).toNat), (UdpViewer.dstPort, (b.dstPort.getD 0).toNat),
    (UdpViewer.length, length), (UdpViewer.checksum, 0)]

/-- `UdpBuilder::write`. -/
def write (checks : Bool) (b : UdpBuilder) (context : CraftContext) (plan : CraftPlan)
    (bytes : List UInt8) : Outcome CraftError (List UInt8) := do
  let length ← checkedU16Len "udp" "length" plan.totalLen
  writeChecksummed Udp.MIN_LEN (b.puts length) UdpViewer.checksum
    (fun bytes => givenOr b.checksum <| withParent context fun src dst =>
      UdpViewer.calculateChecksumIpv4 checks src dst bytes) bytes

end UdpBuilder

/-! ### ICMP echo -/

/-- `IcmpEchoBuilder`. -/
structure IcmpEchoBuilder where
  messageType : IcmpType := .echoRequest
  code : Option UInt8 := none
  checksum : Option UInt16 := none
  identifier : Option UInt16 := none
  sequence : Option UInt16 := none
  deriving DecidableEq, Repr

namespace IcmpEchoBuilder

/-- `IcmpEchoBuilder::validate_message_type`. -/
def validateMessageType (b : IcmpEchoBuilder) : Outcome CraftError Unit :=
  if b.messageType = .echoRequest ∨ b.messageType = .echoReply then pure ()
  else .err (.invalidField "icmp" "type" b.messageType.code
    "IcmpEchoBuilder only supports echo request and echo reply messages")

/-- `IcmpEchoBuilder::measure`. -/
def measure (b : IcmpEchoBuilder) (child : Option (CraftChildPlan Protocol)) :
    Outcome CraftError CraftPlan := do
  b.validateMessageType
  let totalLen ← checkedAddLen "icmp" "total_len" 8 (childLen child)
  pure ⟨8, totalLen⟩

/-- The fields that are set, in order. -/
def puts (b : IcmpEchoBuilder) : List (Field × ℕ) :=
  [(IcmpViewer.messageType, b.messageType.code), (IcmpViewer.code, (b.code.getD 0).toNat),
    (IcmpViewer.checksum, 0), (IcmpViewer.identifier, (b.identifier.getD 0).toNat),
    (IcmpViewer.sequence, (b.sequence.getD 0).toNat)]

/-- `IcmpEchoBuilder::write`. -/
def write (checks : Bool) (b : IcmpEchoBuilder) (bytes : List UInt8) :
    Outcome CraftError (List UInt8) :=
  writeChecksummed 8 b.puts IcmpViewer.checksum
    (fun bytes => givenOr b.checksum (IcmpViewer.calculateChecksum checks bytes)) bytes

end IcmpEchoBuilder

/-! ### Raw -/

/-- `RawBuilder`. -/
structure RawBuilder where
  bytes : List UInt8 := []
  deriving DecidableEq, Repr

namespace RawBuilder

/-- `RawBuilder::measure`. -/
def measure (b : RawBuilder) (child : Option (CraftChildPlan Protocol)) :
    Outcome CraftError CraftPlan :=
  if child.isSome then .err .rawMustBeTerminal else pure ⟨b.bytes.length, b.bytes.length⟩

end RawBuilder

/-! ### Writes keep the length -/

section Length

variable {lo hi n : ℕ} {edit : List UInt8 → Outcome CraftError (List UInt8)}
  {checksum : List UInt8 → Outcome CraftError ℕ} {puts : List (Field × ℕ)} {field : Field}
  {src slice bytes written : List UInt8}

/-- What an edit of a slice does to the bytes. -/
theorem editSlice_eq_ok (h : editSlice lo hi edit bytes = .ok written) :
    lo ≤ hi ∧ hi ≤ bytes.length ∧ ∃ edited, edit ((bytes.drop lo).take (hi - lo)) = .ok edited ∧
      written = bytes.take lo ++ edited ++ bytes.drop hi := by
  obtain ⟨slice, hslice, h⟩ := Outcome.bind_eq_ok.1 h
  obtain ⟨edited, hedit, h⟩ := Outcome.bind_eq_ok.1 h
  obtain rfl := Outcome.ok.inj h
  obtain ⟨hle, hhi, rfl⟩ := Outcome.slice_eq_ok_iff.1 hslice
  exact ⟨hle, hhi, edited, hedit, rfl⟩

/-- An edit that keeps the length of its slice changes the bytes there. -/
theorem editSlice_agrees
    (hedit : ∀ {slice edited}, edit slice = .ok edited → edited.length = slice.length)
    (h : editSlice lo hi edit bytes = .ok written) :
    AgreesOutside (Set.Ico lo hi) bytes written := by
  obtain ⟨hle, hhi, edited, hedited, rfl⟩ := editSlice_eq_ok h
  have hroom : lo + (hi - lo) ≤ bytes.length := by omega
  have hsplice := AgreesOutside.splice hroom (AgreesOutside.of_length (hedit hedited))
  rw [show lo + (hi - lo) = hi by omega] at hsplice
  exact hsplice.mono fun k hk => ⟨hk.1, hk.2.1⟩

/-- Copying into a slice keeps its length. -/
theorem length_copyFromSlice {edited : List UInt8} (h : copyFromSlice src slice = .ok edited) :
    edited.length = slice.length := by
  unfold copyFromSlice at h
  split_ifs at h with hlen
  obtain rfl := Outcome.ok.inj h
  exact hlen.symm

/-- Setting fields keeps the length of a header. -/
theorem length_putAll {header : List UInt8}
    (h : (putAll puts header : Outcome CraftError _) = .ok written) :
    written.length = header.length := by
  induction puts generalizing header with
  | nil =>
    obtain rfl := Outcome.ok.inj h
    rfl
  | cons put puts ih =>
    obtain ⟨header', hheader, h⟩ := Outcome.bind_eq_ok.1 h
    rw [ih h, (Field.put_eq_ok hheader).2.length]

/-- Setting a field keeps the length of a header. -/
theorem length_put {header : List UInt8} {value : ℕ}
    (h : (field.put header value : Outcome CraftError _) = .ok written) :
    written.length = header.length := (Field.put_eq_ok h).2.length

/-- Options are copied to their place. -/
theorem copyOptions_agrees (h : editSlice lo hi (copyFromSlice src) bytes = .ok written) :
    AgreesOutside (Set.Ico lo hi) bytes written :=
  editSlice_agrees length_copyFromSlice h

/-- The fields and the checksum are written to the header. -/
theorem writeChecksummed_agrees (h : writeChecksummed n puts field checksum bytes = .ok written) :
    AgreesOutside (Set.Ico 0 n) bytes written := by
  obtain ⟨filled, hfilled, h⟩ := Outcome.bind_eq_ok.1 h
  obtain ⟨value, -, h⟩ := Outcome.bind_eq_ok.1 h
  exact (editSlice_agrees length_putAll hfilled).trans (editSlice_agrees length_put h)

end Length

/-! ### The layers -/

/-- The protocol of a child. -/
def childProtocol (child : Option (CraftChild Protocol)) : Option Protocol :=
  child.map CraftChild.protocol

/-- `CraftLayer for EthBuilder`. -/
def EthBuilder.layer (b : EthBuilder) : CraftLayer Protocol where
  name := "maja::packet::layer::eth::craft::EthBuilder"
  protocol := .eth
  childContext := id
  measure _ child := measure child
  write _ _ child bytes := b.write (childProtocol child) bytes
  length_write h := (editSlice_agrees length_putAll h).length

/-- `CraftLayer for Ipv4Builder`. -/
def Ipv4Builder.layer (checks : Bool) (b : Ipv4Builder) : CraftLayer Protocol where
  name := "maja::packet::layer::ip::v4::craft::Ipv4Builder"
  protocol := .ipv4
  childContext context := context.withIpv4 b.effectiveSrc b.effectiveDst
  measure _ child := b.measure child
  write _ plan child bytes := b.write checks plan (childProtocol child) bytes
  length_write h := by
    obtain ⟨totalLength, -, h⟩ := Outcome.bind_eq_ok.1 h
    obtain ⟨copied, hcopied, h⟩ := Outcome.bind_eq_ok.1 h
    rw [(writeChecksummed_agrees h).length, (copyOptions_agrees hcopied).length]

/-- `CraftLayer for TcpBuilder`. -/
def TcpBuilder.layer (checks : Bool) (b : TcpBuilder) : CraftLayer Protocol where
  name := "maja::packet::layer::tcp::craft::TcpBuilder"
  protocol := .tcp
  childContext := id
  measure _ child := b.measure child
  write context plan _ bytes := b.write checks context plan bytes
  length_write h := by
    obtain ⟨copied, hcopied, h⟩ := Outcome.bind_eq_ok.1 h
    rw [(writeChecksummed_agrees h).length, (copyOptions_agrees hcopied).length]

/-- `CraftLayer for UdpBuilder`. -/
def UdpBuilder.layer (checks : Bool) (b : UdpBuilder) : CraftLayer Protocol where
  name := "maja::packet::layer::udp::craft::UdpBuilder"
  protocol := .udp
  childContext := id
  measure _ child := b.measure child
  write context plan _ bytes := b.write checks context plan bytes
  length_write h := by
    obtain ⟨length, -, h⟩ := Outcome.bind_eq_ok.1 h
    exact (writeChecksummed_agrees h).length

/-- `CraftLayer for IcmpEchoBuilder`. -/
def IcmpEchoBuilder.layer (checks : Bool) (b : IcmpEchoBuilder) : CraftLayer Protocol where
  name := "maja::packet::layer::icmp::echo::craft::IcmpEchoBuilder"
  protocol := .icmp
  childContext := id
  measure _ child := b.measure child
  write _ _ _ bytes := b.write checks bytes
  length_write h := (writeChecksummed_agrees h).length

/-- `CraftLayer for RawBuilder`. -/
def RawBuilder.layer (b : RawBuilder) : CraftLayer Protocol where
  name := "maja::packet::layer::raw::craft::RawBuilder"
  protocol := .raw
  childContext := id
  measure _ child := b.measure child
  write _ _ _ bytes := copyFromSlice b.bytes bytes
  length_write h := length_copyFromSlice h

/-- A builder of the library. -/
inductive Builder where
  | eth (b : EthBuilder)
  | ipv4 (b : Ipv4Builder)
  | tcp (b : TcpBuilder)
  | udp (b : UdpBuilder)
  | icmpEcho (b : IcmpEchoBuilder)
  | raw (b : RawBuilder)
  deriving DecidableEq, Repr

/-- A builder as a layer of a stack. -/
def Builder.layer (checks : Bool) : Builder → CraftLayer Protocol
  | eth b => b.layer
  | ipv4 b => b.layer checks
  | tcp b => b.layer checks
  | udp b => b.layer checks
  | icmpEcho b => b.layer checks
  | raw b => b.layer

/-- `outermost / … / innermost`. -/
def stackOf (checks : Bool) (builders : List Builder) : PacketStack Protocol :=
  ⟨builders.map (Builder.layer checks)⟩

end Packet
end Maja
