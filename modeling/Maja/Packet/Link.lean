/-
# Link-layer parsers

`src/packet/layer/{eth,vlan,llc,sll,mpls,arp,raw}.rs`: the header fields, the
parser and the display of each protocol.
-/

import Maja.Packet.Context
import Maja.Packet.Display

namespace Maja
namespace Packet

open Lib

/-- `EthType`. -/
inductive EthType where
  | ipv4 | arp | frameRelayArp | vlan | novell8137 | novell8138 | ipv6
  | mplsUnicast | mplsMulticast
  | reserverd (value : ℕ)
  deriving DecidableEq, Repr

/-- `EthType::from(u16)`. -/
def EthType.ofCode : ℕ → EthType
  | 0x0800 => ipv4
  | 0x0806 => arp
  | 0x0808 => frameRelayArp
  | 0x8100 => vlan
  | 0x8137 => novell8137
  | 0x8138 => novell8138
  | 0x86DD => ipv6
  | 0x8847 => mplsUnicast
  | 0x8848 => mplsMulticast
  | value => reserverd value

/-! ### Raw -/

/-- `Raw::parse`. -/
def Raw.parse (offset : ℕ) : ParseM Unit := parseRaw offset

/-- `Raw::display`. -/
def Raw.display (bytes : List UInt8) : Shown :=
  pure [.text "[Raw] ", .num bytes.length, .text " bytes"]

/-! ### Ethernet II -/

namespace EthViewer

def dst : Field := { lo := 0, hi := 6, spec := { size := 6 } }
def src : Field := { lo := 6, hi := 12, spec := { size := 6 } }
def ethType : Field := { lo := 12, hi := 14, spec := { size := 2 } }

end EthViewer

/-- `Eth::parse`. -/
def Eth.parse (table : ParseTable) (offset : ℕ) : ParseM Unit := do
  let header ← require .eth offset 14
  let ethType ← Prog.lift (EthViewer.ethType.get header)
  pushLayer .eth offset 14
  match EthType.ofCode ethType with
  | .ipv4 => parseChild table .ipv4 (offset + 14)
  | .arp => parseChild table .arp (offset + 14)
  | .ipv6 => parseChild table .ipv6 (offset + 14)
  | .vlan => parseChild table .vlan (offset + 14)
  | .mplsUnicast => parseChild table .mpls (offset + 14)
  | .mplsMulticast => parseChild table .mpls (offset + 14)
  | .reserverd length =>
    if length ≤ 1500 then parseChild table .llc (offset + 14) else parseRaw (offset + 14)
  | _ => parseRaw (offset + 14)

/-- `Eth::display`. -/
def Eth.display (bytes : List UInt8) : Shown := do
  let dst ← EthViewer.dst.get bytes
  let src ← EthViewer.src.get bytes
  pure [.text "[Eth] ", .num dst, .text " -> ", .num src]

/-! ### 802.1Q -/

namespace VlanViewer

def vid : Field := { lo := 0, hi := 2, spec := { size := 2, mask := 0x0FFF } }
def ethType : Field := { lo := 2, hi := 4, spec := { size := 2 } }

end VlanViewer

/-- `Vlan::parse`: the type of a further tag is not dispatched. -/
def Vlan.parse (table : ParseTable) (offset : ℕ) : ParseM Unit := do
  let header ← require .vlan offset 4
  let ethType ← Prog.lift (VlanViewer.ethType.get header)
  pushLayer .vlan offset 4
  match EthType.ofCode ethType with
  | .ipv4 => parseChild table .ipv4 (offset + 4)
  | .arp => parseChild table .arp (offset + 4)
  | .ipv6 => parseChild table .ipv6 (offset + 4)
  | .mplsUnicast => parseChild table .mpls (offset + 4)
  | .mplsMulticast => parseChild table .mpls (offset + 4)
  | .reserverd length =>
    if length ≤ 1500 then parseChild table .llc (offset + 4) else parseRaw (offset + 4)
  | _ => parseRaw (offset + 4)

/-- `Vlan::display`. -/
def Vlan.display (bytes : List UInt8) : Shown := do
  let vid ← VlanViewer.vid.get bytes
  pure [.text "[Vlan] ", .num vid]

/-! ### Logical link control -/

/-- `Lsap::Snap`. -/
def Lsap.SNAP : ℕ := 0xAA

namespace LlcViewer

def dsap : Field := { lo := 0, hi := 1, spec := { size := 1 } }
def ssap : Field := { lo := 1, hi := 2, spec := { size := 1, mask := 0xFE } }
def controlU : Field := { lo := 2, hi := 3, spec := { size := 1 } }
def protocolId : Field := { lo := 6, hi := 8, spec := { size := 2 } }

end LlcViewer

/-- `Llc::parse`: only a U-format SNAP header is recorded. -/
def Llc.parse (table : ParseTable) (offset : ℕ) : ParseM Unit := do
  let minHeader ← require .llc offset 3
  let controlFirst ← Prog.lift (LlcViewer.controlU.get minHeader)
  let controlLength := if controlFirst &&& 0x03 = 0x03 then 1 else 2
  let dsap ← Prog.lift (LlcViewer.dsap.get minHeader)
  let ssap ← Prog.lift (LlcViewer.ssap.get minHeader)
  let isSnap : Bool := dsap = Lsap.SNAP ∧ ssap = Lsap.SNAP
  if controlLength = 1 ∧ isSnap then
    let header ← require .llc offset 8
    pushLayer .llc offset 8
    let protocolId ← Prog.lift (LlcViewer.protocolId.get header)
    match EthType.ofCode protocolId with
    | .ipv4 => parseChild table .ipv4 (offset + 8)
    | .arp => parseChild table .arp (offset + 8)
    | .ipv6 => parseChild table .ipv6 (offset + 8)
    | .mplsUnicast => parseChild table .mpls (offset + 8)
    | .mplsMulticast => parseChild table .mpls (offset + 8)
    | _ => parseRaw (offset + 8)
  else
    pure ()

/-- `Llc` keeps the default `Protocol::display`. -/
def Llc.display (_bytes : List UInt8) : Shown := pure [.text "[Llc]"]

/-! ### Linux cooked capture -/

/-- `ArphrdType::ETHER`. -/
def ArphrdType.ETHER : ℕ := 1

namespace SllViewer

def packetType : Field := { lo := 0, hi := 2, spec := { size := 2 } }
def arphrdType : Field := { lo := 2, hi := 4, spec := { size := 2 } }
def linkLayerAddrLen : Field := { lo := 4, hi := 6, spec := { size := 2 } }
def linkLayerAddr : Field := { lo := 6, hi := 14, spec := { size := 8 } }
def protocolType : Field := { lo := 14, hi := 16, spec := { size := 2 } }

end SllViewer

/-- `Sll::parse`. -/
def Sll.parse (table : ParseTable) (offset : ℕ) : ParseM Unit := do
  let header ← require .sll offset 16
  let arphrdType ← Prog.lift (SllViewer.arphrdType.get header)
  let protocolType ← Prog.lift (SllViewer.protocolType.get header)
  pushLayer .sll offset 16
  if arphrdType = ArphrdType.ETHER then
    match EthType.ofCode protocolType with
    | .ipv4 => parseChild table .ipv4 (offset + 16)
    | .arp => parseChild table .arp (offset + 16)
    | .ipv6 => parseChild table .ipv6 (offset + 16)
    | .mplsUnicast => parseChild table .mpls (offset + 16)
    | .mplsMulticast => parseChild table .mpls (offset + 16)
    | _ => parseRaw (offset + 16)
  else
    parseRaw (offset + 16)

/-- `Sll::display`: the address field holds eight bytes, the length field says how
many of them are shown. -/
def Sll.display (bytes : List UInt8) : Shown := do
  let packetType ← SllViewer.packetType.get bytes
  let arphrdType ← SllViewer.arphrdType.get bytes
  let linkLayerAddr ← SllViewer.linkLayerAddr.get bytes
  let linkLayerAddrLen ← SllViewer.linkLayerAddrLen.get bytes
  let addr ← Outcome.slice (beBytes 8 linkLayerAddr) 0 linkLayerAddrLen
  pure [.text "[Sll] ", .num packetType, .text " ", .num arphrdType, .text " ", .bytes addr]

/-! ### MPLS -/

namespace MplsEntry

/-- `MplsEntry::LEN`. -/
@[simp] def LEN : ℕ := 4

def label : Field := { lo := 0, hi := 4, spec := { size := 4, mask := 0xFFFFF000, shift := 12 } }
def bottomOfStack : Field := { lo := 0, hi := 4, spec := { size := 4, mask := 0x100, shift := 8 } }

end MplsEntry

/-- `MplsEntries`. -/
structure MplsEntries where
  bytes : List UInt8
  offset : ℕ := 0
  done : Bool := false

/-- `MplsEntries::next`: the bytes of the entry, and the iterator behind it. -/
def MplsEntries.next {ε : Type} (it : MplsEntries) :
    Outcome ε (Option (List UInt8) × MplsEntries) :=
  if it.done ∨ it.offset + MplsEntry.LEN > it.bytes.length then
    pure (none, it)
  else do
    let entry ← Outcome.slice it.bytes it.offset (it.offset + MplsEntry.LEN)
    let bottomOfStack ← MplsEntry.bottomOfStack.get entry
    pure (some entry,
      { it with offset := it.offset + MplsEntry.LEN, done := it.done || bottomOfStack ≠ 0 })

/-- The `loop` of `Mpls::parse`, run on fuel: the length of the label stack and
the offset behind it. -/
def Mpls.labelStack : ℕ → ℕ → ℕ → ParseM (ℕ × ℕ)
  | 0, _, _ => Prog.lift .outOfFuel
  | fuel + 1, len, nextOffset => do
    let bytes ← require .mpls nextOffset MplsEntry.LEN
    let bottomOfStack ← Prog.lift (MplsEntry.bottomOfStack.get bytes)
    if bottomOfStack ≠ 0 then
      pure (len + MplsEntry.LEN, nextOffset + MplsEntry.LEN)
    else
      Mpls.labelStack fuel (len + MplsEntry.LEN) (nextOffset + MplsEntry.LEN)

/-- `Mpls::parse`.  Every turn of the loop needs four more bytes, so the bytes of
the packet bound their number.  The first payload byte is looked up in the
captured bytes, not in the region. -/
def Mpls.parse (table : ParseTable) (offset : ℕ) : ParseM Unit := do
  let ctx ← Prog.get
  let (len, nextOffset) ← Mpls.labelStack (ctx.bytes.length + 1) 0 offset
  pushLayer .mpls offset len
  match ctx.bytes[nextOffset]? with
  | none => pure ()
  | some firstPayloadByte =>
    match firstPayloadByte.toNat >>> 4 with
    | 4 => parseChild table .ipv4 nextOffset
    | 6 => parseChild table .ipv6 nextOffset
    | _ => parseRaw nextOffset

/-- `Mpls::display`. -/
def Mpls.display (bytes : List UInt8) : Shown := do
  let (entry, _) ← MplsEntries.next { bytes := bytes }
  match entry with
  | some entry =>
    let label ← MplsEntry.label.get entry
    pure [.text "[Mpls] label ", .num label]
  | none => pure [.text "[Mpls]"]

/-! ### ARP -/

namespace Arp

/-- `Arp::MIN_LEN`. -/
@[simp] def MIN_LEN : ℕ := 8

/-- `Arp::ETHERNET_IPV4_LEN`. -/
@[simp] def ETHERNET_IPV4_LEN : ℕ := 28

end Arp

/-- `ArpHardwareType::Ethernet`. -/
def ArpHardwareType.ETHERNET : ℕ := 1

namespace ArpViewer

variable {ε : Type}

def hardwareType : Field := { lo := 0, hi := 2, spec := { size := 2 } }
def protocolType : Field := { lo := 2, hi := 4, spec := { size := 2 } }
def hardwareLen : Field := { lo := 4, hi := 5, spec := { size := 1 } }
def protocolLen : Field := { lo := 5, hi := 6, spec := { size := 1 } }
def operation : Field := { lo := 6, hi := 8, spec := { size := 2 } }
def senderProtocolAddr : Field := { lo := 14, hi := 18, spec := { size := 4 } }
def targetProtocolAddr : Field := { lo := 24, hi := 28, spec := { size := 4 } }

/-- `ArpViewer::header_len`. -/
def headerLen (data : List UInt8) : Outcome ε ℕ := do
  let hardwareLen ← hardwareLen.get data
  let protocolLen ← protocolLen.get data
  pure (Arp.MIN_LEN + 2 * (hardwareLen + protocolLen))

/-- `ArpViewer::is_ethernet_ipv4`. -/
def isEthernetIpv4 (data : List UInt8) : Outcome ε Bool :=
  if data.length ≥ Arp.ETHERNET_IPV4_LEN then do
    let hardwareType ← hardwareType.get data
    let protocolType ← protocolType.get data
    let hardwareLen ← hardwareLen.get data
    let protocolLen ← protocolLen.get data
    pure (hardwareType = ArpHardwareType.ETHERNET ∧ EthType.ofCode protocolType = .ipv4 ∧
      hardwareLen = 6 ∧ protocolLen = 4)
  else
    pure false

end ArpViewer

/-- `Arp::parse`. -/
def Arp.parse (offset : ℕ) : ParseM Unit := do
  let header ← require .arp offset Arp.MIN_LEN
  let len ← Prog.lift (ArpViewer.headerLen header)
  let _ ← require .arp offset len
  pushLayer .arp offset len

/-- `Arp::display`. -/
def Arp.display (bytes : List UInt8) : Shown := do
  if ← ArpViewer.isEthernetIpv4 bytes then
    let operation ← ArpViewer.operation.get bytes
    let sender ← ArpViewer.senderProtocolAddr.get bytes
    let target ← ArpViewer.targetProtocolAddr.get bytes
    pure [.text "[Arp] ", .num operation, .text " ", .num sender, .text " -> ", .num target]
  else
    let operation ← ArpViewer.operation.get bytes
    let hardwareType ← ArpViewer.hardwareType.get bytes
    let protocolType ← ArpViewer.protocolType.get bytes
    pure [.text "[Arp] ", .num operation, .text " ", .num hardwareType, .text " ",
      .num protocolType]

end Packet
end Maja
