/-
# The pcapng slice reader

The block parsers and the slice reader of `src/capture/format/pcapng.rs`, with
arithmetic overflow a panic, as it is in a build with overflow checks.

A call of `next_block` finds the extent of the next block (`nextFrame`), moves
past it, parses the block (`parseFrame`) and notes what it says about the section
(`record`).  The three block types with options share one loop, `optionLoop`; it
runs on fuel, and an option is at least four bytes long, so the length of the
block is enough of it.
-/

import Maja.Capture.Basic
import Maja.Lib.Iterate

namespace Maja
namespace Capture

open Lib

/-- `u32::next_multiple_of(4)` and `u16::next_multiple_of(4)`, without their
overflow. -/
def nextMultipleOf4 (n : ℕ) : ℕ := (n + 3) / 4 * 4

/-- `BlockType`. -/
inductive BlockType where
  | sectionHeader
  | interfaceDescription
  | simplePacket
  | nameResolution
  | interfaceStatistics
  | enhancedPacket
  | decryptionSecrets
  | customCopyable
  | customNonCopyable
  | unknown (code : ℕ)
  deriving DecidableEq, Repr

/-- `BlockType::from(u32)`. -/
def BlockType.ofCode : ℕ → BlockType
  | 0x0A0D0D0A => sectionHeader
  | 0x00000001 => interfaceDescription
  | 0x00000003 => simplePacket
  | 0x00000004 => nameResolution
  | 0x00000005 => interfaceStatistics
  | 0x00000006 => enhancedPacket
  | 0x0000000A => decryptionSecrets
  | 0x00000BAD => customCopyable
  | 0x40000BAD => customNonCopyable
  | code => unknown code

/-! ### Options -/

namespace OptionType

@[match_pattern] def END_OF_OPT : ℕ := 0
@[match_pattern] def SHB_HARDWARE : ℕ := 2
@[match_pattern] def SHB_OS : ℕ := 3
@[match_pattern] def SHB_USER_APPL : ℕ := 4
@[match_pattern] def IF_NAME : ℕ := 2
@[match_pattern] def IF_DESCRIPTION : ℕ := 3
@[match_pattern] def IF_IPV4_ADDR : ℕ := 4
@[match_pattern] def IF_IPV6_ADDR : ℕ := 5
@[match_pattern] def IF_MAC_ADDR : ℕ := 6
@[match_pattern] def IF_EUI_ADDR : ℕ := 7
@[match_pattern] def IF_SPEED : ℕ := 8
@[match_pattern] def IF_TSRESOL : ℕ := 9
@[match_pattern] def IF_TZONE : ℕ := 10
@[match_pattern] def IF_FILTER : ℕ := 11
@[match_pattern] def IF_OS : ℕ := 12
@[match_pattern] def IF_FCSLEN : ℕ := 13
@[match_pattern] def IF_TSOFFSET : ℕ := 14
@[match_pattern] def IF_HARDWARE : ℕ := 15
@[match_pattern] def IF_TXSPEED : ℕ := 16
@[match_pattern] def IF_RXSPEED : ℕ := 17
@[match_pattern] def IF_IANA_TZNAME : ℕ := 18
@[match_pattern] def EPB_FLAGS : ℕ := 2
@[match_pattern] def EPB_HASH : ℕ := 3
@[match_pattern] def EPB_DROPCOUNT : ℕ := 4
@[match_pattern] def EPB_PACKET_ID : ℕ := 5
@[match_pattern] def EPB_QUEUE : ℕ := 6
@[match_pattern] def EPB_VERDICT : ℕ := 7
@[match_pattern] def EPB_PROCESSID_THREADID : ℕ := 8

end OptionType

/-- An option as `read_option` returns it, with the offset it advanced to. -/
structure OptionRecord where
  /-- `option_type`. -/
  type : ℕ
  /-- `option_value`, without the padding. -/
  value : List UInt8
  /-- The new `*offset`. -/
  next : ℕ
  deriving DecidableEq, Repr

/-- `read_option`.  The value is sliced out of the block before the padded length
is computed, and that sum is a `u16`. -/
def readOption (buffer : List UInt8) (e : Endian) (offset : ℕ) : Result OptionRecord := do
  let optionType ← e.readU16 (← Outcome.slice buffer offset (offset + 2))
  let optionLength ← e.readU16 (← Outcome.slice buffer (offset + 2) (offset + 2 + 2))
  if optionType = OptionType.END_OF_OPT then
    pure ⟨optionType, [], offset + 4⟩
  else do
    let value ← Outcome.slice buffer (offset + 4) (offset + 4 + optionLength)
    if nextMultipleOf4 optionLength < 2 ^ 16 then
      pure ⟨optionType, value, offset + 4 + nextMultipleOf4 optionLength⟩
    else
      .panic

/-- The option loop of a block parser, with `setOption` for its `match`: read
options until the trailing length or `END_OF_OPT`. -/
def optionLoop {β : Type} (setOption : β → ℕ → List UInt8 → Result β) (block : List UInt8)
    (e : Endian) : ℕ → ℕ → β → Result β
  | 0, _, _ => .outOfFuel
  | fuel + 1, position, acc =>
      if position < block.length - 4 then do
        let option ← readOption block e position
        if option.type = OptionType.END_OF_OPT then
          pure acc
        else do
          let acc ← setOption acc option.type option.value
          optionLoop setOption block e fuel option.next acc
      else
        pure acc

/-- `check_block_total_length`. -/
def checkBlockTotalLength (block : List UInt8) (e : Endian) (what : String) : Result Unit := do
  let leading ← e.readU32 (← Outcome.slice block 4 8)
  let trailing ← e.readU32 (← Outcome.slice block (block.length - 4) block.length)
  if leading ≠ trailing then
    .err (.pcapngBlockTotalLengthMismatch what leading trailing)
  else
    pure ()

/-- `String::from_utf8(option_value.to_vec())?`. -/
def fromUtf8 (bytes : List UInt8) : Result String :=
  match String.fromUTF8? ⟨bytes.toArray⟩ with
  | some text => .ok text
  | none => .err .fromUtf8

/-- `option_value.try_into()?` to an array of `n` bytes. -/
def tryIntoArray (n : ℕ) (bytes : List UInt8) : Result (List UInt8) :=
  if bytes.length = n then .ok bytes else .err .tryFromSlice

/-- `EthAddr::from_slice`: `copy_from_slice` panics on any other length. -/
def ethAddrFromSlice (bytes : List UInt8) : Result (List UInt8) :=
  if bytes.length = 6 then .ok bytes else .panic

/-! ### Section Header Block -/

/-- `SectionHeader`. -/
structure SectionHeader where
  endian : Endian
  majorVersion : ℕ
  minorVersion : ℕ
  sectionLength : I64
  hardware : Option String
  os : Option String
  userAppl : Option String
  deriving Repr, DecidableEq

/-- The byte-order magic: big-endian when it reads so, little-endian otherwise. -/
def magicEndian (magic : List UInt8) : Endian :=
  if magic = [0x1A, 0x2B, 0x3C, 0x4D] then .big else .little

namespace SectionHeader

/-- The option `match` of `SectionHeader::parse`. -/
def setOption (header : SectionHeader) (type : ℕ) (value : List UInt8) : Result SectionHeader :=
  match type with
  | OptionType.SHB_HARDWARE => do pure { header with hardware := some (← fromUtf8 value) }
  | OptionType.SHB_OS => do pure { header with os := some (← fromUtf8 value) }
  | OptionType.SHB_USER_APPL => do pure { header with userAppl := some (← fromUtf8 value) }
  | _ => pure header

/-- `SectionHeader::parse`. -/
def parse (block : List UInt8) : Result SectionHeader :=
  if block.length < 28 then
    .err (.truncatedCapture "pcapng section header block")
  else do
    let endian := magicEndian (← Outcome.slice block 8 12)
    let majorVersion ← endian.readU16 (← Outcome.slice block 12 14)
    let minorVersion ← endian.readU16 (← Outcome.slice block 14 16)
    let sectionLength ← endian.readI64 (← Outcome.slice block 16 24)
    let header ← optionLoop setOption block endian block.length 24
      ⟨endian, majorVersion, minorVersion, sectionLength, none, none, none⟩
    checkBlockTotalLength block endian "Section header"
    pure header

end SectionHeader

/-! ### Interface Description Block -/

/-- `InterfaceDescription`. -/
structure InterfaceDescription where
  linkType : LinkType
  snapLen : ℕ
  name : Option String
  description : Option String
  ipv4Addr : List (List UInt8 × List UInt8)
  ipv6Addr : List (List UInt8 × UInt8)
  macAddr : Option (List UInt8)
  euiAddr : Option (List UInt8)
  speed : Option ℕ
  tsresol : Option UInt8
  tzone : Option ℤ
  filter : List UInt8
  os : Option String
  fcsLen : Option UInt8
  tsoffset : Option I64
  hardware : Option String
  txspeed : Option ℕ
  rxspeed : Option ℕ
  ianaTzname : Option String
  deriving Repr, DecidableEq

namespace InterfaceDescription

/-- `InterfaceDescription::new`. -/
def new (linkType : LinkType) (snapLen : ℕ) : InterfaceDescription where
  linkType := linkType
  snapLen := snapLen
  name := none
  description := none
  ipv4Addr := []
  ipv6Addr := []
  macAddr := none
  euiAddr := none
  speed := none
  tsresol := none
  tzone := none
  filter := []
  os := none
  fcsLen := none
  tsoffset := none
  hardware := none
  txspeed := none
  rxspeed := none
  ianaTzname := none

/-- The option `match` of `InterfaceDescription::parse`.  An IPv4 option indexes
its bytes 0 to 7, an IPv6 option slices 16 and indexes the next. -/
def setOption (e : Endian) (d : InterfaceDescription) (type : ℕ) (value : List UInt8) :
    Result InterfaceDescription :=
  match type with
  | OptionType.IF_NAME => do pure { d with name := some (← fromUtf8 value) }
  | OptionType.IF_DESCRIPTION => do pure { d with description := some (← fromUtf8 value) }
  | OptionType.IF_IPV4_ADDR => do
      let address ← Outcome.slice value 0 4
      let netmask ← Outcome.slice value 4 8
      pure { d with ipv4Addr := d.ipv4Addr ++ [(address, netmask)] }
  | OptionType.IF_IPV6_ADDR => do
      let address ← tryIntoArray 16 (← Outcome.slice value 0 16)
      let prefixLen ← Outcome.index value 16
      pure { d with ipv6Addr := d.ipv6Addr ++ [(address, prefixLen)] }
  | OptionType.IF_MAC_ADDR => do pure { d with macAddr := some (← ethAddrFromSlice value) }
  | OptionType.IF_EUI_ADDR => do pure { d with euiAddr := some (← tryIntoArray 8 value) }
  | OptionType.IF_SPEED => do pure { d with speed := some (← e.readU64 value) }
  | OptionType.IF_TSRESOL => do pure { d with tsresol := some (← Outcome.index value 0) }
  | OptionType.IF_TZONE => do pure { d with tzone := some (← e.readI32 value) }
  | OptionType.IF_FILTER => pure { d with filter := value }
  | OptionType.IF_OS => do pure { d with os := some (← fromUtf8 value) }
  | OptionType.IF_FCSLEN => do pure { d with fcsLen := some (← Outcome.index value 0) }
  | OptionType.IF_TSOFFSET => do pure { d with tsoffset := some (← e.readI64 value) }
  | OptionType.IF_HARDWARE => do pure { d with hardware := some (← fromUtf8 value) }
  | OptionType.IF_TXSPEED => do pure { d with txspeed := some (← e.readU64 value) }
  | OptionType.IF_RXSPEED => do pure { d with rxspeed := some (← e.readU64 value) }
  | OptionType.IF_IANA_TZNAME => do pure { d with ianaTzname := some (← fromUtf8 value) }
  | _ => pure d

/-- `InterfaceDescription::parse`. -/
def parse (block : List UInt8) (e : Endian) : Result InterfaceDescription :=
  if block.length < 20 then
    .err (.truncatedCapture "pcapng interface description block")
  else do
    let linkType ← e.readU16 (← Outcome.slice block 8 10)
    let snapLen ← e.readU32 (← Outcome.slice block 12 16)
    let d ← optionLoop (setOption e) block e block.length 16 (new (LinkType.ofCode linkType) snapLen)
    checkBlockTotalLength block e "Interface description"
    pure d

end InterfaceDescription

/-! ### Packet blocks -/

/-- `SimplePacketHeader`. -/
structure SimplePacketHeader where
  originalLen : ℕ
  deriving Repr, DecidableEq

namespace SimplePacketHeader

/-- `SimplePacketHeader::parse`: the header and the packet data. -/
def parse (block : List UInt8) (e : Endian) : Result (SimplePacketHeader × List UInt8) :=
  if block.length < 16 then
    .err (.truncatedCapture "pcapng simple packet block")
  else do
    checkBlockTotalLength block e "Simple packet"
    let originalLen ← e.readU32 (← Outcome.slice block 8 12)
    let data ← Outcome.slice block 12 (block.length - 4)
    pure (⟨originalLen⟩, data)

/-- `SimplePacketHeader::into_packet_record`. -/
def intoPacketRecord (header : SimplePacketHeader) (interface : InterfaceDescription)
    (data : List UInt8) : PacketRecord where
  timestamp := I64.ofInt 0
  originalLength := header.originalLen
  data := data
  linkType := interface.linkType

end SimplePacketHeader

/-- `EnhancedPacketHeaderOptions`. -/
structure EnhancedPacketHeaderOptions where
  interfaceId : ℕ
  timestampHigh : ℕ
  timestampLow : ℕ
  capturedLen : ℕ
  originalLen : ℕ
  flags : Option ℕ
  hash : List (List UInt8)
  dropCount : Option ℕ
  packetId : Option ℕ
  queue : Option ℕ
  verdict : List (List UInt8)
  processidThreadid : Option (ℕ × ℕ)
  deriving Repr, DecidableEq

namespace EnhancedPacketHeaderOptions

/-- The option `match` of `EnhancedPacketHeaderOptions::parse`. -/
def setOption (e : Endian) (p : EnhancedPacketHeaderOptions) (type : ℕ) (value : List UInt8) :
    Result EnhancedPacketHeaderOptions :=
  match type with
  | OptionType.EPB_FLAGS => do pure { p with flags := some (← e.readU32 value) }
  | OptionType.EPB_HASH => pure { p with hash := p.hash ++ [value] }
  | OptionType.EPB_DROPCOUNT => do pure { p with dropCount := some (← e.readU64 value) }
  | OptionType.EPB_PACKET_ID => do pure { p with packetId := some (← e.readU64 value) }
  | OptionType.EPB_QUEUE => do pure { p with queue := some (← e.readU32 value) }
  | OptionType.EPB_VERDICT => pure { p with verdict := p.verdict ++ [value] }
  | OptionType.EPB_PROCESSID_THREADID => do
      let processId ← e.readU32 (← Outcome.slice value 0 4)
      let threadId ← e.readU32 (← Outcome.slice value 4 8)
      pure { p with processidThreadid := some (processId, threadId) }
  | _ => pure p

/-- `EnhancedPacketHeaderOptions::parse`: the header with its options and the
packet data.  The padded length is a `u32`. -/
def parse (block : List UInt8) (e : Endian) : Result (EnhancedPacketHeaderOptions × List UInt8) :=
  if block.length < 32 then
    .err (.truncatedCapture "pcapng enhanced packet block")
  else do
    let interfaceId ← e.readU32 (← Outcome.slice block 8 12)
    let timestampHigh ← e.readU32 (← Outcome.slice block 12 16)
    let timestampLow ← e.readU32 (← Outcome.slice block 16 20)
    let capturedLen ← e.readU32 (← Outcome.slice block 20 24)
    let originalLen ← e.readU32 (← Outcome.slice block 24 28)
    if 2 ^ 32 ≤ nextMultipleOf4 capturedLen then
      .panic
    else if block.length < 28 + nextMultipleOf4 capturedLen + 4 then
      .err (.truncatedCapture "pcapng enhanced packet block")
    else do
      let data ← Outcome.slice block 28 (28 + capturedLen)
      let p ← optionLoop (setOption e) block e block.length (28 + nextMultipleOf4 capturedLen)
        ⟨interfaceId, timestampHigh, timestampLow, capturedLen, originalLen, none, [], none, none,
          none, [], none⟩
      checkBlockTotalLength block e "Enhanced packet"
      pure (p, data)

/-- The two branches of `calc_timestamp`: `raw` units of `base ^ -exponent`
seconds, where `base ^ unit` of them are a second's nanoseconds.  The power is an
`i64`, and `expect` turns a product that overflows into a panic. -/
def scaleTimestamp (base : ℤ) (unit exponent : ℕ) (raw : I64) : Result I64 :=
  if exponent ≤ unit then do
    let factor ← I64.checked (base ^ (unit - exponent))
    I64.checked (raw.val * factor.val)
  else do
    let divisor ← I64.checked (base ^ (exponent - unit))
    I64.checked (raw.val.tdiv divisor.val)

/-- `EnhancedPacketHeaderOptions::calc_timestamp`. -/
def calcTimestamp (raw : ℕ) (tsresol : UInt8) (tsoffset : I64) : Result I64 := do
  let timestamp ←
    if tsresol.toNat < 128 then
      scaleTimestamp 10 9 tsresol.toNat (I64.ofWord raw)
    else
      scaleTimestamp 2 30 (tsresol ^^^ 0x80).toNat (I64.ofWord raw)
  let offset ← I64.checked (tsoffset.val * 1000000000)
  I64.checked (timestamp.val + offset.val)

/-- `EnhancedPacketHeaderOptions::packet_timestamp`. -/
def packetTimestamp (p : EnhancedPacketHeaderOptions) (interface : InterfaceDescription) :
    Result I64 :=
  calcTimestamp (p.timestampHigh <<< 32 ||| p.timestampLow) (interface.tsresol.getD 6)
    (interface.tsoffset.getD (I64.ofInt 0))

/-- `EnhancedPacketHeaderOptions::into_packet_record`. -/
def intoPacketRecord (p : EnhancedPacketHeaderOptions) (interface : InterfaceDescription)
    (data : List UInt8) : Result PacketRecord := do
  let timestamp ← p.packetTimestamp interface
  pure ⟨timestamp, p.originalLen, data, interface.linkType⟩

end EnhancedPacketHeaderOptions

/-! ### Blocks -/

/-- `PcapngBlock`. -/
inductive PcapngBlock where
  | sectionHeader (header : SectionHeader)
  | interfaceDescription (d : InterfaceDescription)
  | simplePacket (header : SimplePacketHeader) (packetData : List UInt8)
  | enhancedPacket (headerOptions : EnhancedPacketHeaderOptions) (packetData : List UInt8)
  | raw (blockType : BlockType) (data : List UInt8)
  deriving Repr, DecidableEq

/-- The extent of a block: its type, its byte order, where it starts and its
complete bytes, of which there are at least twelve. -/
structure Frame where
  blockType : BlockType
  endian : Endian
  offset : ℕ
  raw : List UInt8
  twelve_le : 12 ≤ raw.length

/-- The `match block_type` of `next_block`, on the bytes of the block. -/
def parseFrame (frame : Frame) : Result PcapngBlock :=
  match frame.blockType with
  | .sectionHeader => do pure (.sectionHeader (← SectionHeader.parse frame.raw))
  | .interfaceDescription => do
      pure (.interfaceDescription (← InterfaceDescription.parse frame.raw frame.endian))
  | .simplePacket => do
      let (header, data) ← SimplePacketHeader.parse frame.raw frame.endian
      pure (.simplePacket header data)
  | .enhancedPacket => do
      let (headerOptions, data) ← EnhancedPacketHeaderOptions.parse frame.raw frame.endian
      pure (.enhancedPacket headerOptions data)
  | blockType => do pure (.raw blockType (← Outcome.slice frame.raw 8 frame.raw.length))

/-- `PcapngBlockRecord`. -/
structure PcapngBlockRecord where
  offset : ℕ
  raw : List UInt8
  block : PcapngBlock
  deriving Repr, DecidableEq

/-- `PcapngSliceReader`.  The offset of the next block never leaves the data. -/
structure PcapngSliceReader where
  /-- The latest section header. -/
  sectionHeader : Option SectionHeader
  /-- The interfaces, of every section so far. -/
  interfaces : List InterfaceDescription
  /-- The underlying capture bytes. -/
  data : List UInt8
  /-- Offset of the next block. -/
  pos : ℕ
  pos_le : pos ≤ data.length

namespace PcapngSliceReader

/-- `PcapngSliceReader::new`. -/
def new (data : List UInt8) : PcapngSliceReader := ⟨none, [], data, 0, Nat.zero_le _⟩

/-- `&self.data[self.pos..]`. -/
def remaining (s : PcapngSliceReader) : List UInt8 := s.data.drop s.pos

/-- What is left is what lies behind the position. -/
@[simp] theorem length_remaining (s : PcapngSliceReader) :
    s.remaining.length = s.data.length - s.pos := by
  simp [remaining]

/-- The type and the byte order of the block that `remaining` starts with.  A
section header carries its own byte order; any other block needs a section. -/
def blockTypeAndEndian (s : PcapngSliceReader) : Result (BlockType × Endian) :=
  let blockTypeBytes := bytesAt s.remaining 0 4
  if blockTypeBytes = [0x0A, 0x0D, 0x0D, 0x0A] then
    .ok (.sectionHeader, magicEndian (bytesAt s.remaining 8 4))
  else
    match s.sectionHeader with
    | none => .err (.invalidMagicNumber (beNat blockTypeBytes))
    | some header =>
        .ok (.ofCode (header.endian.number blockTypeBytes), header.endian)

/-- The first half of `next_block`: the extent of the next block, `none` when the
slice is exhausted. -/
def nextFrame (s : PcapngSliceReader) : Result (Option Frame) :=
  if s.remaining.isEmpty then
    .ok none
  else if s.remaining.length < 12 then
    .err (.truncatedCapture "pcapng block")
  else do
    let (blockType, endian) ← s.blockTypeAndEndian
    let blockTotalLength := endian.wordAt s.remaining 4 4
    if h : blockTotalLength < 12 ∨ s.remaining.length < blockTotalLength then
      .err (.truncatedCapture "pcapng block")
    else
      pure (some ⟨blockType, endian, s.pos, s.remaining.take blockTotalLength, by simp at h ⊢; omega⟩)

/-- `self.pos += block_total_length`. -/
def advance (s : PcapngSliceReader) (n : ℕ) : PcapngSliceReader :=
  { s with pos := min (s.pos + n) s.data.length, pos_le := Nat.min_le_right _ _ }

/-- What a parsed block changes: a section header becomes the section, an
interface description joins the interfaces. -/
def record (s : PcapngSliceReader) : PcapngBlock → PcapngSliceReader
  | .sectionHeader header => { s with sectionHeader := some header }
  | .interfaceDescription d => { s with interfaces := s.interfaces ++ [d] }
  | _ => s

/-- `PcapngSliceReader::next_block`. -/
def nextBlock : Prog PcapngSliceReader CaptureError (Option PcapngBlockRecord) := do
  let s ← Prog.get
  match ← Prog.lift s.nextFrame with
  | none => pure none
  | some frame => do
      Prog.modify (advance · frame.raw.length)
      let block ← Prog.lift (parseFrame frame)
      Prog.modify (record · block)
      pure (some ⟨frame.offset, frame.raw, block⟩)

/-- One turn of the loop in `next_packet_with_offset`: the packet of a packet
block, `none` for any other block. -/
def packetOfBlock (record : PcapngBlockRecord) (s : PcapngSliceReader) :
    Result (Option LocatedPacketRecord) :=
  match record.block with
  | .simplePacket header data =>
      match s.interfaces.head? with
      | some interface =>
          .ok (some ⟨record.offset, record.raw, header.intoPacketRecord interface data⟩)
      | none => .err .missingPcapngInterfaceDescriptionBlock
  | .enhancedPacket headerOptions data =>
      match s.interfaces[headerOptions.interfaceId]? with
      | some interface => do
          pure (some ⟨record.offset, record.raw, ← headerOptions.intoPacketRecord interface data⟩)
      | none => .err (.invalidPcapngPacketInterfaceId headerOptions.interfaceId)
  | _ => .ok none

/-- The loop of `next_packet_with_offset`. -/
def packetLoop : ℕ → Prog PcapngSliceReader CaptureError (Option LocatedPacketRecord)
  | 0 => fun _ => .outOfFuel
  | fuel + 1 => do
      match ← nextBlock with
      | none => pure none
      | some record => do
          let s ← Prog.get
          match ← Prog.lift (packetOfBlock record s) with
          | some packet => pure (some packet)
          | none => packetLoop fuel

/-- `PcapngSliceReader::next_packet_with_offset`.  A turn of the loop uses up a
block, so one more turn than there are bytes is enough. -/
def nextPacketWithOffset : Prog PcapngSliceReader CaptureError (Option LocatedPacketRecord) := do
  let s ← Prog.get
  packetLoop (s.data.length + 1)

/-- `PcapngSliceReader::next_packet`. -/
def nextPacket : Prog PcapngSliceReader CaptureError (Option PacketRecord) := do
  match ← nextPacketWithOffset with
  | some located => pure (some located.packet)
  | none => pure none

end PcapngSliceReader

end Capture
end Maja
