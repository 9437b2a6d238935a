/-
# Scanning a capture and writing it back

`scan_pcap`, `scan_pcapng`, the sort of `main` and `write_reordered` of
`tools/maja-reordercap/src/main.rs`.  A scan keeps, for every section, the byte
ranges that are copied to the output; a file operation that fails is left out, so
what `write_reordered` writes is the list of bytes it hands to the writer.

The loops run on fuel; a record or a block is never empty, so one more turn than
there are bytes is enough.
-/

import Maja.Capture.Pcap
import Maja.Capture.Pcapng
import Maja.Lib.StableSort

namespace Maja
namespace Reordercap

open Lib Capture

/-- Why a scan fails. -/
inductive ScanError where
  | capture (e : CaptureError)
  /-- The `bail!` of `scan_pcapng`. -/
  | simplePacket
  deriving DecidableEq, Repr

/-- `PacketIndex`. -/
structure PacketIndex where
  timestamp : I64
  offset : ℕ
  recordLen : ℕ
  deriving DecidableEq, Repr

/-- `Misplaced`. -/
structure Misplaced where
  frame : ℕ
  timestamp : I64
  latestFrame : ℕ
  backward : I64
  deriving DecidableEq, Repr

/-- `Scan`. -/
structure Scan where
  index : List PacketIndex
  misplaced : List Misplaced
  maxTimestamp : I64
  latestFrame : ℕ
  deriving DecidableEq, Repr

namespace Scan

/-- `Scan::new`. -/
def new : Scan := ⟨[], [], I64.MIN, 0⟩

/-- `Scan::push`.  `checks` says whether the build has overflow checks. -/
def push {ε : Type} (checks : Bool) (scan : Scan) (timestamp : I64)
    (offset recordLen frame : ℕ) : Outcome ε Scan := do
  let scan ←
    if timestamp < scan.maxTimestamp then do
      let backward ← I64.arith checks (scan.maxTimestamp.val - timestamp.val)
      pure { scan with
        misplaced := scan.misplaced ++ [⟨frame, timestamp, scan.latestFrame, backward⟩] }
    else
      pure { scan with maxTimestamp := timestamp, latestFrame := frame }
  pure { scan with index := scan.index ++ [⟨timestamp, offset, recordLen⟩] }

end Scan

/-- `SectionScan`.  A range is an offset and a length. -/
structure SectionScan where
  /-- `prefix`. -/
  prefixRange : ℕ × ℕ
  lateIdbs : List (ℕ × ℕ)
  scan : Scan
  suffix : List (ℕ × ℕ)
  deriving DecidableEq, Repr

/-! ### pcap -/

/-- The loop of `scan_pcap`. -/
def scanPcapLoop (checks : Bool) : ℕ → PcapSliceReader → Scan → Outcome ScanError Scan
  | 0, _, _ => .outOfFuel
  | fuel + 1, reader, scan => do
      match ← (PcapSliceReader.nextPacketWithOffset reader).mapErr (.capture ·.1) with
      | (some located, reader) => do
          let frame := scan.index.length + 1
          let scan ← scan.push checks located.packet.timestamp located.offset located.raw.length frame
          scanPcapLoop checks fuel reader scan
      | (none, _) => pure scan

/-- `scan_pcap`. -/
def scanPcap (checks : Bool) (data : List UInt8) : Outcome ScanError (List SectionScan) := do
  let reader ← (PcapSliceReader.new data).mapErr .capture
  let scan ← scanPcapLoop checks (data.length + 1) reader Scan.new
  pure [⟨(0, PcapHeader.LEN), [], scan, []⟩]

/-! ### pcapng -/

/-- The variables of `scan_pcapng`. -/
structure PcapngScan where
  sections : List SectionScan
  inSection : Bool
  sectionStart : ℕ
  prefixEnd : Option ℕ
  lateIdbs : List (ℕ × ℕ)
  scan : Scan
  suffix : List (ℕ × ℕ)
  frame : ℕ
  deriving DecidableEq, Repr

namespace PcapngScan

/-- The variables before the first block. -/
def new : PcapngScan := ⟨[], false, 0, none, [], Scan.new, [], 0⟩

/-- The section that is open, with `stop` as the end of its prefix when no packet
ended it.  The end never lies before the start. -/
def close (s : PcapngScan) (stop : ℕ) : SectionScan :=
  ⟨(s.sectionStart, s.prefixEnd.getD stop - s.sectionStart), s.lateIdbs, s.scan, s.suffix⟩

/-- The `match` of `scan_pcapng`, on a block and the interfaces that the reader
knows behind it. -/
def visit (checks : Bool) (interfaces : List InterfaceDescription) (record : PcapngBlockRecord)
    (s : PcapngScan) : Outcome ScanError PcapngScan :=
  match record.block with
  | .sectionHeader _ =>
      let s := if s.inSection then
          { s with
            sections := s.sections ++ [s.close record.offset], lateIdbs := [], suffix := [] }
        else s
      .ok { s with
        inSection := true, sectionStart := record.offset, prefixEnd := none, scan := Scan.new }
  | .interfaceDescription _ =>
      .ok (if s.prefixEnd.isSome then
          { s with lateIdbs := s.lateIdbs ++ [(record.offset, record.raw.length)] }
        else s)
  | .simplePacket _ _ => .err .simplePacket
  | .enhancedPacket ep _ =>
      match interfaces[ep.interfaceId]? with
      | none => .err (.capture (.invalidPcapngPacketInterfaceId ep.interfaceId))
      | some interface => do
          let s := { s with
            prefixEnd := some (s.prefixEnd.getD record.offset), frame := s.frame + 1 }
          let timestamp ← (ep.packetTimestamp interface).mapErr .capture
          let scan ← s.scan.push checks timestamp record.offset record.raw.length s.frame
          pure { s with scan := scan }
  | .raw _ _ =>
      .ok (if s.prefixEnd.isSome then
          { s with suffix := s.suffix ++ [(record.offset, record.raw.length)] }
        else s)

end PcapngScan

/-- The loop of `scan_pcapng`. -/
def scanPcapngLoop (checks : Bool) : ℕ → PcapngSliceReader → PcapngScan → Outcome ScanError PcapngScan
  | 0, _, _ => .outOfFuel
  | fuel + 1, reader, s => do
      match ← (PcapngSliceReader.nextBlock reader).mapErr (.capture ·.1) with
      | (some record, reader) => do
          let s ← s.visit checks reader.interfaces record
          scanPcapngLoop checks fuel reader s
      | (none, _) => pure s

/-- `scan_pcapng`. -/
def scanPcapng (checks : Bool) (data : List UInt8) : Outcome ScanError (List SectionScan) := do
  let s ← scanPcapngLoop checks (data.length + 1) (PcapngSliceReader.new data) PcapngScan.new
  pure (if s.inSection then s.sections ++ [s.close data.length] else s.sections)

/-! ### Writing -/

/-- The sort of `main`. -/
def sortSections (sections : List SectionScan) : List SectionScan :=
  sections.map fun s =>
    { s with scan := { s.scan with index := sortByKey PacketIndex.timestamp s.scan.index } }

variable {ε : Type}

/-- `write_all(&data[offset..offset + len])` for one range after another. -/
def copyRanges (data : List UInt8) : List (ℕ × ℕ) → Outcome ε (List UInt8)
  | [] => .ok []
  | (offset, len) :: ranges => do
      let bytes ← Outcome.slice data offset (offset + len)
      let rest ← copyRanges data ranges
      pure (bytes ++ rest)

/-- The ranges of a section, in the order they are written. -/
def SectionScan.ranges (s : SectionScan) : List (ℕ × ℕ) :=
  s.prefixRange :: s.lateIdbs ++ s.scan.index.map (fun entry => (entry.offset, entry.recordLen)) ++
    s.suffix

/-- `write_reordered`: the bytes it writes. -/
def writeReordered (data : List UInt8) (sections : List SectionScan) : Outcome ε (List UInt8) :=
  copyRanges data (sections.flatMap SectionScan.ranges)

end Reordercap
end Maja
