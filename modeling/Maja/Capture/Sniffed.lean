/-
# The sniffed reader

`SniffedReader` of `src/capture.rs`: a streaming reader of the format that the first
four bytes of the source name.

No call is for nothing, of either format: a packet and an error leave fewer bytes
to read (`nextPacket_consumes`), so a caller that reads on past every error comes
to the end of the source (`exists_drains`).
-/

import Maja.Lib.Drain
import Maja.Capture.PcapngLockstep

namespace Maja
namespace Capture

open Lib

/-- `CaptureFormat::from_magic_bytes`. -/
def CaptureFormat.fromMagicBytes (magic : List UInt8) : Result CaptureFormat :=
  match beNat magic with
  | Magic.BE_USEC => .ok .pcap
  | Magic.BE_NSEC => .ok .pcap
  | Magic.LE_USEC => .ok .pcap
  | Magic.LE_NSEC => .ok .pcap
  | magicNumber =>
    if BlockType.ofCode magicNumber = .sectionHeader then .ok .pcapng
    else .err (.invalidMagicNumber magicNumber)

/-! ### Interfaces -/

/-- `Resolution`: units of `2^-exp` or `10^-exp` seconds. -/
inductive Resolution where
  | powerOfTwo (exp : UInt8)
  | powerOfTen (exp : UInt8)
  deriving DecidableEq, Repr

/-- `Interface`. -/
structure Interface where
  linkType : LinkType
  snapLen : ℕ
  resolution : Resolution
  deriving DecidableEq, Repr

/-- `PcapHeader::to_interface`. -/
def PcapHeader.toInterface (header : PcapHeader) : Interface where
  linkType := header.linkType
  snapLen := header.snapLen
  resolution := if header.isNanosecond then .powerOfTen 9 else .powerOfTen 6

/-- `InterfaceDescription::to_interface`. -/
def InterfaceDescription.toInterface (d : InterfaceDescription) : Interface where
  linkType := d.linkType
  snapLen := d.snapLen
  resolution :=
    let tsresol := d.tsresol.getD 6
    if tsresol < 128 then .powerOfTen tsresol else .powerOfTwo (tsresol ^^^ 0x80)

/-! ### The reader -/

/-- `SniffedReader`. -/
inductive SniffedReader where
  | pcap (reader : PcapReader)
  | pcapng (reader : PcapngReader)

/-- `SniffedSliceReader::new` and `SniffedSliceReader::format`: the format of a slice
that can be read. -/
def sniffFormat (data : List UInt8) : Result CaptureFormat :=
  if data.length < 4 then .err (.truncatedCapture "capture file header")
  else do
    match ← CaptureFormat.fromMagicBytes (data.take 4) with
    | .pcap => do
      let _ ← PcapSliceReader.new data
      pure .pcap
    | .pcapng => pure .pcapng

namespace SniffedReader

/-- `SniffedReader::new`.  The magic bytes are chained back onto the source. -/
def new (source : List UInt8) : Result SniffedReader :=
  match readExact 4 source with
  | none => .err .io
  | some (magic, rest) => do
    let source := magic ++ rest
    match ← CaptureFormat.fromMagicBytes magic with
    | .pcap => do
      let reader ← PcapReader.new source
      pure (pcap reader)
    | .pcapng => pure (pcapng (PcapngReader.new source))

/-- `SniffedReader::next_packet`. -/
def nextPacket : Prog SniffedReader CaptureError (Option PacketRecord)
  | pcap reader =>
    match reader.nextPacket with
    | .ok (packet, reader) => .ok (packet, pcap reader)
    | .err (e, reader) => .err (e, pcap reader)
    | .panic => .panic
    | .outOfFuel => .outOfFuel
  | pcapng reader =>
    match reader.nextPacket with
    | .ok (packet, reader) => .ok (packet, pcapng reader)
    | .err (e, reader) => .err (e, pcapng reader)
    | .panic => .panic
    | .outOfFuel => .outOfFuel

/-- `SniffedReader::interfaces`. -/
def interfaces : SniffedReader → List Interface
  | pcap reader => [reader.header.toInterface]
  | pcapng reader => reader.interfaces.map InterfaceDescription.toInterface

/-- What the reader has still to read. -/
def source : SniffedReader → List UInt8
  | pcap reader => reader.source
  | pcapng reader => reader.source

end SniffedReader

/-! ### Every call reads on -/

namespace PcapReader

/-- A packet of a pcap source uses up its record, and an error all there is. -/
theorem nextPacket_consumes (r : PcapReader) :
    Consumes (fun r => r.source.length) r.source.length r.nextPacket := by
  have hspec := r.readPacketRaw_spec
  rw [nextPacket]
  simp only [Prog.bind_apply, Prog.get_apply, Outcome.ok_bind]
  cases hrecord : recordAt r.header.endian r.source with
  | atEnd | tornHeader =>
    rw [hrecord] at hspec
    obtain ⟨r', hread⟩ := hspec
    rw [hread]
    trivial
  | tornData =>
    have hpos : 0 < r.source.length := by
      unfold recordAt at hrecord
      split_ifs at hrecord with hnil
      exact List.length_pos_iff.2 hnil
    rw [hrecord] at hspec
    obtain ⟨err, hread⟩ := hspec
    rw [hread]
    exact hpos
  | record header data rest =>
    rw [hrecord] at hspec
    have hread : r.readPacketRaw = .ok (some (header, data), { r with source := rest }) := hspec
    rw [hread, Outcome.ok_bind]
    dsimp only
    rcases header.toPacket_cases data r.nanosecond r.header.linkType with ⟨packet, hpacket⟩ | hpacket
    · rw [hpacket]
      exact recordAt_rest_length hrecord
    · rw [hpacket]
      trivial

end PcapReader

namespace PcapngReader

/-- Parsing a block does not run out of fuel. -/
theorem parseBlock_ne_outOfFuel (r : PcapngReader) (blockType : BlockType) (block : List UInt8) :
    r.parseBlock blockType block ≠ .outOfFuel := by
  unfold parseBlock
  split
  · exact Outcome.bind_ne_outOfFuel SectionHeader.parse_ne_outOfFuel fun _ _ => by simp
  · split
    · exact Outcome.bind_ne_outOfFuel InterfaceDescription.parse_ne_outOfFuel fun _ _ => by simp
    · simp
  · split
    · exact Outcome.bind_ne_outOfFuel SimplePacketHeader.parse_ne_outOfFuel fun _ _ => by simp
    · simp
  · split
    · exact Outcome.bind_ne_outOfFuel EnhancedPacketHeaderOptions.parse_ne_outOfFuel
        fun _ _ => by simp
    · simp
  · exact Outcome.bind_ne_outOfFuel Outcome.slice_ne_outOfFuel fun _ _ => by simp

/-- Looking for the next block uses up the bytes that were looked at. -/
theorem readNextBlock_consumes (r : PcapngReader) :
    Consumes (fun r => r.source.length) r.source.length r.readNextBlock := by
  have hrest : ∀ (blockType : BlockType) (e : Endian) (k : ℕ), 8 ≤ k → k ≤ r.source.length →
      Consumes (fun r => r.source.length) r.source.length
        (readRest blockType e (r.source.take k) (bytesAt r.source 4 4) (r.source.drop k) r) := by
    intro blockType e k hk hle
    rw [readRest_eq _ _ hle]
    split_ifs with hshort hlong
    · show (r.source.drop k).length < _
      rw [List.length_drop]
      omega
    · show 0 < r.source.length
      omega
    · show (r.source.drop _).length < _
      rw [List.length_drop]
      omega
  rw [readNextBlock_eq]
  split_ifs with h₄ h₈ hsection h₁₂
  · trivial
  · show 0 < r.source.length
    omega
  · show 0 < r.source.length
    omega
  · exact hrest _ _ 12 (by omega) (by omega)
  · cases r.sectionHeader with
    | none =>
      show (r.source.drop 8).length < _
      rw [List.length_drop]
      omega
    | some header => exact hrest _ _ 8 (by omega) (by omega)

/-- Recording a block keeps the source. -/
@[simp] theorem record_source (r : PcapngReader) (block : PcapngBlock) :
    (r.record block).source = r.source := by
  cases block <;> rfl

/-- A block, and an error in one, leave fewer bytes. -/
theorem nextBlock_consumes (r : PcapngReader) :
    Consumes (fun r => r.source.length) r.source.length r.nextBlock := by
  have hconsumes := r.readNextBlock_consumes
  rcases hread : r.readNextBlock with ⟨_ | ⟨blockType, block⟩, r'⟩ | ⟨e, r'⟩ | _ | _
  · rw [nextBlock, Prog.bind_apply, hread]
    trivial
  · rw [hread] at hconsumes
    rw [nextBlock_of_readNextBlock hread]
    rcases hparse : r'.parseBlock blockType block with parsed | e | _ | _
    · show ((r'.record parsed).source).length < _
      rw [record_source]
      exact hconsumes
    · exact hconsumes
    · trivial
    · exact absurd hparse (r'.parseBlock_ne_outOfFuel blockType block)
  · rw [hread] at hconsumes
    rw [nextBlock, Prog.bind_apply, hread]
    exact hconsumes
  · rw [nextBlock, Prog.bind_apply, hread]
    trivial
  · rw [hread] at hconsumes
    exact hconsumes.elim

/-- The loop of `next_packet` comes to a packet, an error or the end: every block
that it passes over leaves fewer bytes. -/
theorem packetLoop_consumes {fuel : ℕ} {r : PcapngReader} (hfuel : r.source.length < fuel) :
    Consumes (fun r => r.source.length) r.source.length (packetLoop fuel r) := by
  induction fuel generalizing r with
  | zero => omega
  | succ fuel ih =>
    have hconsumes := r.nextBlock_consumes
    rw [packetLoop_succ]
    rcases hblock : r.nextBlock with ⟨_ | block, r'⟩ | ⟨e, r'⟩ | _ | _
    · trivial
    · rw [hblock] at hconsumes
      have hlt : r'.source.length < r.source.length := hconsumes
      rw [Outcome.ok_bind]
      dsimp only
      rcases hpacket : block.packet r'.interfaces with (_ | packet) | e | _ | _
      · exact (ih (by omega)).mono hlt.le
      · exact hlt
      · exact hlt
      · trivial
      · exact absurd hpacket (block.packet_ne_outOfFuel r'.interfaces)
    · rw [hblock] at hconsumes
      exact hconsumes
    · trivial
    · rw [hblock] at hconsumes
      exact hconsumes.elim

/-- A packet of a pcapng source uses up its block, and so does an error. -/
theorem nextPacket_consumes (r : PcapngReader) :
    Consumes (fun r => r.source.length) r.source.length r.nextPacket :=
  packetLoop_consumes (Nat.lt_succ_self _)

end PcapngReader

namespace SniffedReader

/-- **Every call reads on**, in a source of either format. -/
theorem nextPacket_consumes (r : SniffedReader) :
    Consumes (fun r => r.source.length) r.source.length r.nextPacket := by
  cases r with
  | pcap reader =>
    have hconsumes := reader.nextPacket_consumes
    rw [nextPacket]
    rcases hread : reader.nextPacket with ⟨_ | packet, reader'⟩ | ⟨e, reader'⟩ | _ | _ <;>
      rw [hread] at hconsumes <;> exact hconsumes
  | pcapng reader =>
    have hconsumes := reader.nextPacket_consumes
    rw [nextPacket]
    rcases hread : reader.nextPacket with ⟨_ | packet, reader'⟩ | ⟨e, reader'⟩ | _ | _ <;>
      rw [hread] at hconsumes <;> exact hconsumes

/-- What is read exactly is the front of the source. -/
theorem append_of_readExact {n : ℕ} {bytes front rest : List UInt8}
    (h : readExact n bytes = some (front, rest)) : front ++ rest = bytes := by
  unfold readExact at h
  split_ifs at h
  obtain ⟨rfl, rfl⟩ := Prod.mk.inj (Option.some.inj h)
  exact List.take_append_drop n bytes

/-- A reader starts on the source, or behind the header in front of it. -/
theorem length_source_of_new {data : List UInt8} {reader : SniffedReader}
    (h : new data = .ok reader) : reader.source.length ≤ data.length := by
  unfold new at h
  cases hmagic : readExact 4 data with
  | none => simp [hmagic] at h
  | some read =>
    obtain ⟨magic, rest⟩ := read
    have hdata : magic ++ rest = data := append_of_readExact hmagic
    simp only [hmagic, hdata] at h
    obtain ⟨format, -, h⟩ := Outcome.bind_eq_ok.1 h
    cases format with
    | pcap =>
      obtain ⟨pcapReader, hnew, h⟩ := Outcome.bind_eq_ok.1 h
      cases h
      unfold PcapReader.new at hnew
      cases hheader : readExact PcapHeader.LEN data with
      | none => simp [hheader] at hnew
      | some read =>
        obtain ⟨buffer, rest⟩ := read
        simp only [hheader] at hnew
        obtain ⟨header, -, hnew⟩ := Outcome.bind_eq_ok.1 hnew
        cases hnew
        rw [← append_of_readExact hheader, List.length_append]
        exact Nat.le_add_left ..
    | pcapng =>
      cases h
      exact le_rfl

/-- Opening a capture is no loop. -/
theorem new_ne_outOfFuel (data : List UInt8) : new data ≠ .outOfFuel := by
  have hmagic : ∀ magic, CaptureFormat.fromMagicBytes magic ≠ .outOfFuel := by
    intro magic
    unfold CaptureFormat.fromMagicBytes
    split
    any_goals simp
    split_ifs <;> simp
  have hparse : ∀ buffer : List UInt8, PcapHeader.LEN ≤ buffer.length →
      PcapHeader.parse buffer ≠ .outOfFuel := by
    intro buffer hlen
    rw [PcapHeader.parse_eq hlen]
    cases PcapHeader.magicEndian? (Endian.big.wordAt buffer 0 4) <;> simp
  unfold new
  cases readExact 4 data with
  | none => simp
  | some read =>
    refine Outcome.bind_ne_outOfFuel (hmagic read.1) fun format _ => ?_
    cases format with
    | pcap =>
      refine Outcome.bind_ne_outOfFuel ?_ fun _ _ => by simp
      unfold PcapReader.new
      cases hheader : readExact PcapHeader.LEN (read.1 ++ read.2) with
      | none => simp
      | some header =>
        refine Outcome.bind_ne_outOfFuel (hparse header.1 ?_) fun _ _ => by simp
        unfold readExact at hheader
        split_ifs at hheader with hlen
        obtain rfl := Option.some.inj hheader
        simpa using hlen
    | pcapng => simp

/-- **A reader that never panics hands out finitely many packets and errors, and
then comes to its end.** -/
theorem exists_drains {data : List UInt8} {reader : SniffedReader} (h : new data = .ok reader)
    (hpanic : ∀ r, Reaches nextPacket reader r → nextPacket r ≠ .panic) :
    ∃ results, Drains nextPacket reader results ∧ results.length ≤ data.length := by
  obtain ⟨results, hdrains, hlength⟩ :=
    drains_of_consumes (fun r : SniffedReader => r.source.length) nextPacket_consumes hpanic
  exact ⟨results, hdrains, hlength.trans (length_source_of_new h)⟩

end SniffedReader

end Capture
end Maja
