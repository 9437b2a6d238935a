/-
# Captures that are read without an error

What the streaming reader makes of a pcap file whose records are all complete: it
hands out their packets, one after the other, and then comes to its end
(`readAs_of_hold`).  So it reads a file that the writer wrote (`readAs_writeAll`), and
what it reads is written as the same file (`written_packetRead`).
-/

import Maja.Capture.PcapWriter
import Maja.Capture.Sniffed

namespace Maja
namespace Capture

open Lib

/-! ### The records of a file -/

namespace PcapReader

/-- A record that holds a packet is complete. -/
theorem recordAt_of_holds {header : PcapHeader} {raw rest : List UInt8} {packet : PacketRecord}
    (h : PcapSliceReader.Holds header raw packet) : recordAt header.endian (raw ++ rest) =
      .record (PcapPacketHeader.read raw header.endian) (raw.drop PcapPacketHeader.LEN) rest := by
  obtain ⟨hlen, hincl, -⟩ := h
  have hpos : 0 < PcapPacketHeader.LEN := by decide
  have hne : raw ++ rest ≠ [] := List.ne_nil_of_length_pos (by rw [List.length_append]; omega)
  have hread : PcapPacketHeader.read (raw ++ rest) header.endian =
      PcapPacketHeader.read raw header.endian := PcapSliceReader.read_append _ hlen
  have hdrop : (raw ++ rest).drop PcapPacketHeader.LEN = raw.drop PcapPacketHeader.LEN ++ rest :=
    List.drop_append_of_le_length hlen
  have hdata : (raw.drop PcapPacketHeader.LEN).length =
      (PcapPacketHeader.read raw header.endian).inclLen := by
    rw [List.length_drop]
    omega
  rw [recordAt, if_neg hne, if_neg (by rw [List.length_append]; omega)]
  dsimp only
  rw [hread, hdrop, if_neg (by rw [List.length_append]; omega), List.take_left' hdata,
    List.drop_left' hdata]

/-- A call in front of a record that holds a packet. -/
theorem nextPacket_of_holds {r : PcapReader} {raw rest : List UInt8} {packet : PacketRecord}
    (h : PcapSliceReader.Holds r.header raw packet)
    (hnanosecond : r.nanosecond = r.header.isNanosecond) (hsource : r.source = raw ++ rest) :
    r.nextPacket = .ok (some packet, { r with source := rest }) := by
  have hspec := r.readPacketRaw_spec
  rw [hsource, recordAt_of_holds h] at hspec
  have hread : r.readPacketRaw = _ := hspec
  rw [nextPacket]
  simp only [Prog.bind_apply, Prog.get_apply, Outcome.ok_bind, hread]
  rw [hnanosecond, h.packet]
  rfl

/-- **The packets of a file are read one after the other.** -/
theorem runs_of_hold {records : List (List UInt8 × PacketRecord)} {r : PcapReader}
    (hall : ∀ record ∈ records, PcapSliceReader.Holds r.header record.1 record.2)
    (hnanosecond : r.nanosecond = r.header.isNanosecond)
    (hsource : r.source = rawBytes Prod.fst records) :
    Runs PcapReader.nextPacket r (records.map Prod.snd) .clean := by
  induction records generalizing r with
  | nil =>
    have hspec := r.readPacketRaw_spec
    rw [hsource] at hspec
    obtain ⟨r', hread⟩ : ∃ r', r.readPacketRaw = .ok (none, r') := hspec
    have hend : r.nextPacket = .ok (none, r') := by
      rw [nextPacket]
      simp only [Prog.bind_apply, Prog.get_apply, Outcome.ok_bind, hread]
      rfl
    exact .clean hend
  | cons record records ih =>
    rw [rawBytes_cons] at hsource
    refine .next (nextPacket_of_holds (hall record List.mem_cons_self) hnanosecond hsource) ?_
    exact ih (fun q hq => hall q (List.mem_cons_of_mem _ hq)) hnanosecond rfl

end PcapReader

/-! ### The format of a file -/

/-- The magic numbers of a pcap file. -/
theorem magicEndian?_cases {n : ℕ} {e : Endian} (h : PcapHeader.magicEndian? n = some e) :
    n = Magic.BE_USEC ∨ n = Magic.BE_NSEC ∨ n = Magic.LE_USEC ∨ n = Magic.LE_NSEC := by
  unfold PcapHeader.magicEndian? at h
  split at h
  · exact .inl rfl
  · exact .inr (.inl rfl)
  · exact .inr (.inr (.inl rfl))
  · exact .inr (.inr (.inr rfl))
  · cases h

/-- What a pcap header starts with. -/
theorem fromMagicBytes_of_parse {data : List UInt8} {header : PcapHeader}
    (h : PcapHeader.parse data = .ok header) :
    CaptureFormat.fromMagicBytes (data.take 4) = .ok .pcap := by
  have hlen : PcapHeader.LEN ≤ data.length := by
    by_contra hshort
    rw [PcapHeader.parse, if_pos (by omega)] at h
    cases h
  have hmagic : Endian.big.wordAt data 0 4 = beNat (data.take 4) := by
    rw [Endian.wordAt, bytesAt, List.drop_zero]
    rfl
  rw [PcapHeader.parse_eq hlen, hmagic] at h
  cases hendian : PcapHeader.magicEndian? (beNat (data.take 4)) with
  | none =>
    rw [hendian] at h
    cases h
  | some e =>
    rw [CaptureFormat.fromMagicBytes]
    obtain hn | hn | hn | hn := magicEndian?_cases hendian <;> rw [hn] <;> rfl

namespace SniffedReader

/-- A pcap file is taken for one. -/
theorem new_of_pcap {data : List UInt8} {r : PcapReader} (h : PcapReader.new data = .ok r) :
    SniffedReader.new data = .ok (.pcap r) := by
  have hnew := h
  unfold PcapReader.new at h
  cases hread : readExact PcapHeader.LEN data with
  | none => simp [hread] at h
  | some read =>
    simp only [hread] at h
    obtain ⟨header, hparse, -⟩ := Outcome.bind_eq_ok.1 h
    unfold readExact at hread
    split_ifs at hread with hlen
    obtain rfl := Option.some.inj hread
    have hfour : 4 ≤ PcapHeader.LEN := by decide
    have hmagic := fromMagicBytes_of_parse hparse
    rw [List.take_take, Nat.min_eq_left hfour] at hmagic
    have hfront : readExact 4 data = some (data.take 4, data.drop 4) := if_pos (hfour.trans hlen)
    simp only [SniffedReader.new, hfront, hmagic, Outcome.ok_bind, List.take_append_drop, hnew,
      Outcome.pure_eq]

/-- The packets of a capture that is read without an error. -/
theorem drains_of_runs {r : PcapReader} {packets : List PacketRecord}
    (h : Runs PcapReader.nextPacket r packets .clean) :
    Drains SniffedReader.nextPacket (.pcap r) (packets.map .ok) := by
  generalize hending : Ending.clean = ending at h
  induction h with
  | @clean r r' h =>
    have hnext : SniffedReader.nextPacket (.pcap r) = .ok (none, .pcap r') := by
      simp only [SniffedReader.nextPacket, h]
    exact .done hnext
  | failed _ => cases hending
  | panicked _ => cases hending
  | @next r r' packet packets _ h _ ih =>
    have hnext : SniffedReader.nextPacket (.pcap r) = .ok (some packet, .pcap r') := by
      simp only [SniffedReader.nextPacket, h]
    exact .item hnext (ih hending)

end SniffedReader

/-- The bytes are opened as a capture, and read without an error. -/
def ReadAs (data : List UInt8) (packets : List PacketRecord) : Prop :=
  ∃ reader, SniffedReader.new data = .ok reader ∧
    Drains SniffedReader.nextPacket reader (packets.map .ok)

/-- **A header and complete records** are read as the packets of the records. -/
theorem readAs_of_hold {head : List UInt8} {header : PcapHeader}
    {records : List (List UInt8 × PacketRecord)} (hlen : head.length = PcapHeader.LEN)
    (hparse : PcapHeader.parse head = .ok header)
    (hall : ∀ record ∈ records, PcapSliceReader.Holds header record.1 record.2) :
    ReadAs (head ++ rawBytes Prod.fst records) (records.map Prod.snd) := by
  have hall' : PcapHeader.parse (head ++ rawBytes Prod.fst records) = .ok header :=
    (PcapHeader.parse_append hlen.ge).trans hparse
  obtain ⟨-, -, -, -, hnew⟩ := new_eq_ok hall'
  rw [List.drop_left' hlen] at hnew
  exact ⟨_, SniffedReader.new_of_pcap hnew,
    SniffedReader.drains_of_runs (PcapReader.runs_of_hold hall rfl rfl)⟩

/-- **A file that was written** is read as what the format holds of its packets. -/
theorem readAs_writeAll {bigEndian nanosecond : Bool} {snapLen : ℕ} {linkType : LinkType}
    {packets : List PacketRecord} (hsnap : snapLen < 2 ^ 32) (hlink : linkType.toCode < 2 ^ 16)
    (hpackets : ∀ p ∈ packets, PcapWriter.Writable p) :
    ReadAs (PcapWriter.writeAll bigEndian nanosecond snapLen linkType packets).written
      (packets.map (PcapWriter.packetRead nanosecond snapLen linkType)) := by
  obtain ⟨-, r, -, hnew, -, hruns⟩ :=
    @PcapWriter.bothRead_writeAll bigEndian nanosecond _ _ _ hsnap hlink hpackets
  exact ⟨_, SniffedReader.new_of_pcap hnew, SniffedReader.drains_of_runs hruns⟩

/-! ### Writing a file again -/

namespace PcapWriter

variable {bigEndian nanosecond : Bool} {snapLen : ℕ} {linkType : LinkType}

/-- The reader of a file that was written has the header of the writer. -/
theorem new_writeAll (packets : List PacketRecord) (hsnap : snapLen < 2 ^ 32)
    (hlink : linkType.toCode < 2 ^ 16) :
    ∃ r : PcapReader, SniffedReader.new (writeAll bigEndian nanosecond snapLen linkType
      packets).written = .ok (.pcap r) ∧ r.header.snapLen = snapLen ∧ r.nanosecond = nanosecond := by
  rw [written_writeAll]
  obtain ⟨-, -, -, -, hnew⟩ := new_eq_ok (@parse_new bigEndian nanosecond snapLen linkType hsnap
    hlink (rawBytes (record bigEndian nanosecond snapLen) packets))
  exact ⟨_, SniffedReader.new_of_pcap hnew, rfl, header_new.2⟩

/-- The seconds of a time that is cut to microseconds, and its microseconds. -/
theorem asU32_cut {t : ℤ} (h : 0 ≤ t) :
    asU32 ((t / 1000 * 1000).tdiv 1000000000) = asU32 (t.tdiv 1000000000) ∧
      asU32 ((t / 1000 * 1000).tmod 1000000000) / 1000 = asU32 (t.tmod 1000000000) / 1000 := by
  have hcut : 0 ≤ t / 1000 * 1000 := by omega
  rw [Int.tdiv_eq_ediv_of_nonneg hcut, Int.tdiv_eq_ediv_of_nonneg h,
    Int.tmod_eq_emod_of_nonneg hcut, Int.tmod_eq_emod_of_nonneg h]
  constructor
  · exact congrArg asU32 (by omega)
  · have hnsec : (asU32 (t / 1000 * 1000 % 1000000000) : ℤ) = t / 1000 * 1000 % 1000000000 :=
      asU32_of_lt (by omega) (by omega)
    have hnsec' : (asU32 (t % 1000000000) : ℤ) = t % 1000000000 :=
      asU32_of_lt (by omega) (by omega)
    omega

/-- No data is cut twice. -/
theorem inclLen_packetRead (packet : PacketRecord) :
    inclLen snapLen (packetRead nanosecond snapLen linkType packet) = inclLen snapLen packet := by
  have hmod := Nat.mod_lt packet.data.length (show 0 < 2 ^ 32 by norm_num)
  have hle := Nat.mod_le packet.data.length (2 ^ 32)
  have hlength : (packetRead nanosecond snapLen linkType packet).data.length =
      min (packet.data.length % 2 ^ 32) snapLen := by
    rw [packetRead, List.length_take, inclLen_eq]
    omega
  rw [inclLen_eq, inclLen_eq, hlength, Nat.mod_eq_of_lt (by omega)]
  omega

/-- What is read back of a packet is written as the packet was. -/
theorem record_packetRead {packet : PacketRecord} (h : Writable packet) :
    record bigEndian nanosecond snapLen (packetRead nanosecond snapLen linkType packet) =
      record bigEndian nanosecond snapLen packet := by
  obtain ⟨-, hlo, -⟩ := h
  have hhi := packet.timestamp.property.2
  have hdata : (packetRead nanosecond snapLen linkType packet).data.take (inclLen snapLen packet) =
      packet.data.take (inclLen snapLen packet) := by
    rw [packetRead, List.take_take, Nat.min_self]
  unfold record
  rw [inclLen_packetRead, hdata]
  cases nanosecond with
  | true => rfl
  | false =>
    have hval : (packetRead false snapLen linkType packet).timestamp.val =
        packet.timestamp.val / 1000 * 1000 := I64.clamp_val ⟨by omega, by omega⟩
    obtain ⟨hsec, husec⟩ := asU32_cut hlo
    simp only [hval, hsec, Bool.false_eq_true, if_false, husec]
    rfl

/-- **A file is written again** as it was, from what was read of it. -/
theorem written_packetRead {packets : List PacketRecord} (hpackets : ∀ p ∈ packets, Writable p) :
    (writeAll bigEndian nanosecond snapLen linkType
      (packets.map (packetRead nanosecond snapLen linkType))).written =
        (writeAll bigEndian nanosecond snapLen linkType packets).written := by
  rw [written_writeAll, written_writeAll, rawBytes, rawBytes, List.flatMap_map]
  congr 1
  exact List.flatMap_congr fun p hp => record_packetRead (hpackets p hp)

end PcapWriter

end Capture
end Maja
