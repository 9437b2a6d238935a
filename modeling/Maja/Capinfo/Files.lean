/-
# The report of a file that a tool wrote

A capture that is read without an error has a report of all its packets
(`analyze_readAs`).  So the report of a file that `PcapWriter` wrote is that of the
packets that were written (`analyze_written`), and reordering a pcap file leaves its
report as it was, but for `is_ordered`, which then holds (`analyze_reordered`).
-/

import Maja.Capinfo.Rearranged
import Maja.Capture.Reopened
import Maja.Reordercap.Reorder

namespace Maja
namespace Capinfo

open Lib Net Packet Capture

/-! ### What is seen of packets -/

/-- What the loop sees of a result is one thing. -/
theorem sees_unique : Relator.RightUnique Sees := by
  intro result seen seen' h h'
  cases h with
  | failed => cases h'; rfl
  | empty hdata =>
    cases h' with
    | empty => rfl
    | unparsed hne => exact absurd hdata hne
    | parsed hne => exact absurd hdata hne
  | unparsed hne hparse =>
    cases h' with
    | empty hdata => exact absurd hdata hne
    | unparsed => rfl
    | parsed _ hparse' =>
      rw [hparse] at hparse'
      cases hparse'
  | parsed hne hparse hbytes hmetadata =>
    cases h' with
    | empty hdata => exact absurd hdata hne
    | unparsed _ hparse' =>
      rw [hparse] at hparse'
      cases hparse'
    | parsed _ hparse' hbytes' hmetadata' =>
      rw [hparse] at hparse'
      cases hparse'
      rw [hbytes] at hbytes'
      rw [hmetadata] at hmetadata'
      cases hbytes'
      cases hmetadata'
      rfl

/-- What is seen of a packet. -/
theorem Sees.packet {packet : PacketRecord} {s : Seen} (h : Sees (.ok packet) s) :
    s.packet? = some (packet.timestamp, .ofNat packet.originalLength) ∧ s.isFailed = false ∧
      s.isEmpty = packet.data.isEmpty := by
  cases h with
  | empty hdata => exact ⟨rfl, rfl, (List.isEmpty_iff.2 hdata).symm⟩
  | unparsed hne => exact ⟨rfl, rfl, (List.isEmpty_eq_false_iff.2 hne).symm⟩
  | parsed hne _ _ hmetadata =>
    obtain ⟨htimestamp, hlength⟩ := extractPacketMetadata_stamp hmetadata
    refine ⟨?_, rfl, (List.isEmpty_eq_false_iff.2 hne).symm⟩
    rw [Seen.packet?, htimestamp, hlength]

/-- What is seen of a row of packets. -/
theorem sees_packets {packets : List PacketRecord} {seen : List Seen}
    (h : List.Forall₂ Sees (packets.map .ok) seen) :
    seen.filterMap Seen.packet? =
        packets.map (fun p => (p.timestamp, UInt32.ofNat p.originalLength)) ∧
      seen.countP Seen.isFailed = 0 ∧
      seen.countP Seen.isEmpty = packets.countP (·.data.isEmpty) := by
  induction packets generalizing seen with
  | nil =>
    cases h
    exact ⟨rfl, rfl, rfl⟩
  | cons packet packets ih =>
    cases h with
    | @cons _ s _ seen hfirst hrest =>
      obtain ⟨hpacket, hfailed, hempty⟩ := hfirst.packet
      obtain ⟨hpackets, hnoFailed, hcount⟩ := ih hrest
      rw [List.filterMap_cons_some hpacket, hpackets, List.countP_cons, List.countP_cons,
        List.countP_cons, hnoFailed, hcount, hfailed, hempty]
      exact ⟨rfl, rfl, rfl⟩

/-- **A capture that is read without an error** has a report of all its packets. -/
theorem analyze_readAs (F : Type) [Arithmetic F] (width : Option IntervalWidth)
    {data : List UInt8} {packets : List PacketRecord} (h : ReadAs data packets) :
    ∃ seen, List.Forall₂ Sees (packets.map .ok) seen ∧
      analyze width data = .ok (Analysis.noteAll width seen : Analysis F) := by
  obtain ⟨reader, hnew, hdrains⟩ := h
  obtain ⟨seen, hsees, hloop⟩ := Analysis.notes_of_drains (F := F) hdrains
  have hlength := (hdrains.length_le (fun r : SniffedReader => r.source.length)
    SniffedReader.nextPacket_consumes).trans (SniffedReader.length_source_of_new hnew)
  refine ⟨seen, hsees, ?_⟩
  rw [analyze, hnew, Outcome.ok_bind, hloop _ _ (Nat.lt_succ_of_le hlength)]
  rfl

/-! ### The tools -/

/-- **The report of a file that was written**: of whatever packets the writer can hold,
in either byte order and precision, it counts all of them, with the lengths they had on
the wire and the times that the precision leaves, and no errors. -/
theorem analyze_written (F : Type) [Arithmetic F] (width : Option IntervalWidth)
    (bigEndian nanosecond : Bool) (snapLen : ℕ) (linkType : LinkType)
    (packets : List PacketRecord) (hsnap : snapLen < 2 ^ 32) (hlink : linkType.toCode < 2 ^ 16)
    (hpackets : ∀ p ∈ packets, PcapWriter.Writable p) :
    ∃ a : Analysis F,
      analyze width (PcapWriter.writeAll bigEndian nanosecond snapLen linkType packets).written =
        .ok a ∧
      PacketTotals (packets.map fun p => (if nanosecond then p.timestamp
        else I64.clamp (p.timestamp.val / 1000 * 1000), UInt32.ofNat p.originalLength)) a.stats ∧
      a.stats.errors = 0 ∧
      a.stats.emptyPackets =
        packets.countP fun p => PcapWriter.inclLen snapLen p = 0 := by
  obtain ⟨seen, hsees, hanalyze⟩ := analyze_readAs F width
    (@readAs_writeAll bigEndian nanosecond _ _ _ hsnap hlink hpackets)
  obtain ⟨hseen, hfailed, hempty⟩ := sees_packets hsees
  have htotals : Totals seen (Analysis.noteAll width seen : Analysis F).stats :=
    noteAll_totals width seen
  refine ⟨_, hanalyze, ?_, htotals.errors.trans hfailed, htotals.emptyPackets.trans ?_⟩
  · have hall := htotals.packets
    rw [hseen, List.map_map] at hall
    exact hall
  · rw [hempty, List.countP_map]
    refine List.countP_congr fun p _ => ?_
    show (p.data.take (PcapWriter.inclLen snapLen p)).isEmpty = true ↔ _
    have hle : PcapWriter.inclLen snapLen p ≤ p.data.length := by
      rw [PcapWriter.inclLen_eq]
      exact (Nat.min_le_left ..).trans (Nat.mod_le ..)
    rw [List.isEmpty_iff, decide_eq_true_eq, ← List.length_eq_zero_iff, List.length_take,
      Nat.min_eq_left hle]

/-- Two packets, the second one earlier than the first and cut to nothing. -/
def cutPackets : List PacketRecord :=
  [⟨I64.ofInt 2000001234, 3, [1, 2, 3], .ethernet⟩, ⟨I64.ofInt 1000000000, 5, [], .ethernet⟩]

/-- The report of a file of these packets. -/
theorem analyze_written_cut :
    ∃ a : Analysis ℚ, analyze none
        (PcapWriter.writeAll false false 2 .ethernet cutPackets).written = .ok a ∧
      PacketTotals [(I64.ofInt 2000001000, 3), (I64.ofInt 1000000000, 5)] a.stats ∧
      a.stats.errors = 0 ∧ a.stats.emptyPackets = 1 :=
  analyze_written ℚ none false false 2 .ethernet cutPackets (by norm_num) (by decide) (by
    intro p hp
    rw [cutPackets, List.mem_cons, List.mem_singleton] at hp
    obtain rfl | rfl := hp <;> exact ⟨by decide, by decide, by decide⟩)

section Reordered

open Reordercap

/-- **Reordering a pcap file keeps its report**, and puts it in order.  Both files are
read without an error. -/
theorem analyze_reordered (F : Type) [Field F] [CharZero F] (checks : Bool)
    (width : Option IntervalWidth) {data : List UInt8} {sections : List SectionScan}
    (h : scanPcap checks data = .ok sections) :
    ∃ out, ∃ a b : Analysis F,
      (writeReordered data (sortSections sections) : Outcome ScanError _) = .ok out ∧
      analyze width data = .ok a ∧ analyze width out = .ok b ∧
      a.stats.errors = 0 ∧ b.stats.errors = 0 ∧
      SameReport a.stats b.stats ∧ a.intervalStats = b.intervalStats ∧
      b.stats.isOrdered = true := by
  obtain ⟨head, header, records, scan, hlen, hparse, hall, hdata, rfl, hindex⟩ := records_of_scan h
  have hstable := stablySorted_sortByKey (fun r : PcapRecord => r.2.timestamp) records
  have hall' : AllHold header (sortByKey (fun r : PcapRecord => r.2.timestamp) records) :=
    fun r hr => hall r (hstable.perm.mem_iff.1 hr)
  obtain ⟨seen, hsees, hanalyze⟩ := analyze_readAs F width (readAs_of_hold hlen hparse hall)
  obtain ⟨seen', hsees', hanalyze'⟩ := analyze_readAs F width (readAs_of_hold hlen hparse hall')
  have hperm : seen.Perm seen' := List.rel_perm_imp sees_unique hsees hsees'
    ((hstable.perm.symm.map Prod.snd).map Except.ok)
  obtain ⟨hsame, hintervals⟩ := noteAll_perm (F := F) width hperm
  have herrors := (noteAll_totals (F := F) width seen).errors.trans (sees_packets hsees).2.1
  refine ⟨_, _, _, hdata ▸ writeReordered_pcap hlen hindex, hdata ▸ hanalyze, hanalyze', herrors,
    hsame.errors ▸ herrors, hsame, hintervals, ?_⟩
  have hpackets := (noteAll_totals (F := F) width seen').packets
  rw [(sees_packets hsees').1] at hpackets
  rw [hpackets.isOrdered, List.pairwise_map, List.pairwise_map, List.pairwise_map]
  exact hstable.sorted

/-- A pcap file of two packets, the second one earlier than the first. -/
def lateFirst : List UInt8 :=
  [0xD4, 0xC3, 0xB2, 0xA1, 2, 0, 4, 0, 0, 0, 0, 0, 0, 0, 0, 0, 0xFF, 0xFF, 0, 0, 1, 0, 0, 0,
    2, 0, 0, 0, 0, 0, 0, 0, 1, 0, 0, 0, 1, 0, 0, 0, 7,
    1, 0, 0, 0, 0, 0, 0, 0, 1, 0, 0, 0, 1, 0, 0, 0, 8]

/-- Its report, before and after. -/
theorem analyze_reordered_lateFirst :
    ∃ out, ∃ a b : Analysis ℚ,
      (writeReordered lateFirst (sortSections [⟨(0, 24), [],
        ⟨[⟨I64.ofInt 2000000000, 24, 17⟩, ⟨I64.ofInt 1000000000, 41, 17⟩],
          [⟨2, I64.ofInt 1000000000, 1, I64.ofInt 1000000000⟩], I64.ofInt 2000000000, 1⟩, []⟩]) :
        Outcome ScanError _) = .ok out ∧
      analyze none lateFirst = .ok a ∧ analyze none out = .ok b ∧
      a.stats.errors = 0 ∧ b.stats.errors = 0 ∧
      SameReport a.stats b.stats ∧ a.intervalStats = b.intervalStats ∧
      b.stats.isOrdered = true :=
  analyze_reordered ℚ true none (by decide +kernel)

end Reordered

end Capinfo
end Maja
