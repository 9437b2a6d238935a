/-
# The temporary files of a merge

A temporary file is written by one merge and read by the next.  What the next merge gets
of it are the packets that were written, as far as the format holds them: with
timestamps cut to its precision, and data cut to the snap length (`OutputArgs.stored`).
Nothing is cut twice.
-/

import Maja.Capture.Reopened
import Maja.Mergecap.OnePass

namespace Maja
namespace Mergecap

open Lib Capture

/-! ### Reading what was written -/

section Reading

variable {output : OutputArgs} {linkType : LinkType} {packets : List PacketRecord}

/-- What a reader makes of a packet that was written. -/
def OutputArgs.reread (output : OutputArgs) (linkType : LinkType) (packet : PacketRecord) :
    PacketRecord :=
  PcapWriter.packetRead output.isNanosecond output.snapLenOrDefault linkType packet

/-- A timestamp at the precision of the file. -/
def OutputArgs.stamp (output : OutputArgs) (t : I64) : I64 :=
  if output.isNanosecond then t else I64.clamp (t.val / 1000 * 1000)

/-- Data up to the snap length of the file. -/
def OutputArgs.cut (output : OutputArgs) (data : List UInt8) : List UInt8 :=
  data.take (min (data.length % 2 ^ 32) output.snapLenOrDefault)

/-- The timestamp and the data of a packet. -/
def seen (packet : PacketRecord) : I64 × List UInt8 := (packet.timestamp, packet.data)

/-- What a file holds of a timestamp and of data. -/
def OutputArgs.stored (output : OutputArgs) (x : I64 × List UInt8) : I64 × List UInt8 :=
  (output.stamp x.1, output.cut x.2)

/-- What is seen of a packet of a temporary file is what was stored of it. -/
theorem seen_reread (packet : PacketRecord) :
    seen (output.reread linkType packet) = output.stored (seen packet) := by
  rw [OutputArgs.stored, OutputArgs.cut, seen, OutputArgs.reread, PcapWriter.packetRead,
    PcapWriter.inclLen_eq]
  rfl

/-- What the precision leaves of a timestamp from 1970 on. -/
theorem stamp_val (output : OutputArgs) {t : I64} (h : 0 ≤ t.val) : (output.stamp t).val =
    if output.isNanosecond then t.val else t.val / 1000 * 1000 := by
  have hhi := t.property.2
  rw [OutputArgs.stamp]
  split_ifs
  · rfl
  · exact I64.clamp_val ⟨by omega, by omega⟩

/-- Storing timestamps keeps their order. -/
theorem stamp_mono {t u : I64} (h : t ≤ u) : output.stamp t ≤ output.stamp u := by
  have hval : t.val ≤ u.val := h
  rw [OutputArgs.stamp, OutputArgs.stamp]
  split_ifs
  · exact h
  · show max (-2 ^ 63) (min (t.val / 1000 * 1000) (2 ^ 63 - 1)) ≤
      max (-2 ^ 63) (min (u.val / 1000 * 1000) (2 ^ 63 - 1))
    omega

/-- No timestamp is cut twice. -/
theorem stamp_stamp {t : I64} (h : 0 ≤ t.val) : output.stamp (output.stamp t) = output.stamp t := by
  have hstamp := stamp_val output h
  have hpos : 0 ≤ (output.stamp t).val := by
    rw [hstamp]
    split_ifs
    · exact h
    · omega
  refine Subtype.ext ?_
  rw [stamp_val output hpos, hstamp]
  split_ifs
  · rfl
  · omega

/-- No data is cut twice. -/
theorem cut_cut (data : List UInt8) : output.cut (output.cut data) = output.cut data := by
  have hlength : (output.cut data).length = min (data.length % 2 ^ 32) output.snapLenOrDefault := by
    have := Nat.mod_le data.length (2 ^ 32)
    rw [OutputArgs.cut, List.length_take]
    omega
  have hlt : (output.cut data).length < 2 ^ 32 := by
    have := Nat.mod_lt data.length (show 0 < 2 ^ 32 by norm_num)
    omega
  rw [OutputArgs.cut, Nat.mod_eq_of_lt hlt, List.take_of_length_le]
  rw [hlength]
  omega

/-- Storing a packet once more changes nothing. -/
theorem stored_stored {x : I64 × List UInt8} (h : 0 ≤ x.1.val) :
    output.stored (output.stored x) = output.stored x :=
  Prod.ext (stamp_stamp h) (cut_cut x.2)

/-- A packet that was written can be written again. -/
theorem writable_reread {packet : PacketRecord} (h : PcapWriter.Writable packet) :
    PcapWriter.Writable (output.reread linkType packet) := by
  obtain ⟨hlength, hlo, hhi⟩ := h
  have hstamp : (output.reread linkType packet).timestamp.val =
      if output.isNanosecond then packet.timestamp.val else packet.timestamp.val / 1000 * 1000 :=
    stamp_val output hlo
  refine ⟨hlength, ?_, ?_⟩
  all_goals
    rw [hstamp]
    split_ifs <;> omega

/-- **A file that was written is opened again.** -/
theorem sniff_write (output : OutputArgs) (hlink : linkType.toCode < 2 ^ 16)
    (hpackets : ∀ p ∈ packets, PcapWriter.Writable p) : ∃ linkType',
    (⟨default, output.write linkType packets⟩ : FileInput).sniff =
      .ok (linkType', ⟨default, (packets.map (output.reread linkType)).map .ok⟩) := by
  have hsnap : output.snapLenOrDefault < 2 ^ 32 := UInt32.toNat_lt _
  obtain ⟨r, hnew, hdrains⟩ :=
    @readAs_writeAll false output.isNanosecond _ _ _ hsnap hlink hpackets
  have hlength := hdrains.length_le (fun r : SniffedReader => r.source.length)
    SniffedReader.nextPacket_consumes
  have hdrain : drain SniffedReader.nextPacket ((output.write linkType packets).length + 1) r =
      some ((packets.map (output.reread linkType)).map .ok) :=
    hdrains.drain_eq (Nat.lt_succ_of_le (hlength.trans (SniffedReader.length_source_of_new hnew)))
  have hwritten : SniffedReader.new (output.write linkType packets) = .ok r := hnew
  exact ⟨linkTypeOf r, by
    simp only [FileInput.sniff, hwritten, Outcome.mapErr, Outcome.ok_bind, hdrain]⟩

end Reading

/-! ### A temporary file in the next merge -/

section Tmp

/-- Times that a pcap file can hold are far from where `i64` saturates. -/
theorem saturating_sub_add {s t : I64} (hs : 0 ≤ s.val ∧ s.val < 2 ^ 32 * 1000000000)
    (ht : 0 ≤ t.val ∧ t.val < 2 ^ 32 * 1000000000) : (t.saturatingSub s).saturatingAdd s = t := by
  have hsub : (t.saturatingSub s).val = t.val - s.val :=
    I64.clamp_val ⟨by omega, by omega⟩
  have hrange : I64.InRange ((t.saturatingSub s).val + s.val) := by
    rw [hsub, Int.sub_add_cancel]
    exact t.property
  exact Subtype.ext ((I64.clamp_val hrange).trans (by rw [hsub, Int.sub_add_cancel]))

/-- The packets of a pass without errors. -/
theorem packets_map_ok (packets : List PacketRecord) :
    CapturePass.packets (packets.map .ok) = packets := by
  rw [CapturePass.packets, List.filterMap_map]
  exact List.filterMap_some

/-- The packets of a temporary file are where they were. -/
theorem timeline_tmp {args : MergeArgs} (hargs : args.eraseTimestamp = some false)
    {packets : List PacketRecord} (hpackets : ∀ p ∈ packets, PcapWriter.Writable p) :
    Input.timeline args ⟨default, packets.map .ok⟩ = packets := by
  let src := (Input.source zeroRng ⟨default, packets.map .ok⟩)
  have hread : src.packets = packets := packets_map_ok packets
  have hfirst : 0 ≤ src.firstTime.val ∧ src.firstTime.val < 2 ^ 32 * 1000000000 := by
    rw [Source.firstTime, hread]
    cases packets with
    | nil => decide
    | cons p ps => exact ⟨(hpackets p List.mem_cons_self).nonneg,
        (hpackets p List.mem_cons_self).seconds⟩
  have hstart : src.copyStart args 0 = src.firstTime := by
    rw [Source.copyStart, Source.groupOrigin, hargs]
    exact saturatingAdd_zero src.firstTime
  have hcopied : ∀ p ∈ packets, src.copied args 0 p = p := fun p hp => by
    rw [Source.copied, hstart, Source.copyStamp,
      saturating_sub_add hfirst ⟨(hpackets p hp).nonneg, (hpackets p hp).seconds⟩]
  show (List.range 1).flatMap (fun c => src.packets.map (src.copied args c)) = packets
  rw [hread, List.range_one, List.flatMap_singleton]
  exact (List.map_congr_left hcopied).trans (List.map_id packets)

/-- The batches of a temporary file. -/
theorem batches_tmp {args : MergeArgs} (hargs : args.eraseTimestamp = some false) (rng : JitterRng)
    {packets : List PacketRecord} (hpackets : ∀ p ∈ packets, PcapWriter.Writable p) :
    Input.batches args rng ⟨default, packets.map .ok⟩ = packets.map fun p => [p] := by
  rw [Input.batches, timeline_tmp hargs hpackets]
  refine List.map_congr_left fun p _ => ?_
  show [{ p with timestamp := p.timestamp.saturatingAdd (I64.ofInt 0) }] = [p]
  rw [saturatingAdd_zero]

variable {ρ : Type} [StdRng ρ]

/-- A rewriter that is not active leaves the packets as they are. -/
theorem rewriteBatches_inactive {rewriter : MapRewriter ρ} (h : rewriter.isActive = false)
    (checks : Bool) (packets : List PacketRecord) :
    rewriteBatches checks rewriter (packets.map fun p => [p]) =
      packets.map fun p => [⟨p, 0, p⟩] := by
  have hone : ∀ p : PacketRecord, rewriteBatch checks [p] rewriter =
      .ok ([⟨p, 0, p⟩], rewriter) := fun p => by
    have hitem : rewriteItem checks p 0 rewriter = .ok (p, rewriter) := by
      rw [rewriteItem, if_neg (by simp [h])]
    show rewriteItems checks p [(p, 0)] rewriter = _
    rw [rewriteItems, Prog.bind_apply, hitem]
    rfl
  induction packets with
  | nil => rfl
  | cons p packets ih =>
    rw [List.map_cons, List.map_cons, rewriteBatches, hone]
    dsimp only
    rw [ih]

/-- What the next merge gets of a temporary file. -/
theorem made_tmp {settings : Settings} (hargs : settings.args.eraseTimestamp = some false)
    {f : FileInput} {packets : List PacketRecord} (hinput : f.input = ⟨default, packets.map .ok⟩)
    (hpackets : ∀ p ∈ packets, PcapWriter.Writable p) (index : ℕ) :
    f.made ρ settings index = packets.map fun p => ⟨p, 0, p⟩ := by
  have hopen : openFile settings index ⟨default, packets.map .ok⟩ (∅ : MapRuntime ρ) =
      .ok (⟨Input.reader settings (settings.seed + .ofNat index) ⟨default, packets.map .ok⟩,
        ⟨none, none, settings.fixChecksum⟩, none⟩, ∅) := rfl
  rw [FileInput.made, FileInput.batches, hinput, hopen]
  dsimp only
  rw [batches_tmp hargs _ hpackets, rewriteBatches_inactive rfl, ← List.flatMap_def]
  exact List.flatMap_pure_eq_map ..

/-- A temporary file is opened, and its packets are left as they are. -/
theorem merges_tmp {settings : Settings} (hargs : settings.args.eraseTimestamp = some false)
    {f : FileInput} {linkType : LinkType} {packets : List PacketRecord}
    (hsniff : f.sniff = .ok (linkType, ⟨default, packets.map .ok⟩))
    (hpackets : ∀ p ∈ packets, PcapWriter.Writable p) (index : ℕ) : f.Merges ρ settings index := by
  have hinput := FileInput.input_of_sniff hsniff
  refine ⟨(linkType, ⟨Input.reader settings (settings.seed + .ofNat index)
    ⟨default, packets.map .ok⟩, ⟨none, none, settings.fixChecksum⟩, none⟩), ⟨?_, ?_, ?_, rfl⟩, ?_⟩
  · rw [hinput, hsniff]
  · rw [hinput]
    rfl
  · rw [hinput]
  · rw [FileInput.batches, hinput, batches_tmp hargs _ hpackets, RewritesAll,
      rewriteBatches_inactive rfl, List.length_map, List.length_map]

/-- A temporary file can be merged again. -/
theorem fits_tmp {settings : Settings} (hargs : settings.args.eraseTimestamp = some false)
    {f : FileInput} {packets : List PacketRecord} (hinput : f.input = ⟨default, packets.map .ok⟩)
    (hpackets : ∀ p ∈ packets, PcapWriter.Writable p)
    (hsorted : packets.Pairwise fun p q => p.timestamp ≤ q.timestamp) (index : ℕ) :
    f.Fits settings index := by
  have hfile : f.file = default := by
    rw [← f.input_file, hinput]
  refine ⟨?_, ?_, ?_, ?_⟩
  · rw [hfile]
    exact .of_validate (by decide)
  · rw [hfile]
    rfl
  · rw [hinput, timeline_tmp hargs hpackets]
    exact hsorted
  · intro items hitems p hp
    rw [FileInput.batches, hinput, batches_tmp hargs _ hpackets] at hitems
    obtain ⟨q, hq, rfl⟩ := List.mem_map.1 hitems
    rw [List.mem_singleton.1 hp]
    exact hpackets q hq

end Tmp

end Mergecap
end Maja
