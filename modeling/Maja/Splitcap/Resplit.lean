/-
# Splitting a file again

A file that splitcap wrote holds one flow, and says itself which snap length and
precision it has.  Splitting it again at the same granularity gives back this file,
as it is and under its name (`split_again`), as long as the file holds the packets
whole: the snap length cuts none, and the packets of the flow have one link type.
-/

import Maja.Splitcap.Partition

namespace Maja
namespace Splitcap

open Lib Capture

/-! ### The reader of a file -/

/-- A call keeps the header of the file. -/
theorem readPacketRaw_header {r r' : PcapReader} {record : Option (PcapPacketHeader × List UInt8)}
    (h : r.readPacketRaw = .ok (record, r')) :
    r'.header = r.header ∧ r'.nanosecond = r.nanosecond := by
  unfold PcapReader.readPacketRaw at h
  split at h
  · cases h
    exact ⟨rfl, rfl⟩
  · obtain ⟨header, -, h⟩ := Outcome.bind_eq_ok.1 h
    split at h
    · cases h
    · cases h
      exact ⟨rfl, rfl⟩

/-- Reading a packet keeps the header of the reader. -/
theorem nextPacket_header {r r' : PcapReader} {packet : Option PacketRecord}
    (h : r.nextPacket = .ok (packet, r')) :
    r'.header = r.header ∧ r'.nanosecond = r.nanosecond := by
  unfold PcapReader.nextPacket at h
  simp only [Prog.bind_apply, Prog.get_apply, Outcome.ok_bind] at h
  obtain ⟨⟨record, r''⟩, hread, h⟩ := Outcome.bind_eq_ok.1 h
  have hheader := readPacketRaw_header hread
  cases record with
  | none =>
    cases h
    exact hheader
  | some record =>
    obtain ⟨⟨packet', r'''⟩, hlift, h⟩ := Outcome.bind_eq_ok.1 h
    have hstate : r''' = r'' := by
      unfold Prog.lift at hlift
      split at hlift <;> cases hlift
      rfl
    cases h
    exact hstate ▸ hheader

/-- A loop over a pcap file keeps its header. -/
theorem readPackets_header {σ : Type} {body : PacketRecord → σ → Outcome CaptureError σ} {fuel : ℕ}
    {r : PcapReader} {s s' : σ} {reader' : SniffedReader}
    (h : readPackets body fuel (.pcap r) s = .ok (reader', s')) :
    ∃ r', reader' = .pcap r' ∧ r'.header = r.header ∧ r'.nanosecond = r.nanosecond := by
  induction fuel generalizing r s with
  | zero => cases h
  | succ fuel ih =>
    rw [readPackets, SniffedReader.nextPacket] at h
    cases hnext : r.nextPacket with
    | ok next =>
      obtain ⟨packet, r'⟩ := next
      have hheader := nextPacket_header hnext
      rw [hnext] at h
      cases packet with
      | none =>
        cases h
        exact ⟨r', rfl, hheader⟩
      | some packet =>
        obtain ⟨s₁, -, h⟩ := Outcome.bind_eq_ok.1 h
        obtain ⟨r'', hr'', hheader''⟩ := ih h
        exact ⟨r'', hr'', hheader''.1.trans hheader.1, hheader''.2.trans hheader.2⟩
    | err e | panic | outOfFuel =>
      rw [hnext] at h
      cases h

/-! ### The flows of a file -/

/-- The items of a run are of their flows. -/
theorem flowOf_of_flowPackets {granularity : SplitGranularity} {fuel : ℕ} {reader : SniffedReader}
    {items : List FlowPacket} {read : SniffedReader × List FlowPacket}
    (h : flowPackets granularity fuel reader items = .ok read)
    (hitems : ∀ item ∈ items, flowOf granularity item.2 = some item.1) :
    ∀ item ∈ read.2, flowOf granularity item.2 = some item.1 := by
  induction fuel generalizing reader items with
  | zero => cases h
  | succ fuel ih =>
    rw [flowPackets, readPackets] at h
    cases hnext : reader.nextPacket with
    | ok next =>
      obtain ⟨_ | packet, reader'⟩ := next
      · rw [hnext] at h
        cases h
        exact hitems
      · rw [hnext] at h
        dsimp only at h
        rw [forFlow_eq, Outcome.ok_bind] at h
        refine ih h fun item hitem => ?_
        cases hflow : flowOf granularity packet with
        | none =>
          rw [hflow] at hitem
          exact hitems item hitem
        | some flow =>
          rw [hflow, Option.elim_some, List.mem_append, List.mem_singleton] at hitem
          obtain hitem | rfl := hitem
          · exact hitems item hitem
          · exact hflow
    | err e | panic | outOfFuel =>
      rw [hnext] at h
      cases h

/-- The packets of one flow are selected as they are. -/
theorem eq_singleton_of_selected {number : ℕ} {flowKey : SplitFlowId} {packets : List PacketRecord}
    {flowKeys : List SplitFlowId} (hne : packets ≠ [])
    (h : SelectedFlows number (packets.map (flowKey, ·)) flowKeys) : flowKeys = [flowKey] := by
  have hone : ∀ flowKey' ∈ flowKeys, flowKey' = flowKey := fun flowKey' hmem => by
    have hmem' := packetsOf_ne_nil_iff.1 (h.nonempty flowKey' hmem)
    rw [List.map_map, List.mem_map] at hmem'
    obtain ⟨_, -, rfl⟩ := hmem'
    rfl
  have hnonempty : flowKeys ≠ [] := by
    obtain ⟨packet, hpacket⟩ := List.exists_mem_of_ne_nil packets hne
    have hitem : (flowKey, packet) ∈ packets.map (flowKey, ·) := List.mem_map.2 ⟨_, hpacket, rfl⟩
    obtain hzero | hpos := Nat.eq_zero_or_pos number
    · exact List.ne_nil_of_mem (h.all hzero _ hitem)
    · refine List.ne_nil_of_length_pos ?_
      rw [h.length hpos, lt_min_iff, Finset.card_pos]
      exact ⟨hpos, _, List.mem_toFinset.2 (List.mem_map.2 ⟨_, hitem, rfl⟩)⟩
  have hnodup := h.nodup
  match flowKeys with
  | [] => exact absurd rfl hnonempty
  | [flowKey'] => rw [hone flowKey' List.mem_cons_self]
  | a :: b :: _ =>
    rw [hone a List.mem_cons_self, hone b (List.mem_cons_of_mem _ List.mem_cons_self)] at hnodup
    exact absurd List.mem_cons_self (List.nodup_cons.1 hnodup).1

/-- The packets of the one flow. -/
theorem packetsOf_singleton (flowKey : SplitFlowId) (packets : List PacketRecord) :
    packetsOf (packets.map (flowKey, ·)) flowKey = packets := by
  rw [packetsOf, List.filter_eq_self.2, List.map_map]
  · exact List.map_id packets
  · intro item hitem
    obtain ⟨_, -, rfl⟩ := List.mem_map.1 hitem
    exact decide_eq_true rfl

/-- One flow has one name. -/
theorem namesApart_singleton (flowKey : SplitFlowId) (packets : List PacketRecord) :
    NamesApart (packets.map (flowKey, ·)) := by
  intro item hitem item' hitem' _
  obtain ⟨_, -, rfl⟩ := List.mem_map.1 hitem
  obtain ⟨_, -, rfl⟩ := List.mem_map.1 hitem'
  rfl

/-! ### The file again -/

/-- A packet that the file holds whole. -/
structure HeldWhole (snapLen : ℕ) (packet : PacketRecord) : Prop where
  writable : PcapWriter.Writable packet
  assigned : PcapWriter.Assigned packet.linkType
  code : packet.linkType.toCode < 2 ^ 16
  uncut : packet.data.length ≤ snapLen

/-- It is of the same flow when it is read back. -/
theorem HeldWhole.flowOf {snapLen : ℕ} {packet : PacketRecord} (h : HeldWhole snapLen packet)
    (hsnap : snapLen < 2 ^ 32) (nanosecond : Bool) (granularity : SplitGranularity) :
    flowOf granularity (PcapWriter.packetRead nanosecond snapLen packet.linkType packet) =
      flowOf granularity packet := by
  have huncut := h.uncut
  have hdata : packet.data.take (PcapWriter.inclLen snapLen packet) = packet.data := by
    refine List.take_of_length_le ?_
    rw [PcapWriter.inclLen_eq, Nat.mod_eq_of_lt (by omega)]
    omega
  have hread : PcapWriter.packetRead nanosecond snapLen packet.linkType packet =
      { packet with
        timestamp := if nanosecond then packet.timestamp
          else I64.clamp (packet.timestamp.val / 1000 * 1000) } := by
    have hlink : LinkType.ofCode packet.linkType.toCode = packet.linkType := h.assigned
    rw [PcapWriter.packetRead, hdata, hlink]
  rw [hread]
  rfl

section File

variable {config : OutputPcapConfig} {packets : List PacketRecord} {first : PacketRecord}

/-- The configuration that splitcap takes from a file it wrote. -/
theorem outputPcapConfig_written {again : Cli} {reader : SniffedReader} {items : List FlowPacket}
    (hsnapLen : again.snapLen = none) (hnanosecond : again.nanosecond = none)
    (hsnap : config.snapLen < 2 ^ 32) (hcode : first.linkType.toCode < 2 ^ 16)
    (hread : captureFlows again (PcapWriter.writeAll false config.nanosecond config.snapLen
      first.linkType packets).written = .ok (reader, items)) :
    outputPcapConfig reader again = config := by
  obtain ⟨r, hnew, hheader, hprecision⟩ :=
    @PcapWriter.new_writeAll false config.nanosecond _ _ packets hsnap hcode
  obtain ⟨reader₀, hreader₀, hloop⟩ := Outcome.bind_eq_ok.1 hread
  obtain rfl : SniffedReader.pcap r = reader₀ := Outcome.ok.inj (hnew.symm.trans hreader₀)
  obtain ⟨r', rfl, hheader', hprecision'⟩ := readPackets_header hloop
  have hconfig : outputPcapConfig (.pcap r') again = ⟨r'.header.snapLen, r'.nanosecond⟩ := by
    rw [outputPcapConfig, hsnapLen, hnanosecond]
    rfl
  rw [hconfig, hheader', hheader, hprecision', hprecision]

/-- The packets of a file are of its flow. -/
theorem flowItems_written {granularity : SplitGranularity} {flowKey : SplitFlowId}
    (hsnap : config.snapLen < 2 ^ 32) (hheld : ∀ p ∈ packets, HeldWhole config.snapLen p)
    (hlink : ∀ p ∈ packets, p.linkType = first.linkType)
    (hflow : ∀ p ∈ packets, flowOf granularity p = some flowKey) :
    flowItems granularity (packets.map
      (PcapWriter.packetRead config.nanosecond config.snapLen first.linkType)) =
        (packets.map (PcapWriter.packetRead config.nanosecond config.snapLen
          first.linkType)).map (flowKey, ·) := by
  rw [flowItems, List.filterMap_map, List.map_map, ← List.filterMap_eq_map]
  refine List.filterMap_congr fun p hp => ?_
  have hread := (hheld p hp).flowOf hsnap config.nanosecond granularity
  rw [hlink p hp, hflow p hp] at hread
  show (flowOf granularity (PcapWriter.packetRead _ _ _ p)).map _ = _
  rw [hread]
  rfl

/-- A run that splits what was read of a file writes the file. -/
theorem eq_of_splits {again : Cli} {flowKey : SplitFlowId} {file : OutputFile}
    {run : Outcome CaptureError (List OutputFile)} (hfirst : packets.head? = some first)
    (hassigned : PcapWriter.Assigned first.linkType)
    (hwritable : ∀ p ∈ packets, PcapWriter.Writable p) (hname : file.name = flowKey.toFilename)
    (hbytes : file.bytes = (PcapWriter.writeAll false config.nanosecond config.snapLen
      first.linkType packets).written)
    (h : Splits again config ((packets.map (PcapWriter.packetRead config.nanosecond
      config.snapLen first.linkType)).map (flowKey, ·)) run) : run = .ok [file] := by
  obtain ⟨files, flowKeys, rfl, hselected, hfiles, -⟩ := h
  have hne : packets.map (PcapWriter.packetRead config.nanosecond config.snapLen
      first.linkType) ≠ [] := by
    rintro hnil
    rw [List.map_eq_nil_iff.1 hnil] at hfirst
    cases hfirst
  obtain rfl := eq_singleton_of_selected hne hselected
  obtain ⟨file', rfl⟩ := List.length_eq_one_iff.1 hfiles.length_eq
  obtain ⟨hname', first', hfirst', hbytes'⟩ : IsFileOf config _ file' flowKey :=
    (List.forall₂_cons.1 hfiles).1
  rw [packetsOf_singleton] at hfirst' hbytes'
  have hlink : first'.linkType = first.linkType := by
    rw [List.head?_map, hfirst, Option.map_some] at hfirst'
    obtain rfl := Option.some.inj hfirst'
    exact hassigned
  rw [hlink, PcapWriter.written_packetRead hwritable, ← hbytes] at hbytes'
  obtain ⟨name, bytes⟩ := file
  obtain ⟨name', bytes'⟩ := file'
  obtain rfl : name' = name := hname'.trans hname.symm
  obtain rfl : bytes' = bytes := hbytes'
  rfl

end File

/-- **Splitting a file again gives it back.**  For every run of either mode over any
capture whose packets the files hold whole and no two of whose flows share a file name,
and every file that it writes: splitting the file again at the same granularity, in either
mode, with any number and in any order of the hash maps, writes that one file, under the
same name and byte for byte. -/
theorem split_again {args again : Cli} {input : List UInt8} {reader : SniffedReader}
    {items : List FlowPacket} (hread : captureFlows args input = .ok (reader, items))
    (hgranularity : again.granularity = args.granularity) (hsnapLen : again.snapLen = none)
    (hnanosecond : again.nanosecond = none)
    (hsnap : (outputPcapConfig reader args).snapLen < 2 ^ 32)
    (hheld : ∀ item ∈ items, HeldWhole (outputPcapConfig reader args).snapLen item.2)
    (hlink : ∀ item ∈ items, ∀ item' ∈ items, item.1 = item'.1 →
      item.2.linkType = item'.2.linkType) (hnames : NamesApart items) {files : List OutputFile}
    (hrun : (∃ order, singlePassSplit order args input = .ok files) ∨
      ∃ order, twoPassSplit order args input = .ok files) :
    ∀ file ∈ files, (∀ order, singlePassSplit order again file.bytes = .ok [file]) ∧
      ∀ order, twoPassSplit order again file.bytes = .ok [file] := by
  have hsplits : Splits args (outputPcapConfig reader args) items (.ok files) := by
    obtain ⟨order, hrun⟩ | ⟨order, hrun⟩ := hrun
    · exact hrun ▸ splits_singlePassSplit hread hnames order
    · exact hrun ▸ splits_twoPassSplit hread hnames order
  generalize outputPcapConfig reader args = config at hsnap hheld hsplits
  obtain ⟨files', flowKeys, hfiles', -, hfiles, -⟩ := hsplits
  obtain rfl := Outcome.ok.inj hfiles'
  intro file hfile
  obtain ⟨flowKey, -, hname, first, hfirst, hbytes⟩ := exists_of_forall₂ hfiles.flip hfile
  have hitem : ∀ p ∈ packetsOf items flowKey, (flowKey, p) ∈ items := fun p hp => by
    obtain ⟨⟨flowKey', p'⟩, hmem, rfl⟩ := List.mem_map.1 hp
    obtain ⟨hmem, hkey⟩ := List.mem_filter.1 hmem
    exact (of_decide_eq_true hkey : flowKey' = flowKey) ▸ hmem
  have hmem : first ∈ packetsOf items flowKey := List.mem_of_head? hfirst
  have hheld' : ∀ p ∈ packetsOf items flowKey, HeldWhole config.snapLen p := fun p hp =>
    hheld _ (hitem p hp)
  have hfirst' : HeldWhole config.snapLen first := hheld' first hmem
  have hwritable : ∀ p ∈ packetsOf items flowKey, PcapWriter.Writable p := fun p hp =>
    (hheld' p hp).writable
  have hflow : ∀ p ∈ packetsOf items flowKey, flowOf again.granularity p = some flowKey := by
    intro p hp
    obtain ⟨reader₀, -, hloop⟩ := Outcome.bind_eq_ok.1 hread
    have hall := flowOf_of_flowPackets hloop fun item h => absurd h List.not_mem_nil
    rw [hgranularity]
    exact hall (flowKey, p) (hitem p hp)
  -- the file is read, and its packets are of its flow
  have hreadAs : ReadAs file.bytes ((packetsOf items flowKey).map
      (PcapWriter.packetRead config.nanosecond config.snapLen first.linkType)) := by
    rw [hbytes]
    exact readAs_writeAll hsnap hfirst'.code hwritable
  obtain ⟨reader', hread'⟩ := captureFlows_of_readAs again hreadAs
  have hlink' : ∀ p ∈ packetsOf items flowKey, p.linkType = first.linkType := fun p hp =>
    hlink (flowKey, p) (hitem p hp) (flowKey, first) (hitem first hmem) rfl
  rw [flowItems_written hsnap hheld' hlink' hflow] at hread'
  have hconfig := outputPcapConfig_written hsnapLen hnanosecond hsnap hfirst'.code
    (hbytes ▸ hread')
  have hone := namesApart_singleton flowKey ((packetsOf items flowKey).map
    (PcapWriter.packetRead config.nanosecond config.snapLen first.linkType))
  have hsingle := splits_singlePassSplit hread' hone
  have htwo := splits_twoPassSplit hread' hone
  rw [hconfig] at hsingle htwo
  exact ⟨fun order => eq_of_splits hfirst hfirst'.assigned hwritable hname hbytes (hsingle order),
    fun order => eq_of_splits hfirst hfirst'.assigned hwritable hname hbytes (htwo order)⟩

/-- The files of a capture of two flows. -/
theorem split_again_twoFlows :
    ∃ files, singlePassSplit .asListed { snapLen := some 65535 } (PcapWriter.writeAll true true 65535
        .ipv4 [hostPacket 2, hostPacket 3]).written = .ok files ∧
      ∀ file ∈ files, (∀ order, singlePassSplit order {} file.bytes = .ok [file]) ∧
        ∀ order, twoPassSplit order {} file.bytes = .ok [file] := by
  have hheld : ∀ p ∈ [hostPacket 2, hostPacket 3], HeldWhole 65535 p ∧ p.linkType = .ipv4 := by
    intro p hp
    simp only [List.mem_cons, List.not_mem_nil, or_false] at hp
    obtain rfl | rfl := hp <;>
      exact ⟨⟨⟨by decide, by decide, by decide⟩, by decide, by decide, by decide⟩, rfl⟩
  have hwritten : ReadAs (PcapWriter.writeAll true true 65535 .ipv4
      [hostPacket 2, hostPacket 3]).written _ :=
    readAs_writeAll (by norm_num) (by decide) fun p hp => (hheld p hp).1.writable
  obtain ⟨reader, hread⟩ := captureFlows_of_readAs { snapLen := some 65535 } hwritten
  have hnames : NamesApart (flowItems .tuple5Sym ([hostPacket 2, hostPacket 3].map
      (PcapWriter.packetRead true 65535 .ipv4))) := by
    decide +kernel
  obtain ⟨files, -, hrun, -⟩ := splits_singlePassSplit hread hnames .asListed
  have hmem : ∀ item ∈ flowItems .tuple5Sym [hostPacket 2, hostPacket 3],
      item.2 ∈ [hostPacket 2, hostPacket 3] := fun item hitem => by
    obtain ⟨packet, hpacket, hitem⟩ := List.mem_filterMap.1 hitem
    obtain ⟨flow, -, rfl⟩ := Option.map_eq_some_iff.1 hitem
    exact hpacket
  have hagain := @split_again { snapLen := some 65535 } {} _ reader _ hread rfl rfl rfl
    (by norm_num [outputPcapConfig]) (fun item hitem => (hheld _ (hmem item hitem)).1)
    (fun item hitem item' hitem' _ =>
      (hheld _ (hmem item hitem)).2.trans (hheld _ (hmem item' hitem')).2.symm) hnames _
    (.inl ⟨_, hrun⟩)
  exact ⟨files, hrun, hagain⟩

end Splitcap
end Maja
