/-
# What splitcap writes of a capture

A capture that is read without an error is split without one: no packet makes
`process_packet` panic (`exists_processPacket`).  The flows that are selected are the
largest ones, and the file of a flow holds the packets of that flow, in the order of
the capture (`split_partitions`).
-/

import Maja.Capture.Reopened
import Maja.Lib.Paired
import Maja.Lib.Ranking
import Maja.Packet.FullHeaders
import Maja.Splitcap.Modes
import Mathlib.Data.Finset.Card

namespace Maja
namespace Splitcap

open Lib Capture Packet

/-! ### The flow of a packet -/

section Process

variable {ε : Type}

/-- The ports of a readable packet can be read. -/
theorem exists_portsOf {parsed : Maja.Packet} (h : Readable parsed) :
    ∃ ports, (portsOf parsed : Outcome ε _) = .ok ports := by
  refine h.viewer_bind ?_ fun tcp hlen => ?_
  · refine h.viewer_bind ⟨_, rfl⟩ fun udp hlen => ?_
    refine Field.get_bind (le_trans (by decide) hlen) fun _ => ?_
    exact Field.get_bind (le_trans (by decide) hlen) fun _ => ⟨_, rfl⟩
  · refine Field.get_bind (le_trans (by decide) hlen) fun _ => ?_
    exact Field.get_bind (le_trans (by decide) hlen) fun _ => ⟨_, rfl⟩

/-- **No packet makes `process_packet` panic.** -/
theorem exists_processPacket (packet : PacketRecord) :
    ∃ info, (processPacket packet : Outcome ε _) = .ok info := by
  obtain ⟨parsed, hreadable, hparse⟩ | ⟨err, hparse⟩ :=
    tryParse_readable packet.linkType packet.data
  · obtain ⟨ports, hports⟩ := exists_portsOf (ε := ε) hreadable
    have hflow : ∃ info, (flowInfo parsed : Outcome ε _) = .ok info := by
      refine hreadable.viewer_bind ⟨_, rfl⟩ fun ipv4 hlen => ?_
      refine Field.get_bind (le_trans (by decide) hlen) fun _ => ?_
      rw [hports, Outcome.ok_bind]
      refine Field.get_bind (le_trans (by decide) hlen) fun _ => ?_
      exact Field.get_bind (le_trans (by decide) hlen) fun _ => ⟨_, rfl⟩
    obtain ⟨info, hinfo⟩ := hflow
    exact ⟨info, by simp only [processPacket, hparse, hinfo]⟩
  · exact ⟨none, by simp only [processPacket, hparse, Outcome.pure_eq]⟩

end Process

/-- The flow of a packet, if it has one. -/
def flowOf (granularity : SplitGranularity) (packet : PacketRecord) : Option SplitFlowId :=
  match (processPacket packet : Outcome CaptureError _) with
  | .ok info => info.map (.fromInfo granularity)
  | _ => none

/-- The packets that have a flow. -/
def flowItems (granularity : SplitGranularity) (packets : List PacketRecord) : List FlowPacket :=
  packets.filterMap fun packet => (flowOf granularity packet).map (·, packet)

/-- The body of a loop takes a packet with its flow. -/
theorem forFlow_eq {σ : Type} (granularity : SplitGranularity)
    (step : SplitFlowId → PacketRecord → σ → σ) (packet : PacketRecord) (s : σ) :
    forFlow granularity step packet s =
      .ok ((flowOf granularity packet).elim s (step · packet s)) := by
  obtain ⟨info, hinfo⟩ := exists_processPacket (ε := CaptureError) packet
  simp only [forFlow, flowOf, hinfo, Outcome.ok_bind]
  cases info <;> rfl

/-- The flows of a reader's packets. -/
theorem flowPackets_of_drains (granularity : SplitGranularity) {reader : SniffedReader}
    {packets : List PacketRecord} (h : Drains SniffedReader.nextPacket reader (packets.map .ok))
    (fuel : ℕ) (hfuel : packets.length < fuel) (items : List FlowPacket) :
    ∃ reader', flowPackets granularity fuel reader items =
      .ok (reader', items ++ flowItems granularity packets) := by
  induction packets generalizing reader fuel items with
  | nil =>
    cases h with
    | @done s reader' h =>
      obtain ⟨fuel, rfl⟩ : ∃ k, fuel = k + 1 := ⟨fuel - 1, by omega⟩
      refine ⟨reader', ?_⟩
      rw [flowPackets, readPackets, h, flowItems, List.filterMap_nil, List.append_nil]
  | cons packet packets ih =>
    cases h with
    | @item s reader' a results h hrest =>
      rw [List.length_cons] at hfuel
      obtain ⟨fuel, rfl⟩ : ∃ k, fuel = k + 1 := ⟨fuel - 1, by omega⟩
      obtain ⟨reader'', hloop⟩ := ih hrest fuel (by omega)
        ((flowOf granularity packet).elim items fun flow => items ++ [(flow, packet)])
      refine ⟨reader'', ?_⟩
      rw [flowPackets, readPackets, h]
      dsimp only
      rw [forFlow_eq, Outcome.ok_bind]
      refine Eq.trans hloop ?_
      rw [flowItems, flowItems, List.filterMap_cons]
      cases flowOf granularity packet with
      | none => rfl
      | some flow => simp

/-- **A capture that is read without an error** has its packets sorted into flows. -/
theorem captureFlows_of_readAs (args : Cli) {input : List UInt8} {packets : List PacketRecord}
    (h : ReadAs input packets) :
    ∃ reader, captureFlows args input = .ok (reader, flowItems args.granularity packets) := by
  obtain ⟨reader, hnew, hdrains⟩ := h
  have hlength := (hdrains.length_le (fun r : SniffedReader => r.source.length)
    SniffedReader.nextPacket_consumes).trans (SniffedReader.length_source_of_new hnew)
  rw [List.length_map] at hlength
  obtain ⟨reader', hloop⟩ := flowPackets_of_drains args.granularity hdrains (input.length + 1)
    (Nat.lt_succ_of_le hlength) []
  exact ⟨reader', by rw [captureFlows, hnew, Outcome.ok_bind, hloop, List.nil_append]⟩

/-! ### The flows that are selected -/

/-- The flows that are written: all of them, or the largest ones. -/
structure SelectedFlows (number : ℕ) (items : List FlowPacket) (flowKeys : List SplitFlowId) :
    Prop where
  nodup : flowKeys.Nodup
  nonempty : ∀ flowKey ∈ flowKeys, packetsOf items flowKey ≠ []
  all : number = 0 → ∀ item ∈ items, item.1 ∈ flowKeys
  length : 0 < number → flowKeys.length = min number (items.map Prod.fst).toFinset.card
  largest : ∀ flowKey ∈ flowKeys, ∀ flowKey' ∉ flowKeys,
    (packetsOf items flowKey').length ≤ (packetsOf items flowKey).length

/-- A selection in another order is one, too. -/
theorem SelectedFlows.perm {number : ℕ} {items : List FlowPacket}
    {flowKeys flowKeys' : List SplitFlowId} (h : SelectedFlows number items flowKeys)
    (hperm : flowKeys.Perm flowKeys') : SelectedFlows number items flowKeys' := by
  obtain ⟨hnodup, hnonempty, hall, hlength, hlargest⟩ := h
  refine ⟨hperm.nodup_iff.1 hnodup, fun k hk => hnonempty k (hperm.mem_iff.2 hk),
    fun hn item hitem => hperm.mem_iff.1 (hall hn item hitem),
    fun hn => hperm.length_eq ▸ hlength hn, fun k hk k' hk' => ?_⟩
  exact hlargest k (hperm.mem_iff.2 hk) k' fun h => hk' (hperm.mem_iff.1 h)

/-- A flow has packets when some item is of it. -/
theorem packetsOf_ne_nil_iff {items : List FlowPacket} {flowKey : SplitFlowId} :
    packetsOf items flowKey ≠ [] ↔ flowKey ∈ items.map Prod.fst := by
  rw [packetsOf_ne_nil, ne_eq, List.filter_eq_nil_iff, List.mem_map]
  simp

/-- The number of the flows. -/
theorem length_countsOf (items : List FlowPacket) :
    (countsOf items).entries.length = (items.map Prod.fst).toFinset.card := by
  have hkeys : (countsOf items).keys.toFinset = (items.map Prod.fst).toFinset := by
    ext flowKey
    rw [List.mem_toFinset, List.mem_toFinset, ← packetsOf_ne_nil_iff]
    constructor
    · intro hmem
      obtain ⟨⟨flowKey', count⟩, hcount, rfl⟩ := List.mem_map.1 hmem
      exact ((mem_countsOf items).1 hcount).1
    · exact fun hne => List.mem_map.2 ⟨⟨flowKey, _⟩, (mem_countsOf items).2 ⟨hne, rfl⟩, rfl⟩
  rw [← hkeys, List.toFinset_card_of_nodup (countsOf items).keys_nodup, AList.keys, List.keys,
    List.length_map]

/-- **The selection of the largest flows.** -/
theorem selectedFlows_select {number : ℕ} {items : List FlowPacket} {sizes : List (FlowEntry ℕ)}
    (h : sizes.Perm (countsOf items).entries) :
    SelectedFlows number items (select number sizes) := by
  obtain ⟨hnodup, hnonempty⟩ : (select number sizes).Nodup ∧ _ := select_spec h
  have hsize : ∀ flowKey, packetsOf items flowKey ≠ [] →
      (⟨flowKey, (packetsOf items flowKey).length⟩ : FlowEntry ℕ) ∈ sizes := fun flowKey hne =>
    h.mem_iff.2 ((mem_countsOf items).2 ⟨hne, rfl⟩)
  refine ⟨hnodup, hnonempty, fun hzero item hitem => ?_, fun hpos => ?_, fun k hk k' hk' => ?_⟩
  · have hne : packetsOf items item.1 ≠ [] :=
      packetsOf_ne_nil_iff.2 (List.mem_map.2 ⟨item, hitem, rfl⟩)
    have hall : (largest Sigma.snd number sizes).Perm sizes := largest_perm_self (.inl hzero)
    exact List.mem_map.2 ⟨_, hall.mem_iff.2 (hsize item.1 hne), rfl⟩
  · rw [select, List.length_map, largest, if_pos hpos, List.length_take,
      (sortByKey_perm _ sizes).length_eq, h.length_eq, length_countsOf]
  · by_cases hne : packetsOf items k' = []
    · rw [hne]
      exact Nat.zero_le _
    · obtain ⟨⟨flowKey, count⟩, hcount, rfl⟩ := List.mem_map.1 hk
      have hcount' : (packetsOf items flowKey).length = count :=
        ((mem_countsOf items).1 (h.subset (largest_subperm.subset hcount))).2
      have hout : (⟨k', (packetsOf items k').length⟩ : FlowEntry ℕ) ∉
          largest Sigma.snd number sizes := fun hmem => hk' (List.mem_map.2 ⟨_, hmem, rfl⟩)
      show (packetsOf items k').length ≤ (packetsOf items flowKey).length
      rw [hcount']
      exact largest_le hcount (hsize k' hne) hout

/-! ### The files -/

/-- The file of a flow: its name, and what the writer makes of its packets. -/
structure IsFileOf (config : OutputPcapConfig) (packets : List PacketRecord) (file : OutputFile)
    (flowKey : SplitFlowId) : Prop where
  name : file.name = flowKey.toFilename
  bytes : ∃ first, packets.head? = some first ∧ file.bytes =
    (PcapWriter.writeAll false config.nanosecond config.snapLen first.linkType packets).written

/-- The single pass writes a file for every flow that it selects. -/
theorem isFileOf_filesOf {items : List FlowPacket} {config : OutputPcapConfig}
    {selected : List SplitFlowId} (h : ∀ flowKey ∈ selected, packetsOf items flowKey ≠ []) :
    List.Forall₂ (fun file flowKey => IsFileOf config (packetsOf items flowKey) file flowKey)
      (filesOf items config selected) selected := by
  induction selected with
  | nil => exact .nil
  | cons flowKey selected ih =>
    have hhead := List.head?_eq_some_head (h flowKey List.mem_cons_self)
    have hrest := ih fun k hk => h k (List.mem_cons_of_mem _ hk)
    rw [filesOf, List.filterMap_cons, fileOf, writeFlow]
    dsimp only
    rw [hhead, Option.map_some]
    exact .cons ⟨rfl, _, hhead, rfl⟩ hrest

/-- The second pass has a writer for every flow that the first one selects. -/
theorem keys_writersOf {items : List FlowPacket} (config : OutputPcapConfig)
    {selected : List SplitFlowId} (hnodup : selected.Nodup)
    (h : ∀ flowKey ∈ selected, packetsOf items flowKey ≠ []) :
    ((writersOf items config selected).entries.map Sigma.fst).Perm selected := by
  refine (List.perm_ext_iff_of_nodup (writersOf items config selected).nodupKeys hnodup).2
    fun flowKey => ⟨fun hmem => ?_, fun hmem => ?_⟩
  · obtain ⟨⟨flowKey', w⟩, hw, rfl⟩ := List.mem_map.1 hmem
    exact ((mem_writersOf items config).1 hw).1
  · exact List.mem_map.2 ⟨⟨flowKey, _⟩, (mem_writersOf items config).2 ⟨hmem, h flowKey hmem, rfl⟩, rfl⟩

/-- Each writer of the second pass writes the file of its flow. -/
theorem isFileOf_writersOf (items : List FlowPacket) (config : OutputPcapConfig)
    (selected : List SplitFlowId) :
    List.Forall₂ (fun file flowKey => IsFileOf config (packetsOf items flowKey) file flowKey)
      ((writersOf items config selected).entries.map fun entry =>
        ⟨entry.1.toFilename, entry.2.written⟩)
      ((writersOf items config selected).entries.map Sigma.fst) := by
  rw [List.forall₂_map_left_iff, List.forall₂_map_right_iff, List.forall₂_same]
  intro ⟨flowKey, w⟩ hw
  obtain ⟨-, hne, rfl⟩ := (mem_writersOf items _).1 hw
  exact ⟨rfl, _, List.head?_eq_some_head hne, rfl⟩

/-- A run writes a file for every flow that is selected, and no two under one name. -/
def Splits (args : Cli) (config : OutputPcapConfig) (items : List FlowPacket)
    (run : Outcome CaptureError (List OutputFile)) : Prop :=
  ∃ files flowKeys, run = .ok files ∧ SelectedFlows args.number items flowKeys ∧
    List.Forall₂ (fun file flowKey => IsFileOf config (packetsOf items flowKey) file flowKey)
      files flowKeys ∧ (files.map OutputFile.name).Nodup

/-- No two flows of these packets have one file name: a writer that is opened truncates
the file of its name, whoever fills it. -/
def NamesApart (items : List FlowPacket) : Prop :=
  ∀ item ∈ items, ∀ item' ∈ items, item.1.toFilename = item'.1.toFilename → item.1 = item'.1

instance NamesApart.decidable (items : List FlowPacket) : Decidable (NamesApart items) :=
  inferInstanceAs (Decidable (∀ item ∈ items, ∀ item' ∈ items, _ → _))

/-- Files of flows whose names are apart have different names. -/
theorem nodup_names {items : List FlowPacket} {config : OutputPcapConfig}
    {files : List OutputFile} {flowKeys : List SplitFlowId} {number : ℕ}
    (hnames : NamesApart items) (hselected : SelectedFlows number items flowKeys)
    (hfiles : List.Forall₂ (fun file flowKey =>
      IsFileOf config (packetsOf items flowKey) file flowKey) files flowKeys) :
    (files.map OutputFile.name).Nodup := by
  have hmap : files.map OutputFile.name = flowKeys.map SplitFlowId.toFilename :=
    map_eq_map_of_forall₂ (fun _ _ _ h => h.name) hfiles
  rw [hmap]
  refine hselected.nodup.map_on fun k hk k' hk' hname => ?_
  obtain ⟨item, hitem, rfl⟩ :=
    List.mem_map.1 (packetsOf_ne_nil_iff.1 (hselected.nonempty k hk))
  obtain ⟨item', hitem', rfl⟩ :=
    List.mem_map.1 (packetsOf_ne_nil_iff.1 (hselected.nonempty k' hk'))
  exact hnames item hitem item' hitem' hname

section Runs

variable {args : Cli} {input : List UInt8} {reader : SniffedReader} {items : List FlowPacket}

/-- A run of the single pass splits the packets it has read. -/
theorem splits_singlePassSplit (hread : captureFlows args input = .ok (reader, items))
    (hnames : NamesApart items) (order : IterOrder (FlowEntry (List PacketRecord))) :
    Splits args (outputPcapConfig reader args) items (singlePassSplit order args input) := by
  have hselected : SelectedFlows args.number items _ :=
    selectedFlows_select (sizes_arrange_perm order items)
  have hfiles := @isFileOf_filesOf items (outputPcapConfig reader args) _ hselected.nonempty
  refine ⟨_, _, ?_, hselected, hfiles, nodup_names hnames hselected hfiles⟩
  rw [singlePassSplit_eq, hread]
  rfl

/-- So does a run of the two passes. -/
theorem splits_twoPassSplit (hread : captureFlows args input = .ok (reader, items))
    (hnames : NamesApart items) (order : IterOrder (FlowEntry ℕ)) :
    Splits args (outputPcapConfig reader args) items (twoPassSplit order args input) := by
  have hselected : SelectedFlows args.number items _ :=
    selectedFlows_select (order.perm (countsOf items).entries)
  have hkeys := keys_writersOf (outputPcapConfig reader args) hselected.nodup hselected.nonempty
  have hrun : twoPassSplit order args input =
      .ok ((writersOf items (outputPcapConfig reader args) (select args.number
        (order.arrange (countsOf items).entries))).entries.map fun entry =>
          ⟨entry.1.toFilename, entry.2.written⟩) := by
    rw [twoPassSplit_eq, hread]
    rfl
  have hselected' := hselected.perm hkeys.symm
  have hfiles := isFileOf_writersOf items (outputPcapConfig reader args)
    (select args.number (order.arrange (countsOf items).entries))
  exact ⟨_, _, hrun, hselected', hfiles, nodup_names hnames hselected' hfiles⟩

end Runs

/-- **What splitcap writes.**  For every capture that is read without an error and in
which no two flows share a file name, every granularity and number, and every order of
the hash maps, both modes write: the flows that are written are all, or the largest
ones; and there is one file for each of them, with all packets of the flow in the order
of the capture. -/
theorem split_partitions (args : Cli) {input : List UInt8} {packets : List PacketRecord}
    (h : ReadAs input packets) (hnames : NamesApart (flowItems args.granularity packets)) :
    ∃ config, (∀ order, Splits args config (flowItems args.granularity packets)
        (singlePassSplit order args input)) ∧
      ∀ order, Splits args config (flowItems args.granularity packets)
        (twoPassSplit order args input) := by
  obtain ⟨reader, hread⟩ := captureFlows_of_readAs args h
  exact ⟨_, splits_singlePassSplit hread hnames, splits_twoPassSplit hread hnames⟩

/-- A capture of two flows, and a packet that has none. -/
theorem split_partitions_twoFlows :
    ∃ config, (∀ order, Splits { number := 1 } config
        (flowItems .tuple5Sym [hostPacket 2, hostPacket 3, hostPacket 2])
        (singlePassSplit order { number := 1 } (PcapWriter.writeAll false true 65535 .ipv4
          [hostPacket 2, hostPacket 3, hostPacket 2]).written)) ∧
      ∀ order, Splits { number := 1 } config
        (flowItems .tuple5Sym [hostPacket 2, hostPacket 3, hostPacket 2])
        (twoPassSplit order { number := 1 } (PcapWriter.writeAll false true 65535 .ipv4
          [hostPacket 2, hostPacket 3, hostPacket 2]).written) :=
  split_partitions { number := 1 } (readAs_writeAll (by norm_num) (by decide) fun p hp => by
    simp only [List.mem_cons, List.not_mem_nil, or_false] at hp
    obtain rfl | rfl | rfl := hp <;> exact ⟨by decide, by decide, by decide⟩)
    (by decide +kernel)

end Splitcap
end Maja
