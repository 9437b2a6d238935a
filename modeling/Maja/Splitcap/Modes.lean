/-
# The two modes write the same files

Both modes file the packets of a capture under their flow keys, one the packets
themselves and one their number, and both select flows by that number.  So they may
select the same flows: what one mode writes in some order of its hash map, the other
writes in some order of its own.  Which flows a run selects is left to these orders
only where flows of one size lie on both sides of the cut.

The loops of both modes are folds over the packets that have a flow
(`readPackets_forFlow`); a file is then a function of its flow, and a run the list of
the flows that it selects (`filesOf`).
-/

import Maja.Packet.Descent
import Maja.Splitcap.Split

namespace Maja
namespace Splitcap

open Lib Capture

/-! ### The loops end -/

/-- Reading the ports takes no loop. -/
theorem portsOf_ne_outOfFuel {ε : Type} (parsed : Maja.Packet) :
    (portsOf parsed : Outcome ε _) ≠ .outOfFuel := by
  refine Outcome.bind_ne_outOfFuel (parsed.nthLayerViewer_ne_outOfFuel _ _) fun tcp _ => ?_
  cases tcp with
  | some tcp =>
    exact Outcome.bind_ne_outOfFuel (Packet.Field.get_ne_outOfFuel _ _) fun _ _ =>
      Outcome.bind_ne_outOfFuel (Packet.Field.get_ne_outOfFuel _ _) fun _ _ => by simp
  | none =>
    refine Outcome.bind_ne_outOfFuel (parsed.nthLayerViewer_ne_outOfFuel _ _) fun udp _ => ?_
    cases udp with
    | some udp =>
      exact Outcome.bind_ne_outOfFuel (Packet.Field.get_ne_outOfFuel _ _) fun _ _ =>
        Outcome.bind_ne_outOfFuel (Packet.Field.get_ne_outOfFuel _ _) fun _ _ => by simp
    | none => simp

/-- Reading the flow of a packet takes no loop. -/
theorem flowInfo_ne_outOfFuel {ε : Type} (parsed : Maja.Packet) :
    (flowInfo parsed : Outcome ε _) ≠ .outOfFuel := by
  refine Outcome.bind_ne_outOfFuel (parsed.nthLayerViewer_ne_outOfFuel _ _) fun ipv4 _ => ?_
  cases ipv4 with
  | some ipv4 =>
    refine Outcome.bind_ne_outOfFuel (Packet.Field.get_ne_outOfFuel _ _) fun _ _ => ?_
    refine Outcome.bind_ne_outOfFuel (portsOf_ne_outOfFuel parsed) fun _ _ => ?_
    refine Outcome.bind_ne_outOfFuel (Packet.Field.get_ne_outOfFuel _ _) fun _ _ => ?_
    exact Outcome.bind_ne_outOfFuel (Packet.Field.get_ne_outOfFuel _ _) fun _ _ => by simp
  | none => simp

/-- The flow of a packet is found with the fuel that the parser is given. -/
theorem processPacket_ne_outOfFuel {ε : Type} (packet : PacketRecord) :
    (processPacket packet : Outcome ε (Option FlowInfo)) ≠ .outOfFuel := by
  rw [processPacket, Packet.tryParseWithLinkType_new packet.linkType (Nat.lt_succ_self _),
    Packet.Trace.toPacket]
  cases Packet.Trace.error _ with
  | none => exact flowInfo_ne_outOfFuel _
  | some err => simp

/-- A loop over the packets ends: every packet uses up some of the capture. -/
theorem readPackets_ne_outOfFuel {σ : Type} {body : PacketRecord → σ → Outcome CaptureError σ}
    (hbody : ∀ packet s, body packet s ≠ .outOfFuel) {fuel : ℕ} {reader : SniffedReader}
    (hfuel : reader.source.length < fuel) (s : σ) : readPackets body fuel reader s ≠ .outOfFuel := by
  induction fuel generalizing reader s with
  | zero => omega
  | succ fuel ih =>
    have hconsumes := reader.nextPacket_consumes
    unfold readPackets
    rcases hread : reader.nextPacket with ⟨_ | packet, reader'⟩ | ⟨e, reader'⟩ | _ | _
    · simp
    · rw [hread] at hconsumes
      have hlt : reader'.source.length < reader.source.length := hconsumes
      exact Outcome.bind_ne_outOfFuel (hbody packet s) fun s' _ => ih (by omega) s'
    · simp
    · simp
    · rw [hread] at hconsumes
      exact hconsumes.elim

/-- A step for the flow of a packet takes no loop. -/
theorem forFlow_ne_outOfFuel {σ : Type} (granularity : SplitGranularity)
    (step : SplitFlowId → PacketRecord → σ → σ) (packet : PacketRecord) (s : σ) :
    forFlow granularity step packet s ≠ .outOfFuel := by
  refine Outcome.bind_ne_outOfFuel (processPacket_ne_outOfFuel packet) fun info _ => ?_
  cases info <;> simp

/-! ### The loops are folds -/

/-- A packet and its flow. -/
abbrev FlowPacket : Type := SplitFlowId × PacketRecord

/-- The packets that have a flow, in the order of the capture. -/
def flowPackets (granularity : SplitGranularity) (fuel : ℕ) (reader : SniffedReader)
    (items : List FlowPacket) : Outcome CaptureError (SniffedReader × List FlowPacket) :=
  readPackets (forFlow granularity fun flowKey packet items => items ++ [(flowKey, packet)]) fuel
    reader items

/-- The capture opened, and its packets that have a flow. -/
def captureFlows (args : Cli) (input : List UInt8) :
    Outcome CaptureError (SniffedReader × List FlowPacket) :=
  SniffedReader.new input >>= fun reader =>
    flowPackets args.granularity (input.length + 1) reader []

/-- Collecting the flows of a capture terminates. -/
theorem captureFlows_ne_outOfFuel (args : Cli) (input : List UInt8) :
    captureFlows args input ≠ .outOfFuel := by
  refine Outcome.bind_ne_outOfFuel (SniffedReader.new_ne_outOfFuel input) fun reader hnew => ?_
  have hlength := SniffedReader.length_source_of_new hnew
  exact readPackets_ne_outOfFuel (forFlow_ne_outOfFuel _ _) (by omega) []

/-- **A loop is a fold over the packets that have a flow.** -/
theorem readPackets_forFlow {σ : Type} (granularity : SplitGranularity)
    (step : SplitFlowId → PacketRecord → σ → σ) (fuel : ℕ) (reader : SniffedReader)
    (items : List FlowPacket) (s : σ) :
    readPackets (forFlow granularity step) fuel reader
        (items.foldl (fun s item => step item.1 item.2 s) s) =
      flowPackets granularity fuel reader items >>= fun read =>
        .ok (read.1, read.2.foldl (fun s item => step item.1 item.2 s) s) := by
  induction fuel generalizing reader items with
  | zero => rfl
  | succ fuel ih =>
    unfold flowPackets readPackets
    rcases reader.nextPacket with ⟨_ | packet, reader'⟩ | ⟨e, reader'⟩ | _ | _
    · rfl
    · simp only [forFlow, Outcome.bind_assoc]
      rcases (processPacket packet : Outcome CaptureError _) with (_ | info) | e | _ | _
      · exact ih reader' items
      · have hrest := ih reader' (items ++ [(.fromInfo granularity info, packet)])
        rw [List.foldl_append] at hrest
        exact hrest
      · rfl
      · rfl
      · rfl
    · rfl
    · rfl
    · rfl

/-- A loop over a capture that was just opened. -/
theorem new_readPackets {σ β : Type} (args : Cli) (input : List UInt8)
    (step : SplitFlowId → PacketRecord → σ → σ) (s : σ)
    (f : SniffedReader × σ → Outcome CaptureError β) :
    (SniffedReader.new input >>= fun reader =>
        readPackets (forFlow args.granularity step) (input.length + 1) reader s >>= f) =
      captureFlows args input >>= fun read =>
        f (read.1, read.2.foldl (fun s item => step item.1 item.2 s) s) := by
  rw [captureFlows, Outcome.bind_assoc]
  congr 1
  funext reader
  have hloop := readPackets_forFlow args.granularity step (input.length + 1) reader [] s
  rw [List.foldl_nil] at hloop
  rw [hloop, Outcome.bind_assoc]
  rfl

/-! ### Flows and their files -/

section Files

variable (items : List FlowPacket) (config : OutputPcapConfig)

/-- The packets of a flow, in the order of the capture. -/
def packetsOf (flowKey : SplitFlowId) : List PacketRecord :=
  (items.filter fun item => item.1 = flowKey).map Prod.snd

/-- The file of a flow. -/
def fileOf (flowKey : SplitFlowId) : Option OutputFile :=
  writeFlow config ⟨flowKey, packetsOf items flowKey⟩

/-- The files of a list of flows. -/
def filesOf (flowKeys : List SplitFlowId) : List OutputFile :=
  flowKeys.filterMap (fileOf items config)

def flowsOf : Flows := items.foldl (fun flows item => pushPacket item.1 item.2 flows) ∅

def countsOf : FlowCounts := items.foldl (fun counts item => countPacket item.1 item.2 counts) ∅

def writersOf (selected : List SplitFlowId) : Writers :=
  items.foldl (fun writers item => extractPacket config selected item.1 item.2 writers) ∅

/-- A flow has packets when one of the items is of it. -/
theorem packetsOf_ne_nil {flowKey : SplitFlowId} :
    packetsOf items flowKey ≠ [] ↔ (items.filter fun item => item.1 = flowKey) ≠ [] := by
  rw [packetsOf, Ne, List.map_eq_nil_iff]

/-- The single pass holds the packets of every flow. -/
theorem mem_flowsOf {flowKey : SplitFlowId} {packets : List PacketRecord} :
    ⟨flowKey, packets⟩ ∈ (flowsOf items).entries ↔
      packetsOf items flowKey ≠ [] ∧ packetsOf items flowKey = packets := by
  have htable : flowsOf items = Table.upsertAll Prod.fst (fun _ => [])
      (fun item packets => packets ++ [item.2]) items ∅ := rfl
  have hfold : ∀ (as : List FlowPacket) (packets : List PacketRecord),
      as.foldl (fun packets item => packets ++ [item.2]) packets = packets ++ as.map Prod.snd := by
    intro as
    induction as with
    | nil => simp
    | cons item as ih => simp [ih]
  rw [htable, Table.mem_upsertAll, exists_prop, hfold, List.nil_append, packetsOf_ne_nil, packetsOf]

/-- The first pass holds the number of packets of every flow. -/
theorem mem_countsOf {flowKey : SplitFlowId} {count : ℕ} :
    ⟨flowKey, count⟩ ∈ (countsOf items).entries ↔
      packetsOf items flowKey ≠ [] ∧ (packetsOf items flowKey).length = count := by
  have htable : countsOf items = Table.upsertAll Prod.fst (fun _ => 0)
      (fun _ count => count + 1) items ∅ := rfl
  rw [htable, Table.mem_upsertAll, exists_prop, packetsOf_ne_nil, packetsOf, List.length_map]
  simp

/-- The second pass holds a writer for every selected flow, which was given the
packets of the flow. -/
theorem mem_writersOf {selected : List SplitFlowId} {flowKey : SplitFlowId} {w : PcapWriter} :
    ⟨flowKey, w⟩ ∈ (writersOf items config selected).entries ↔
      flowKey ∈ selected ∧ ∃ h : packetsOf items flowKey ≠ [],
        (packetsOf items flowKey).foldl PcapWriter.writePacket
          (createWriter config ((packetsOf items flowKey).head h).linkType) = w := by
  have htable : writersOf items config selected = Table.upsertAll Prod.fst
      (fun item => createWriter config item.2.linkType) (fun item w => w.writePacket item.2)
      (items.filter fun item => item.1 ∈ selected) ∅ := by
    unfold writersOf Table.upsertAll
    rw [List.foldl_filter]
    simp only [decide_eq_true_eq]
    rfl
  rw [htable, Table.mem_upsertAll, List.filter_filter]
  by_cases hselected : flowKey ∈ selected
  · have hfilter : (items.filter fun item =>
        decide (item.1 = flowKey) && decide (item.1 ∈ selected)) =
          items.filter fun item => item.1 = flowKey := by
      refine List.filter_congr fun item _ => ?_
      by_cases hkey : item.1 = flowKey <;> simp [hkey, hselected]
    simp only [hfilter, hselected, true_and, packetsOf, List.foldl_map, List.head_map, ne_eq,
      List.map_eq_nil_iff]
  · have hfilter : (items.filter fun item =>
        decide (item.1 = flowKey) && decide (item.1 ∈ selected)) = [] := by
      refine List.filter_eq_nil_iff.2 fun item _ h => hselected ?_
      simp only [Bool.and_eq_true, decide_eq_true_eq] at h
      exact h.1 ▸ h.2
    simp [hfilter, hselected]

end Files

/-! ### A run is a selection of flows -/

/-- A flow and its size. -/
def sizeOfFlow (flow : FlowEntry (List PacketRecord)) : FlowEntry ℕ := ⟨flow.1, flow.2.length⟩

/-- The flows that are selected from sizes that a hash map hands out. -/
def select (number : ℕ) (sizes : List (FlowEntry ℕ)) : List SplitFlowId :=
  (largest Sigma.snd number sizes).map Sigma.fst

/-- The single pass writes the files of the flows that it selects. -/
theorem singlePassSplit_eq (order : IterOrder (FlowEntry (List PacketRecord))) (args : Cli)
    (input : List UInt8) :
    singlePassSplit order args input = captureFlows args input >>= fun read =>
      .ok (filesOf read.2 (outputPcapConfig read.1 args)
        (select args.number ((order.arrange (flowsOf read.2).entries).map sizeOfFlow))) := by
  refine (new_readPackets args input pushPacket ∅ _).trans ?_
  congr 1
  funext read
  obtain ⟨reader, items⟩ := read
  show Outcome.ok _ = Outcome.ok _
  congr 1
  have hmap : ∀ flows : List (FlowEntry (List PacketRecord)),
      (largest (fun flow => flow.2.length) args.number flows).map sizeOfFlow =
        largest Sigma.snd args.number (flows.map sizeOfFlow) :=
    fun _ => map_largest fun _ => rfl
  rw [select, ← hmap, List.map_map, filesOf, List.filterMap_map]
  refine List.filterMap_congr fun flow hflow => ?_
  have hmem : flow ∈ (flowsOf items).entries :=
    (order.perm _).mem_iff.1 (largest_subperm.subset hflow)
  obtain ⟨-, hpackets⟩ := (mem_flowsOf items).1 hmem
  show writeFlow _ flow = writeFlow _ ⟨flow.1, packetsOf items flow.1⟩
  rw [hpackets]

/-- The second pass writes the files of the flows that the first pass selects. -/
theorem twoPassSplit_eq (order : IterOrder (FlowEntry ℕ)) (args : Cli) (input : List UInt8) :
    twoPassSplit order args input = captureFlows args input >>= fun read =>
      .ok ((writersOf read.2 (outputPcapConfig read.1 args)
        (select args.number (order.arrange (countsOf read.2).entries))).entries.map
          fun entry => ⟨entry.1.toFilename, entry.2.written⟩) := by
  refine (new_readPackets args input countPacket ∅ _).trans ?_
  -- the capture is read twice, and the second time as the first time
  cases hread : captureFlows args input with
  | ok read =>
    refine (new_readPackets args input (extractPacket _ _) ∅ _).trans ?_
    rw [hread]
    rfl
  | err e => rfl
  | panic => rfl
  | outOfFuel => rfl

section Selected

variable {items : List FlowPacket} {config : OutputPcapConfig} {number : ℕ}
  {sizes : List (FlowEntry ℕ)}

/-- The sizes that the single pass sorts by are those that the first pass counted. -/
theorem sizes_perm (items : List FlowPacket) :
    ((flowsOf items).entries.map sizeOfFlow).Perm (countsOf items).entries := by
  have hkeys : ((flowsOf items).entries.map sizeOfFlow).NodupKeys := by
    rw [List.NodupKeys, List.keys, List.map_map]
    exact (flowsOf items).nodupKeys
  refine List.mem_ext hkeys.nodup (countsOf items).nodupKeys.nodup fun ⟨flowKey, count⟩ => ?_
  rw [List.mem_map, mem_countsOf]
  constructor
  · rintro ⟨⟨flowKey', packets⟩, hmem, heq⟩
    obtain ⟨hne, rfl⟩ := (mem_flowsOf items).1 hmem
    cases heq
    exact ⟨hne, rfl⟩
  · rintro ⟨hne, rfl⟩
    exact ⟨⟨flowKey, packetsOf items flowKey⟩, (mem_flowsOf items).2 ⟨hne, rfl⟩, rfl⟩

/-- A selection names a flow once, and only flows that have packets. -/
theorem select_spec (h : sizes.Perm (countsOf items).entries) :
    (select number sizes).Nodup ∧ ∀ flowKey ∈ select number sizes, packetsOf items flowKey ≠ [] := by
  have hsub : (largest Sigma.snd number sizes).Subperm (countsOf items).entries :=
    largest_subperm.trans h.subperm
  constructor
  · obtain ⟨chosen, hperm, hsublist⟩ := hsub
    have hchosen : (chosen.map Sigma.fst).Nodup :=
      hsublist.map Sigma.fst |>.nodup (countsOf items).nodupKeys
    exact (hperm.map Sigma.fst).nodup_iff.1 hchosen
  · intro flowKey hmem
    obtain ⟨⟨flowKey', count⟩, hcount, rfl⟩ := List.mem_map.1 hmem
    exact ((mem_countsOf items).1 (hsub.subset hcount)).1

/-- A file has the name of its flow. -/
theorem names_filesOf {selected : List SplitFlowId}
    (hpackets : ∀ flowKey ∈ selected, packetsOf items flowKey ≠ []) :
    (filesOf items config selected).map OutputFile.name =
      selected.map SplitFlowId.toFilename := by
  rw [filesOf, List.map_filterMap, ← List.filterMap_eq_map]
  refine List.filterMap_congr fun flowKey hmem => ?_
  rw [fileOf, writeFlow, List.head?_eq_some_head (hpackets flowKey hmem)]
  rfl

/-- **The writers of the second pass write the files of the selected flows.** -/
theorem writersOf_files_perm {selected : List SplitFlowId} (hnodup : selected.Nodup)
    (hpackets : ∀ flowKey ∈ selected, packetsOf items flowKey ≠ []) :
    ((writersOf items config selected).entries.map fun entry =>
      (⟨entry.1.toFilename, entry.2.written⟩ : OutputFile)).Perm (filesOf items config selected) := by
  have hkeys : ((writersOf items config selected).entries.map Sigma.fst).Perm selected := by
    refine (List.perm_ext_iff_of_nodup (writersOf items config selected).nodupKeys hnodup).2
      fun flowKey => ?_
    constructor
    · intro hmem
      obtain ⟨⟨flowKey', w⟩, hw, rfl⟩ := List.mem_map.1 hmem
      exact ((mem_writersOf items config).1 hw).1
    · intro hmem
      exact List.mem_map.2 ⟨⟨flowKey, _⟩,
        (mem_writersOf items config).2 ⟨hmem, hpackets flowKey hmem, rfl⟩, rfl⟩
  refine .trans ?_ (hkeys.filterMap (fileOf items config))
  rw [List.filterMap_map, ← List.filterMap_eq_map]
  refine .of_eq (List.filterMap_congr fun ⟨flowKey, w⟩ hw => ?_)
  obtain ⟨-, hne, rfl⟩ := (mem_writersOf items config).1 hw
  show _ = writeFlow config ⟨flowKey, packetsOf items flowKey⟩
  rw [writeFlow, List.head?_eq_some_head hne]
  rfl

end Selected

/-! ### The modes agree -/

/-- Two runs end alike: both fail alike, or both write, and where no two files of the
one have one name, the other wrote the same files. -/
def EndAlike : Outcome CaptureError (List OutputFile) → Outcome CaptureError (List OutputFile) → Prop
  | .ok files, .ok files' => (files.map OutputFile.name).Nodup → files.Perm files'
  | .err e, .err e' => e = e'
  | .panic, .panic => True
  | _, _ => False

/-- The sizes of the flows of a capture. -/
def flowCounts (args : Cli) (input : List UInt8) : Outcome CaptureError FlowCounts := do
  let reader ← SniffedReader.new input
  let (_, counts) ← readPackets (forFlow args.granularity countPacket) (input.length + 1) reader ∅
  pure counts

/-- The cut separates sizes: there is none, or `number` is the number of the flows of
some size on. -/
def NoTieAtCut (args : Cli) (input : List UInt8) : Prop :=
  ∀ counts, flowCounts args input = .ok counts → CleanCut Sigma.snd args.number counts.entries

/-- Two runs end alike that select the same flows. -/
theorem endAlike_of_select {order₁ : IterOrder (FlowEntry (List PacketRecord))}
    {order₂ : IterOrder (FlowEntry ℕ)} {args : Cli} {input : List UInt8}
    (h : ∀ reader items, captureFlows args input = .ok (reader, items) →
      (select args.number ((order₁.arrange (flowsOf items).entries).map sizeOfFlow)).Perm
        (select args.number (order₂.arrange (countsOf items).entries))) :
    EndAlike (singlePassSplit order₁ args input) (twoPassSplit order₂ args input) := by
  rw [singlePassSplit_eq, twoPassSplit_eq]
  cases hread : captureFlows args input with
  | ok read =>
    intro _
    obtain ⟨hnodup, hpackets⟩ : (select args.number _).Nodup ∧ _ :=
      select_spec (order₂.perm (countsOf read.2).entries)
    exact ((h read.1 read.2 hread).filterMap _).trans (writersOf_files_perm hnodup hpackets).symm
  | err e => rfl
  | panic => trivial
  | outOfFuel => exact absurd hread (captureFlows_ne_outOfFuel args input)

/-- The sizes in the order of the single pass are some order of the counts. -/
theorem sizes_arrange_perm (order : IterOrder (FlowEntry (List PacketRecord)))
    (items : List FlowPacket) :
    ((order.arrange (flowsOf items).entries).map sizeOfFlow).Perm (countsOf items).entries :=
  ((order.perm _).map sizeOfFlow).trans (sizes_perm items)

/-- The flows in the order of the counts are some order of the flows, and have these
sizes. -/
theorem exists_arrange_sizes (order : IterOrder (FlowEntry ℕ)) (items : List FlowPacket) :
    ∃ flows : List (FlowEntry (List PacketRecord)), flows.Perm (flowsOf items).entries ∧
      flows.map sizeOfFlow = order.arrange (countsOf items).entries := by
  let packets (size : FlowEntry ℕ) : FlowEntry (List PacketRecord) := ⟨size.1, packetsOf items size.1⟩
  refine ⟨(order.arrange (countsOf items).entries).map packets, ?_, ?_⟩
  · have hback : ((flowsOf items).entries.map sizeOfFlow).map packets = (flowsOf items).entries := by
      rw [List.map_map]
      refine (List.map_congr_left fun ⟨flowKey, flow⟩ hflow => ?_).trans (List.map_id _)
      obtain ⟨-, rfl⟩ := (mem_flowsOf items).1 hflow
      rfl
    exact ((order.perm _).map packets).trans (hback ▸ (sizes_perm items).symm.map packets)
  · rw [List.map_map]
    refine (List.map_congr_left fun ⟨flowKey, count⟩ hcount => ?_).trans (List.map_id _)
    obtain ⟨-, rfl⟩ := (mem_countsOf items).1 ((order.perm _).mem_iff.1 hcount)
    rfl

/-- **The modes write the same files.**  What a run of one mode does, a run of the other
does that iterates its hash map in some order; and all runs do the same when no flows
of one size lie on both sides of the cut. -/
theorem modes_agree (args : Cli) (input : List UInt8) :
    (∀ order₁, ∃ order₂,
      EndAlike (singlePassSplit order₁ args input) (twoPassSplit order₂ args input)) ∧
    (∀ order₂, ∃ order₁,
      EndAlike (singlePassSplit order₁ args input) (twoPassSplit order₂ args input)) ∧
    (NoTieAtCut args input → ∀ order₁ order₂,
      EndAlike (singlePassSplit order₁ args input) (twoPassSplit order₂ args input)) := by
  refine ⟨fun order₁ => ?_, fun order₂ => ?_, fun hclean order₁ order₂ => ?_⟩
  · cases hread : captureFlows args input with
    | ok read =>
      refine ⟨.ofPerm (sizes_arrange_perm order₁ read.2), endAlike_of_select ?_⟩
      rintro reader items heq
      obtain rfl := Outcome.ok.inj (hread.symm.trans heq)
      rw [IterOrder.arrange_ofPerm]
    | _ => exact ⟨.asListed, endAlike_of_select fun _ _ heq => by rw [hread] at heq; cases heq⟩
  · cases hread : captureFlows args input with
    | ok read =>
      obtain ⟨flows, hperm, hsizes⟩ := exists_arrange_sizes order₂ read.2
      refine ⟨.ofPerm hperm, endAlike_of_select ?_⟩
      rintro reader items heq
      obtain rfl := Outcome.ok.inj (hread.symm.trans heq)
      rw [IterOrder.arrange_ofPerm, hsizes]
    | _ => exact ⟨.asListed, endAlike_of_select fun _ _ heq => by rw [hread] at heq; cases heq⟩
  · refine endAlike_of_select fun reader items hread => ?_
    have hcounts : flowCounts args input = .ok (countsOf items) := by
      refine (new_readPackets args input countPacket ∅ _).trans ?_
      rw [hread]
      rfl
    have hperm := (sizes_arrange_perm order₁ items).trans (order₂.perm (countsOf items).entries).symm
    exact (largest_perm ((hclean _ hcounts).perm (sizes_arrange_perm order₁ items).symm)
      hperm).map Sigma.fst

/-- A bare IPv4 header from `10.0.0.1` to `10.0.0.host`. -/
def hostPacket (host : UInt8) : PacketRecord :=
  ⟨I64.ofInt 0, 20, [0x45, 0, 0, 20, 0, 0, 0, 0, 64, 89, 0, 0, 10, 0, 0, 1, 10, 0, 0, host], .ipv4⟩

/-- The flow of `hostPacket`. -/
def hostFlow (host : ℕ) : SplitFlowId :=
  .symmetric (.tuple5 (.v4 0x0A000001) (.v4 (.ofNat 32 (0x0A000000 + host))) 0 0 (.other 89))

/-- Two flows of one packet each. -/
def tiedCapture : List UInt8 :=
  (PcapWriter.writeAll false false 65535 .ipv4 [hostPacket 2, hostPacket 3]).written

/-- The larger of two flows of one packet each is the one that the hash map hands out
first, and the other mode may write the other one. -/
theorem not_endAlike_of_tie {args : Cli} {input : List UInt8} {reader : SniffedReader}
    {items : List FlowPacket} {flow flow' : SplitFlowId} (hnumber : args.number = 1)
    (hread : captureFlows args input = .ok (reader, items))
    (hflows : (flowsOf items).entries.map sizeOfFlow = [⟨flow, 1⟩, ⟨flow', 1⟩])
    (hcounts : (countsOf items).entries = [⟨flow, 1⟩, ⟨flow', 1⟩])
    (hname : flow.toFilename ≠ flow'.toFilename) :
    ¬EndAlike (singlePassSplit .asListed args input) (twoPassSplit .reversed args input) := by
  intro halike
  have hselect : ∀ flow flow' : SplitFlowId, select 1 [⟨flow, 1⟩, ⟨flow', 1⟩] = [flow] := by
    intro flow flow'
    rw [select, largest_of_ties (n := 1) (by simp) Nat.one_pos]
    rfl
  have hpackets : ∀ flowKey ∈ [flow, flow'], packetsOf items flowKey ≠ [] := by
    intro flowKey hmem
    have hcount : ⟨flowKey, 1⟩ ∈ (countsOf items).entries := by
      rw [hcounts]
      simpa using hmem
    exact ((mem_countsOf items).1 hcount).1
  rw [singlePassSplit_eq, twoPassSplit_eq, hread, Outcome.ok_bind, Outcome.ok_bind, hnumber] at halike
  simp only [IterOrder.asListed, IterOrder.reversed, id, hflows, hcounts, List.reverse_cons,
    List.reverse_nil, List.nil_append, List.cons_append, hselect] at halike
  have hsingle := @names_filesOf items (outputPcapConfig reader args) [flow]
    fun flowKey hmem => hpackets flowKey (List.mem_cons.2 (.inl (List.mem_singleton.1 hmem)))
  have htwo := @writersOf_files_perm items (outputPcapConfig reader args) [flow']
    (List.nodup_singleton flow') fun flowKey hmem => hpackets flowKey (List.mem_cons_of_mem _ hmem)
  have hnames := ((halike (by rw [hsingle]; exact List.nodup_singleton _)).trans htwo).map
    OutputFile.name
  rw [hsingle, names_filesOf fun flowKey hmem => hpackets flowKey (List.mem_cons_of_mem _ hmem)]
    at hnames
  exact hname (by simpa using hnames)

/-- **At a tie the modes may differ.** -/
theorem modes_differ_at_tie :
    ∃ (args : Cli) (input : List UInt8) (order₁ : IterOrder (FlowEntry (List PacketRecord)))
      (order₂ : IterOrder (FlowEntry ℕ)),
      ¬EndAlike (singlePassSplit order₁ args input) (twoPassSplit order₂ args input) := by
  have hread : (captureFlows { number := 1 } tiedCapture).toOption.map Prod.snd =
      some [(hostFlow 2, hostPacket 2), (hostFlow 3, hostPacket 3)] := by decide +kernel
  obtain ⟨⟨reader, items⟩, hread, hitems⟩ := Option.map_eq_some_iff.1 hread
  have hitems : items = [(hostFlow 2, hostPacket 2), (hostFlow 3, hostPacket 3)] := hitems
  have hflows : (flowsOf items).entries.map sizeOfFlow =
      [⟨hostFlow 3, 1⟩, ⟨hostFlow 2, 1⟩] := by
    rw [hitems]
    decide +kernel
  have hcounts : (countsOf items).entries = [⟨hostFlow 3, 1⟩, ⟨hostFlow 2, 1⟩] := by
    rw [hitems]
    decide +kernel
  have hname : (hostFlow 3).toFilename ≠ (hostFlow 2).toFilename := by decide +kernel
  exact ⟨_, _, _, _,
    not_endAlike_of_tie rfl (Outcome.toOption_eq_some.1 hread) hflows hcounts hname⟩

/-- Two packets of one flow, and one of another.  It is evaluated in one place only. -/
@[irreducible] def unevenCapture : List UInt8 :=
  (PcapWriter.writeAll false false 65535 .ipv4 [hostPacket 2, hostPacket 3, hostPacket 2]).written

/-- The cut behind the larger flow is clean. -/
theorem noTieAtCut_uneven : NoTieAtCut { number := 1 } unevenCapture := by
  intro counts hcounts
  have hread : (flowCounts { number := 1 } unevenCapture).toOption.map AList.entries =
      some [⟨hostFlow 2, 2⟩, ⟨hostFlow 3, 1⟩] := by decide +kernel
  obtain ⟨counts', hread, hentries⟩ := Option.map_eq_some_iff.1 hread
  obtain rfl := Outcome.ok.inj (hcounts.symm.trans (Outcome.toOption_eq_some.1 hread))
  rw [hentries]
  exact .inr (.inr ⟨2, rfl⟩)

/-- So the modes write the larger flow in either order of the hash map. -/
theorem modes_agree_uneven :
    EndAlike (singlePassSplit .asListed { number := 1 } unevenCapture)
      (twoPassSplit .reversed { number := 1 } unevenCapture) :=
  (modes_agree { number := 1 } unevenCapture).2.2 noTieAtCut_uneven .asListed .reversed

end Splitcap
end Maja
