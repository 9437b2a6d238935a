/-
# What the statistics of a capture say

After any run of the loop of `analyze` the statistics are those of what was seen,
computed in one go (`analyze_totals`): counts and sums, the first and the last time,
whether the times are in order, and under each address and port the traffic of its
packets.  The flows and the interval statistics are of the same packets, so the
report and its intervals add up to one another (`intervals_add_up`).
-/

import Maja.Capinfo.Summary
import Mathlib.Data.List.Induction
import Mathlib.Data.UInt

namespace Maja
namespace Capinfo

open Lib Net Capture

/-! ### Folds -/

section Extremes

variable {α : Type} [LinearOrder α]

/-- The least of one more. -/
theorem min?_concat (as : List α) (a : α) :
    (as ++ [a]).min? = some (as.min?.elim a (min · a)) := by
  cases as with
  | nil => rfl
  | cons b as => rw [List.cons_append, List.min?_cons', List.foldl_concat, List.min?_cons']; rfl

/-- The greatest element when one more comes behind. -/
theorem max?_concat (as : List α) (a : α) :
    (as ++ [a]).max? = some (as.max?.elim a (max · a)) := by
  cases as with
  | nil => rfl
  | cons b as => rw [List.cons_append, List.max?_cons', List.foldl_concat, List.max?_cons']; rfl

/-- One more is in order when it is not less than the greatest. -/
theorem pairwise_concat_iff (as : List α) (a : α) : (as ++ [a]).Pairwise (· ≤ ·) ↔
    as.Pairwise (· ≤ ·) ∧ ¬as.max?.any (a < ·) := by
  rw [List.pairwise_append]
  refine and_congr_right fun _ => ?_
  cases hmax : as.max? with
  | none =>
    obtain rfl := List.max?_eq_none_iff.1 hmax
    simp
  | some m =>
    obtain ⟨hmem, hle⟩ := List.max?_eq_some_iff.1 hmax
    simp only [Option.any_some, decide_eq_true_eq, not_lt, List.mem_singleton, forall_eq,
      List.pairwise_singleton, true_and]
    exact ⟨fun h => h m hmem, fun h b hb => (hle b hb).trans h⟩

end Extremes

/-- A set whose elements are all in the sets of a list is no larger than all of them. -/
theorem card_le_sum_card {α β : Type} [DecidableEq β] {f : α → Finset β} {as : List α}
    {set : Finset β} (h : ∀ b ∈ set, ∃ a ∈ as, b ∈ f a) :
    set.card ≤ (as.map fun a => (f a).card).sum := by
  induction as generalizing set with
  | nil =>
    obtain rfl : set = ∅ := Finset.eq_empty_of_forall_notMem fun b hb =>
      absurd (h b hb).choose_spec.1 List.not_mem_nil
    rfl
  | cons a as ih =>
    have hrest : (set \ f a).card ≤ (as.map fun a => (f a).card).sum := by
      refine ih fun b hb => ?_
      obtain ⟨hset, hout⟩ := Finset.mem_sdiff.1 hb
      obtain ⟨a', ha', hba'⟩ := h b hset
      obtain rfl | ha' := List.mem_cons.1 ha'
      · exact absurd hba' hout
      · exact ⟨a', ha', hba'⟩
    rw [List.map_cons, List.sum_cons]
    have := Finset.card_le_card_sdiff_add_card (s := set) (t := f a)
    omega

variable {F : Type}

/-! ### Packets -/

/-- The statistics of packets that `update_with_packet` keeps. -/
structure PacketTotals (packets : List (I64 × UInt32)) (stats : Stats F) : Prop where
  totalPackets : stats.totalPackets = packets.length
  totalL2Bytes : stats.totalL2Bytes = .ofNat (packets.map fun p => p.2.toNat).sum
  firstTimestamp : stats.firstTimestamp = (packets.map Prod.fst).min?
  lastTimestamp : stats.lastTimestamp = (packets.map Prod.fst).max?
  isOrdered : stats.isOrdered = true ↔ (packets.map Prod.fst).Pairwise (· ≤ ·)

namespace PacketTotals

/-- Before the first packet the totals are those of no packet. -/
theorem default [Arithmetic F] : PacketTotals [] (Stats.default : Stats F) :=
  ⟨rfl, rfl, rfl, rfl, iff_of_true rfl .nil⟩

/-- `update_with_packet` keeps the totals, with the packet behind the others. -/
theorem updateWithPacket {packets : List (I64 × UInt32)} {stats : Stats F}
    (h : PacketTotals packets stats) (timestamp : I64) (length : UInt32) :
    PacketTotals (packets ++ [(timestamp, length)]) (stats.updateWithPacket timestamp length) := by
  refine ⟨?_, ?_, ?_, ?_, ?_⟩
  · rw [List.length_append, List.length_singleton, ← h.totalPackets]
    rfl
  · rw [List.map_append, List.sum_append, List.map_singleton, List.sum_singleton,
      UInt64.ofNat_add, UInt64.ofNat_uInt32ToNat, ← h.totalL2Bytes]
    rfl
  · rw [List.map_append, List.map_singleton, min?_concat, ← h.firstTimestamp]
    rfl
  · rw [List.map_append, List.map_singleton, max?_concat, ← h.lastTimestamp]
    rfl
  · rw [List.map_append, List.map_singleton, pairwise_concat_iff, ← h.lastTimestamp, ← h.isOrdered]
    show (if stats.lastTimestamp.any (timestamp < ·) then false else stats.isOrdered) = true ↔ _
    split_ifs with hbackwards <;> simp [hbackwards]

/-- The statistics of packets are in five fields. -/
theorem congr {packets : List (I64 × UInt32)} {stats stats' : Stats F}
    (h : PacketTotals packets stats) (hsame : stats'.totalPackets = stats.totalPackets ∧
      stats'.totalL2Bytes = stats.totalL2Bytes ∧ stats'.firstTimestamp = stats.firstTimestamp ∧
      stats'.lastTimestamp = stats.lastTimestamp ∧ stats'.isOrdered = stats.isOrdered) :
    PacketTotals packets stats' := by
  obtain ⟨htotal, hl2, hfirst, hlast, hordered⟩ := hsame
  exact ⟨htotal.trans h.totalPackets, hl2.trans h.totalL2Bytes, hfirst.trans h.firstTimestamp,
    hlast.trans h.lastTimestamp, hordered ▸ h.isOrdered⟩

end PacketTotals

/-! ### Metadata -/

/-- The traffic of some packets: none, if there are no packets. -/
def trafficOf : List PacketMetadata → Option RunningTrafficStats
  | [] => none
  | metadata => some
      ⟨metadata.length, .ofNat (metadata.map fun m => m.length.toNat).sum⟩

/-- One more packet updates the traffic of the others. -/
theorem trafficOf_concat (metadata : List PacketMetadata) (m : PacketMetadata) :
    trafficOf (metadata ++ [m]) =
      some (((trafficOf metadata).getD {}).update m.length) := by
  have hsum : UInt64.ofNat ((metadata ++ [m]).map fun m => m.length.toNat).sum =
      .ofNat (metadata.map fun m => m.length.toNat).sum + m.length.toUInt64 := by
    rw [List.map_append, List.sum_append, List.map_singleton, List.sum_singleton,
      UInt64.ofNat_add, UInt64.ofNat_uInt32ToNat]
  have hsome : trafficOf (metadata ++ [m]) = some ⟨(metadata ++ [m]).length,
      .ofNat ((metadata ++ [m]).map fun m => m.length.toNat).sum⟩ := by
    cases metadata <;> rfl
  rw [hsome, hsum, List.length_append, List.length_singleton]
  cases metadata <;> rfl

/-- A map with the traffic of the packets of each key. -/
def TrafficBy {κ : Type} [DecidableEq κ] (key : PacketMetadata → Option κ)
    (metadata : List PacketMetadata) (traffic : Traffic κ) : Prop :=
  ∀ k, traffic.lookup k = trafficOf (metadata.filter fun m => key m = some k)

section Traffic

variable {κ : Type} [DecidableEq κ] {key : PacketMetadata → Option κ}
  {metadata : List PacketMetadata} {traffic : Traffic κ}

/-- The empty table is that of no packet. -/
theorem TrafficBy.empty : TrafficBy key [] (∅ : Traffic κ) := fun _ => AList.lookup_empty ..

/-- A packet changes the traffic of its key. -/
theorem TrafficBy.update (h : TrafficBy key metadata traffic) (m : PacketMetadata) :
    TrafficBy key (metadata ++ [m]) ((key m).elim traffic (traffic.update · m.length)) := by
  intro k
  rw [List.filter_append]
  cases hkey : key m with
  | none => simpa [hkey] using h k
  | some k' =>
    rw [Option.elim_some, Traffic.update, Table.upsert]
    by_cases hk : k = k'
    · subst hk
      have hfilter : ([m].filter fun m => key m = some k) = [m] := by simp [hkey]
      rw [AList.lookup_insert, hfilter, trafficOf_concat, h k]
    · have hfilter : ([m].filter fun m => key m = some k) = [] := by
        simp [hkey, Ne.symm hk]
      rw [AList.lookup_insert_ne hk, hfilter, List.append_nil, h k]

end Traffic

section Metadata

variable [Arithmetic F]

/-- The statistics of packets that `update_with_metadata` keeps. -/
structure MetadataTotals (metadata : List PacketMetadata) (stats : Stats F) : Prop where
  lengths : stats.lengths = .updateAll (metadata.map PacketMetadata.length)
  tcpCount : stats.tcpCount = metadata.countP fun m => m.ipProto = some 6
  udpCount : stats.udpCount = metadata.countP fun m => m.ipProto = some 17
  flowSet : ∀ flow, flow ∈ stats.flowSet ↔ ∃ m ∈ metadata, flowId m = some flow
  srcIpTraffic : TrafficBy PacketMetadata.srcIp metadata stats.srcIpTraffic
  dstIpTraffic : TrafficBy PacketMetadata.dstIp metadata stats.dstIpTraffic
  srcPortTraffic : TrafficBy (fun m => some (m.srcPort.getD 0)) metadata stats.srcPortTraffic
  dstPortTraffic : TrafficBy (fun m => some (m.dstPort.getD 0)) metadata stats.dstPortTraffic

namespace MetadataTotals

/-- Before the first packet the totals over metadata are those of no packet. -/
theorem default : MetadataTotals [] (Stats.default : Stats F) where
  lengths := rfl
  tcpCount := rfl
  udpCount := rfl
  flowSet _ := iff_of_false (Finset.notMem_empty _) fun ⟨_, h, _⟩ => absurd h List.not_mem_nil
  srcIpTraffic := .empty
  dstIpTraffic := .empty
  srcPortTraffic := .empty
  dstPortTraffic := .empty

/-- `update_with_metadata` keeps the totals, with the packet behind the others. -/
theorem updateWithMetadata {metadata : List PacketMetadata} {stats : Stats F}
    (h : MetadataTotals metadata stats) (m : PacketMetadata) :
    MetadataTotals (metadata ++ [m]) (stats.updateWithMetadata m) where
  lengths := by
    rw [List.map_append, List.map_singleton, RunningLengthStats.updateAll, List.foldl_concat]
    exact congrArg (RunningLengthStats.update · m.length) h.lengths
  tcpCount := by
    rw [List.countP_append, ← h.tcpCount]
    by_cases hproto : m.ipProto = some 6 <;> simp [Stats.updateWithMetadata, hproto]
  udpCount := by
    rw [List.countP_append, ← h.udpCount]
    by_cases hproto : m.ipProto = some 17 <;> simp [Stats.updateWithMetadata, hproto]
  flowSet flow := by
    show flow ∈ (flowId m).elim stats.flowSet (insert · stats.flowSet) ↔ _
    cases hflow : flowId m with
    | none => simp [h.flowSet flow, hflow]
    | some flow' =>
      rw [Option.elim_some, Finset.mem_insert, h.flowSet flow]
      simp [hflow, or_comm, eq_comm, or_and_right, exists_or]
  srcIpTraffic := h.srcIpTraffic.update m
  dstIpTraffic := h.dstIpTraffic.update m
  srcPortTraffic := h.srcPortTraffic.update m
  dstPortTraffic := h.dstPortTraffic.update m

/-- What comes of the metadata is in the other fields. -/
theorem congr {metadata : List PacketMetadata} {stats stats' : Stats F}
    (h : MetadataTotals metadata stats) (hsame : stats = { stats' with
      totalPackets := stats.totalPackets
      totalL2Bytes := stats.totalL2Bytes
      totalL3Bytes := stats.totalL3Bytes
      emptyPackets := stats.emptyPackets
      errors := stats.errors
      firstTimestamp := stats.firstTimestamp
      lastTimestamp := stats.lastTimestamp
      isOrdered := stats.isOrdered }) : MetadataTotals metadata stats' := by
  rw [hsame] at h
  exact ⟨h.lengths, h.tcpCount, h.udpCount, h.flowSet, h.srcIpTraffic, h.dstIpTraffic,
    h.srcPortTraffic, h.dstPortTraffic⟩

end MetadataTotals

end Metadata

/-! ### A run -/

section Run

variable [Arithmetic F]

/-- The statistics of what was seen. -/
structure Totals (seen : List Seen) (stats : Stats F) : Prop where
  packets : PacketTotals (seen.filterMap Seen.packet?) stats
  metadata : MetadataTotals (seen.filterMap Seen.metadata?) stats
  totalL3Bytes : stats.totalL3Bytes = (seen.map Seen.l3Bytes).sum
  emptyPackets : stats.emptyPackets = seen.countP Seen.isEmpty
  errors : stats.errors = seen.countP Seen.isFailed

/-- Before the first turn every total is that of nothing seen. -/
theorem Totals.default : Totals [] (Stats.default : Stats F) :=
  ⟨.default, .default, rfl, rfl, rfl⟩

/-- What a turn adds to the counters. -/
theorem note_counters (a : Analysis F) (s : Seen) :
    (a.note s).stats.totalL3Bytes = a.stats.totalL3Bytes + s.l3Bytes ∧
    (a.note s).stats.emptyPackets = a.stats.emptyPackets + (if s.isEmpty then 1 else 0) ∧
    (a.note s).stats.errors = a.stats.errors + (if s.isFailed then 1 else 0) := by
  cases s with
  | parsed => exact ⟨rfl, rfl, rfl⟩
  | _ => exact ⟨(add_zero _).symm, rfl, rfl⟩

/-- A turn of the loop keeps the totals over the packets that were seen. -/
theorem PacketTotals.note {seen : List Seen} {a : Analysis F}
    (h : PacketTotals (seen.filterMap Seen.packet?) a.stats) (s : Seen) :
    PacketTotals ((seen ++ [s]).filterMap Seen.packet?) (a.note s).stats := by
  rw [List.filterMap_append]
  cases s with
  | failed =>
    show PacketTotals (_ ++ []) _
    rw [List.append_nil]
    exact h.congr ⟨rfl, rfl, rfl, rfl, rfl⟩
  | empty timestamp length =>
    exact (h.updateWithPacket timestamp length).congr ⟨rfl, rfl, rfl, rfl, rfl⟩
  | unparsed timestamp length => exact h.updateWithPacket timestamp length
  | parsed metadata bytes =>
    exact (h.updateWithPacket metadata.timestamp metadata.length).congr ⟨rfl, rfl, rfl, rfl, rfl⟩

/-- A turn of the loop keeps the totals over the metadata that was seen. -/
theorem MetadataTotals.note {seen : List Seen} {a : Analysis F}
    (h : MetadataTotals (seen.filterMap Seen.metadata?) a.stats) (s : Seen) :
    MetadataTotals ((seen ++ [s]).filterMap Seen.metadata?) (a.note s).stats := by
  rw [List.filterMap_append]
  cases s with
  | parsed metadata bytes =>
    have hframe : MetadataTotals (seen.filterMap Seen.metadata?)
        ((a.updateWithPacket metadata.timestamp metadata.length).addL3Bytes bytes).stats :=
      h.congr rfl
    exact hframe.updateWithMetadata metadata
  | _ =>
    show MetadataTotals (_ ++ []) _
    rw [List.append_nil]
    exact h.congr rfl

/-- A turn of the loop keeps every total on what was seen, with what it saw itself. -/
theorem Totals.note {seen : List Seen} {a : Analysis F} (h : Totals seen a.stats) (s : Seen) :
    Totals (seen ++ [s]) (a.note s).stats := by
  obtain ⟨hl3, hempty, herrors⟩ := note_counters a s
  refine ⟨h.packets.note s, h.metadata.note s, ?_, ?_, ?_⟩
  · rw [hl3, List.map_append, List.sum_append, ← h.totalL3Bytes, List.map_singleton,
      List.sum_singleton]
  · rw [hempty, List.countP_append, ← h.emptyPackets, List.countP_singleton]
  · rw [herrors, List.countP_append, ← h.errors, List.countP_singleton]

/-- **The statistics of a run are those of what was seen.**  The induction is on what
was seen, from the last turn back. -/
theorem noteAll_totals (width : Option IntervalWidth) (seen : List Seen) :
    Totals seen (Analysis.noteAll width seen : Analysis F).stats := by
  induction seen using List.reverseRecOn with
  | nil => exact .default
  | append_singleton seen s ih =>
    rw [Analysis.noteAll, List.foldl_concat]
    exact ih.note s

/-! ### The intervals -/

/-- What the interval statistics are told. -/
def Seen.observed? : Seen → Option Observed
  | failed => none
  | empty timestamp length => some ⟨timestamp, length, none⟩
  | unparsed timestamp length => some ⟨timestamp, length, none⟩
  | parsed metadata _ => some ⟨metadata.timestamp, metadata.length, some metadata⟩

/-- The interval statistics of a run are those of the same packets. -/
theorem noteAll_intervals (width : Option IntervalWidth) (seen : List Seen) :
    (Analysis.noteAll width seen : Analysis F).intervalStats =
      width.map fun width => IntervalStats.run width (seen.filterMap Seen.observed?) := by
  induction seen using List.reverseRecOn with
  | nil => cases width <;> rfl
  | append_singleton seen s ih =>
    rw [Analysis.noteAll, List.foldl_concat, List.filterMap_append]
    have hnote : ∀ a : Analysis F, (a.note s).intervalStats = a.intervalStats.map fun stats =>
        ([s].filterMap Seen.observed?).foldl IntervalStats.observe stats := by
      intro a
      cases a with
      | mk stats intervalStats => cases s <;> cases intervalStats <;> rfl
    rw [hnote, ← Analysis.noteAll, ih, Option.map_map]
    refine congrArg (fun f => width.map f) (funext fun width => ?_)
    rw [IntervalStats.run, List.foldl_append]
    rfl

/-- What a packet adds to the sets of its bucket. -/
theorem change_sets (packet : Observed) (bucket : IntervalBucket) :
    (∀ ip, ip ∈ (packet.change bucket).srcIps ↔
      ip ∈ bucket.srcIps ∨ ∃ m, packet.metadata = some m ∧ m.srcIp = some ip) ∧
    (∀ ip, ip ∈ (packet.change bucket).dstIps ↔
      ip ∈ bucket.dstIps ∨ ∃ m, packet.metadata = some m ∧ m.dstIp = some ip) ∧
    (∀ flow, flow ∈ (packet.change bucket).flows ↔
      flow ∈ bucket.flows ∨ ∃ m, packet.metadata = some m ∧ flowId m = some flow) := by
  have hinsert : ∀ {α : Type} [DecidableEq α] (o : Option α) (set : Finset α) (a : α),
      a ∈ o.elim set (insert · set) ↔ a ∈ set ∨ o = some a := by
    intro α _ o set a
    cases o with
    | none => simp
    | some b => rw [Option.elim_some, Finset.mem_insert, or_comm, Option.some_inj, eq_comm]
  unfold Observed.change
  cases packet.metadata with
  | none => simp [IntervalBucket.count]
  | some m =>
    simp only [Option.some.injEq, exists_eq_left']
    exact ⟨hinsert m.srcIp _, hinsert m.dstIp _, hinsert (flowId m) _⟩

/-- What some bucket has is what some packet brings in. -/
theorem exists_bucket_iff (width : IntervalWidth) (packets : List Observed)
    {P : IntervalBucket → Prop} {Q : Observed → Prop} (hinit : ¬P {})
    (hstep : ∀ packet bucket, P (packet.change bucket) ↔ P bucket ∨ Q packet) :
    (∃ e ∈ (IntervalStats.run width packets).buckets.entries, P e.2) ↔
      ∃ packet ∈ packets, Q packet := by
  rw [run_buckets]
  exact OrderedMap.exists_upsertAll_empty _ _ _ hinit hstep packets

/-- The metadata in the intervals is that in the statistics. -/
theorem exists_observed_iff {seen : List Seen} {P : PacketMetadata → Prop} :
    (∃ packet ∈ seen.filterMap Seen.observed?, ∃ m, packet.metadata = some m ∧ P m) ↔
      ∃ m ∈ seen.filterMap Seen.metadata?, P m := by
  simp only [List.mem_filterMap]
  constructor
  · rintro ⟨packet, ⟨s, hs, hobserved⟩, m, hm, hP⟩
    cases s with
    | failed => cases hobserved
    | empty | unparsed =>
      obtain rfl := Option.some.inj hobserved
      cases hm
    | parsed metadata bytes =>
      obtain rfl := Option.some.inj hobserved
      obtain rfl := Option.some.inj hm
      exact ⟨metadata, ⟨_, hs, rfl⟩, hP⟩
  · rintro ⟨m, ⟨s, hs, hmetadata⟩, hP⟩
    cases s with
    | parsed metadata bytes =>
      obtain rfl := Option.some.inj hmetadata
      exact ⟨_, ⟨_, hs, rfl⟩, _, rfl, hP⟩
    | _ => cases hmetadata

/-- The packets in the intervals are those in the statistics. -/
theorem map_observed (seen : List Seen) :
    (seen.filterMap Seen.observed?).map (fun packet => (packet.timestamp, packet.length)) =
      seen.filterMap Seen.packet? := by
  rw [List.map_filterMap]
  refine List.filterMap_congr fun s _ => ?_
  cases s <;> rfl

/-- There is traffic of a key when a packet has it. -/
theorem TrafficBy.isSome_iff {κ : Type} [DecidableEq κ] {key : PacketMetadata → Option κ}
    {metadata : List PacketMetadata} {traffic : Traffic κ} (h : TrafficBy key metadata traffic)
    (k : κ) : (traffic.lookup k).isSome ↔ ∃ m ∈ metadata, key m = some k := by
  rw [h k]
  cases hfilter : metadata.filter fun m => key m = some k with
  | nil =>
    rw [List.filter_eq_nil_iff] at hfilter
    simpa [trafficOf] using hfilter
  | cons m rest =>
    obtain ⟨hm, hkey⟩ := List.mem_filter.1 (hfilter ▸ List.mem_cons_self :
      m ∈ metadata.filter fun m => key m = some k)
    exact iff_of_true rfl ⟨m, hm, of_decide_eq_true hkey⟩

/-- **The intervals add up to the report.**  For every width, whatever was seen and in
whatever order of times: the packets and the bytes of all intervals are those of the
report, and the report knows a flow or an address when some interval does, so that it
has no fewer flows than an interval and no more than all of them. -/
theorem intervals_add_up (F : Type) [Arithmetic F] (width : IntervalWidth) (seen : List Seen) :
    let a : Analysis F := .noteAll (some width) seen
    ∃ intervals, a.intervalStats = some intervals ∧
      (intervals.snapshots.map IntervalSnapshot.totalPackets).sum = .ofNat a.stats.totalPackets ∧
      (intervals.snapshots.map IntervalSnapshot.totalL2Bytes).sum = a.stats.totalL2Bytes ∧
      (∀ flow, flow ∈ a.stats.flowSet ↔ ∃ e ∈ intervals.buckets.entries, flow ∈ e.2.flows) ∧
      (∀ ip, (a.stats.srcIpTraffic.lookup ip).isSome ↔
        ∃ e ∈ intervals.buckets.entries, ip ∈ e.2.srcIps) ∧
      (∀ ip, (a.stats.dstIpTraffic.lookup ip).isSome ↔
        ∃ e ∈ intervals.buckets.entries, ip ∈ e.2.dstIps) ∧
      (∀ snapshot ∈ intervals.snapshots, snapshot.uniqueFlows ≤ a.stats.flowSet.card) ∧
      a.stats.flowSet.card ≤ (intervals.snapshots.map IntervalSnapshot.uniqueFlows).sum := by
  intro a
  have htotals : Totals seen a.stats := noteAll_totals (some width) seen
  have hintervals := noteAll_intervals (F := F) (some width) seen
  rw [Option.map_some] at hintervals
  set packets := seen.filterMap Seen.observed? with hpackets
  have hrun := run_buckets width packets
  have hlength : packets.length = (seen.filterMap Seen.packet?).length := by
    rw [← map_observed, List.length_map]
  have hbytes : totalBytes packets = ((seen.filterMap Seen.packet?).map fun p => p.2.toNat).sum := by
    rw [← map_observed, List.map_map]
    rfl
  have hflows : ∀ flow, flow ∈ a.stats.flowSet ↔
      ∃ e ∈ (IntervalStats.run width packets).buckets.entries, flow ∈ e.2.flows := by
    intro flow
    rw [htotals.metadata.flowSet, ← exists_observed_iff]
    exact (exists_bucket_iff width packets (P := (flow ∈ ·.flows)) (Finset.notMem_empty flow)
      fun p b => (change_sets p b).2.2 flow).symm
  have hsnapshots : (IntervalStats.run width packets).snapshots =
      (IntervalStats.run width packets).buckets.entries.map fun e =>
        IntervalStats.snapshot width e.1 e.2 := by
    rw [IntervalStats.snapshots, hrun]
  refine ⟨_, hintervals, ?_, ?_, hflows, fun ip => ?_, fun ip => ?_, fun snapshot hmem => ?_, ?_⟩
  · rw [hsnapshots, List.map_map, hrun, htotals.packets.totalPackets, ← hlength, ← sum_one_eq]
    exact OrderedMap.sumOf_upsertAll_empty _ _ _ (g := IntervalBucket.totalPackets) rfl
      (fun packet bucket => (change_totals packet bucket).1) packets
  · rw [hsnapshots, List.map_map, hrun, htotals.packets.totalL2Bytes, ← hbytes, ← sum_length_eq]
    exact OrderedMap.sumOf_upsertAll_empty _ _ _ (g := IntervalBucket.totalL2Bytes) rfl
      (fun packet bucket => (change_totals packet bucket).2) packets
  · rw [htotals.metadata.srcIpTraffic.isSome_iff, ← exists_observed_iff]
    exact (exists_bucket_iff width packets (P := (ip ∈ ·.srcIps)) (Finset.notMem_empty ip)
      fun p b => (change_sets p b).1 ip).symm
  · rw [htotals.metadata.dstIpTraffic.isSome_iff, ← exists_observed_iff]
    exact (exists_bucket_iff width packets (P := (ip ∈ ·.dstIps)) (Finset.notMem_empty ip)
      fun p b => (change_sets p b).2.1 ip).symm
  · rw [hsnapshots] at hmem
    obtain ⟨e, he, rfl⟩ := List.mem_map.1 hmem
    exact Finset.card_le_card fun flow hflow => (hflows flow).2 ⟨e, he, hflow⟩
  · rw [hsnapshots, List.map_map]
    exact card_le_sum_card fun flow hflow => (hflows flow).1 hflow

/-- **The report of a capture.**  A reader that never panics is read to its end, past
every error; no packet makes the loop panic; and the statistics, those of the
intervals too, are those of what was seen. -/
theorem analyze_totals (F : Type) [Arithmetic F] (width : Option IntervalWidth)
    {data : List UInt8} {reader : SniffedReader} (hopen : SniffedReader.new data = .ok reader)
    (hpanic : ∀ r, Reaches SniffedReader.nextPacket reader r → r.nextPacket ≠ .panic) :
    ∃ results seen, ∃ a : Analysis F, Drains SniffedReader.nextPacket reader results ∧
      List.Forall₂ Sees results seen ∧ analyze width data = .ok a ∧ Totals seen a.stats ∧
      a.intervalStats =
        width.map fun width => IntervalStats.run width (seen.filterMap Seen.observed?) := by
  obtain ⟨results, hdrains, hlength⟩ := SniffedReader.exists_drains hopen hpanic
  obtain ⟨seen, hsees, hloop⟩ := Analysis.notes_of_drains (F := F) hdrains
  refine ⟨results, seen, _, hdrains, hsees, ?_, noteAll_totals width seen,
    noteAll_intervals width seen⟩
  rw [analyze, hopen, Outcome.ok_bind, hloop _ _ (Nat.lt_succ_of_le hlength)]
  rfl

/-- A capture of a TCP packet, with a record behind it that ends inside its data. -/
def tornFile : List UInt8 :=
  [0xA1, 0xB2, 0xC3, 0xD4, 0, 2, 0, 4, 0, 0, 0, 0, 0, 0, 0, 0, 0, 0, 0xFF, 0xFF, 0, 0, 0, 228] ++
    ([0, 0, 0, 1, 0, 0, 0, 0, 0, 0, 0, 40, 0, 0, 0, 40] ++ plainPacket.bytes) ++
    [0, 0, 0, 2, 0, 0, 0, 0, 0, 0, 0, 5, 0, 0, 0, 5, 9]

/-- Its reader, with what it has still to read. -/
def tornReader (source : List UInt8) : SniffedReader :=
  .pcap ⟨⟨0xA1B2C3D4, 2, 4, 0, 0, 0xFFFF, 228⟩, true, false, source⟩

/-- The reader hands out the packet, fails at the torn record and then ends. -/
theorem tornReader_returns (r : SniffedReader)
    (h : Reaches SniffedReader.nextPacket (tornReader (tornFile.drop 24)) r) :
    r.nextPacket ≠ .panic := by
  have hpacket : (tornReader (tornFile.drop 24)).nextPacket =
    .ok (some ⟨I64.ofInt 1000000000, 40, plainPacket.bytes, .ipv4⟩,
      tornReader (tornFile.drop 80)) := rfl
  have herror : (tornReader (tornFile.drop 80)).nextPacket = .err (.io, tornReader []) := rfl
  have hend : (tornReader []).nextPacket = .ok (none, tornReader []) := rfl
  have hstates : r ∈ [tornReader (tornFile.drop 24), tornReader (tornFile.drop 80),
      tornReader []] := by
    refine h.invariant (· ∈ [tornReader (tornFile.drop 24), tornReader (tornFile.drop 80),
      tornReader []]) ?_ List.mem_cons_self
    simp only [List.mem_cons, List.not_mem_nil, or_false]
    rintro s s' (rfl | rfl | rfl) (⟨a, hcall⟩ | ⟨e, hcall⟩)
    · cases hpacket.symm.trans hcall
      exact .inr (.inl rfl)
    · cases hpacket.symm.trans hcall
    · cases herror.symm.trans hcall
    · cases herror.symm.trans hcall
      exact .inr (.inr rfl)
    · cases hend.symm.trans hcall
      exact .inr (.inr rfl)
    · cases hend.symm.trans hcall
  simp only [List.mem_cons, List.not_mem_nil, or_false] at hstates
  obtain rfl | rfl | rfl := hstates
  · simp [hpacket]
  · simp [herror]
  · simp [hend]

/-- The report of that capture: one packet, one error, and an interval of a second. -/
theorem analyze_totals_torn : ∃ results seen, ∃ a : Analysis ℚ,
    Drains SniffedReader.nextPacket (tornReader (tornFile.drop 24)) results ∧
      List.Forall₂ Sees results seen ∧ analyze (some ⟨1000000000, by decide⟩) tornFile = .ok a ∧
      Totals seen a.stats ∧ a.intervalStats =
        some (IntervalStats.run ⟨1000000000, by decide⟩ (seen.filterMap Seen.observed?)) ∧
      (a.stats.totalPackets, a.stats.tcpCount, a.stats.errors) = (1, 1, 1) := by
  have hopen : SniffedReader.new tornFile = .ok (tornReader (tornFile.drop 24)) := rfl
  obtain ⟨results, seen, a, hdrains, hsees, hanalyze, htotals, hintervals⟩ :=
    analyze_totals ℚ (some ⟨1000000000, by decide⟩) hopen tornReader_returns
  refine ⟨results, seen, a, hdrains, hsees, hanalyze, htotals, hintervals, ?_⟩
  have hcounts : (analyze (F := ℚ) (some ⟨1000000000, by decide⟩) tornFile).toOption.map
      (fun a => (a.stats.totalPackets, a.stats.tcpCount, a.stats.errors)) = some (1, 1, 1) := by
    decide +kernel
  rw [hanalyze] at hcounts
  exact Option.some.inj hcounts

end Run

/-! ### Lengths -/

namespace RunningLengthStats

/-- The lengths are pushed as numbers. -/
theorem moments_updateAll [Arithmetic F] (values : List UInt32) :
    (updateAll values : RunningLengthStats F).moments =
      .pushAll (values.map fun value => (value.toNat : F)) := by
  induction values using List.reverseRecOn with
  | nil => rfl
  | append_singleton values value ih =>
    rw [updateAll, List.foldl_concat, List.map_append, List.map_singleton, Moments.pushAll,
      List.foldl_concat, ← Moments.pushAll, ← ih]
    rfl

/-- The count is the number of values. -/
theorem count_updateAll [Arithmetic F] (values : List UInt32) :
    (updateAll values : RunningLengthStats F).moments.count = values.length := by
  induction values using List.reverseRecOn with
  | nil => rfl
  | append_singleton values value ih =>
    rw [updateAll, List.foldl_concat, List.length_append, ← ih]
    rfl

/-- The extremes, which start as the greatest and the least length of all. -/
theorem extremes_updateAll [Arithmetic F] (values : List UInt32) :
    (updateAll values : RunningLengthStats F).minimum = values.min?.getD 0 ∧
      (updateAll values : RunningLengthStats F).maximum = values.max?.getD 0 := by
  have hall : ∀ stats : RunningLengthStats F,
      (values.foldl update stats).min = values.foldl Min.min stats.min ∧
        (values.foldl update stats).max = values.foldl Max.max stats.max := by
    induction values with
    | nil => exact fun _ => ⟨rfl, rfl⟩
    | cons value values ih => exact fun stats => ih (stats.update value)
  rw [minimum, maximum, count_updateAll, updateAll, (hall _).1, (hall _).2]
  cases values with
  | nil => exact ⟨rfl, rfl⟩
  | cons value values =>
    have hmin : Min.min (0xFFFFFFFF : UInt32) value = value := by
      show (if 0xFFFFFFFF ≤ value then 0xFFFFFFFF else value) = value
      split_ifs with hle
      · refine UInt32.le_antisymm hle (UInt32.le_iff_toNat_le.2 ?_)
        exact Nat.le_of_lt_succ value.toNat_lt
      · rfl
    have hmax : Max.max (0 : UInt32) value = value :=
      if_pos (UInt32.le_iff_toNat_le.2 (Nat.zero_le _))
    rw [List.foldl_cons, List.foldl_cons, List.min?_cons', List.max?_cons']
    exact ⟨congrArg (values.foldl Min.min) hmin, congrArg (values.foldl Max.max) hmax⟩

section Exact

variable [Field F] [CharZero F] (values : List UInt32)

/-- The running mean is the mean of the values. -/
theorem mean_updateAll : (updateAll values : RunningLengthStats F).mean =
    (values.map fun value => (value.toNat : F)).sum / (values.length : F) := by
  rw [mean, moments_updateAll]
  cases values with
  | nil => simp [Moments.pushAll, Moments.empty]
  | cons value values => rw [Moments.mean_pushAll (by simp), List.length_map]

/-- The running variance is the mean squared distance from the mean. -/
theorem variance_updateAll (ddof : ℕ) : (updateAll values : RunningLengthStats F).variance ddof =
    (if values.length ≤ ddof then 0
      else (values.map fun value =>
        ((value.toNat : F) - (updateAll values : RunningLengthStats F).mean) ^ 2).sum /
          ((values.length - ddof : ℕ) : F)) := by
  rw [variance, count_updateAll, mean, moments_updateAll, Moments.m2_pushAll, Moments.squares,
    List.map_map]
  rfl

/-- **The summary of the lengths is exact**, up to the rounding of `f64`: the mean and
the variance that are kept up to date are those of all values. -/
theorem updateAll_exact (ddof : ℕ) :
    (updateAll values : RunningLengthStats F).mean =
      (values.map fun value => (value.toNat : F)).sum / (values.length : F) ∧
    (updateAll values : RunningLengthStats F).variance ddof =
      (if values.length ≤ ddof then 0
        else (values.map fun value =>
          ((value.toNat : F) - (updateAll values : RunningLengthStats F).mean) ^ 2).sum /
            ((values.length - ddof : ℕ) : F)) ∧
    (updateAll values : RunningLengthStats F).minimum = values.min?.getD 0 ∧
    (updateAll values : RunningLengthStats F).maximum = values.max?.getD 0 :=
  ⟨mean_updateAll values, variance_updateAll values ddof, extremes_updateAll values⟩

end Exact

/-- Eight lengths of mean 5. -/
theorem updateAll_exact_eight :
    (updateAll [2, 4, 4, 4, 5, 5, 7, 9] : RunningLengthStats ℚ).mean = 5 ∧
    (updateAll [2, 4, 4, 4, 5, 5, 7, 9] : RunningLengthStats ℚ).variance 1 = 32 / 7 ∧
    (updateAll [2, 4, 4, 4, 5, 5, 7, 9] : RunningLengthStats ℚ).minimum = 2 ∧
    (updateAll [2, 4, 4, 4, 5, 5, 7, 9] : RunningLengthStats ℚ).maximum = 9 := by
  obtain ⟨hmean, hvariance, hmin, hmax⟩ := updateAll_exact (F := ℚ) [2, 4, 4, 4, 5, 5, 7, 9] 1
  have hfive : (updateAll [2, 4, 4, 4, 5, 5, 7, 9] : RunningLengthStats ℚ).mean = 5 := by
    rw [hmean]
    decide +kernel
  refine ⟨hfive, ?_, hmin.trans (by decide), hmax.trans (by decide)⟩
  rw [hvariance, hfive]
  decide +kernel

end RunningLengthStats

end Capinfo
end Maja
