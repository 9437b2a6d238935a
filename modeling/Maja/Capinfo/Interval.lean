/-
# Interval statistics

`IntervalStats` of `tools/maja-capinfo/src/interval.rs`: packets are counted in
buckets that start at the multiples of an interval.  The buckets of a run are those
in which a packet lies, each counts the packets that lie in it, and so all of them
together count every packet once (`snapshots_partition`).

The counters are `u64`, of a build that does not check for overflow.
-/

import Maja.Capinfo.Metadata
import Maja.Lib.OrderedMap
import Mathlib.Data.Finset.Insert
import Mathlib.Data.UInt

namespace Maja
namespace Capinfo

open Lib Net

/-- What `parse_interval` lets through: a whole number of nanoseconds, which is an
`i64` above zero. -/
abbrev IntervalWidth : Type := {ns : ℕ // 0 < ns ∧ ns ≤ 2 ^ 63 - 1}

/-- `IntervalBucket`. -/
structure IntervalBucket where
  totalPackets : UInt64 := 0
  totalL2Bytes : UInt64 := 0
  srcIps : Finset IpAddr := ∅
  dstIps : Finset IpAddr := ∅
  flows : Finset FlowId := ∅

namespace IntervalBucket

/-- What `update_with_packet` does to a bucket. -/
def count (length : UInt32) (bucket : IntervalBucket) : IntervalBucket :=
  { bucket with
    totalPackets := bucket.totalPackets + 1
    totalL2Bytes := bucket.totalL2Bytes + length.toUInt64 }

/-- What `update_with_metadata` does to a bucket. -/
def note (metadata : PacketMetadata) (bucket : IntervalBucket) : IntervalBucket :=
  { bucket with
    srcIps := metadata.srcIp.elim bucket.srcIps (insert · bucket.srcIps)
    dstIps := metadata.dstIp.elim bucket.dstIps (insert · bucket.dstIps)
    flows := (flowId metadata).elim bucket.flows (insert · bucket.flows) }

end IntervalBucket

/-- `IntervalSnapshot`. -/
structure IntervalSnapshot where
  startTimestampNs : I64
  endTimestampNsExclusive : I64
  totalPackets : UInt64
  totalL2Bytes : UInt64
  uniqueSrcIps : ℕ
  uniqueDstIps : ℕ
  uniqueFlows : ℕ
  deriving DecidableEq, Repr

/-- `IntervalStats`. -/
structure IntervalStats where
  intervalNs : IntervalWidth
  buckets : OrderedMap I64 IntervalBucket

/-- What the loop of `analyze` tells of a packet; there is no metadata of a packet
that does not parse. -/
structure Observed where
  timestamp : I64
  length : UInt32
  metadata : Option PacketMetadata

/-- The start in `bucket_mut`. -/
def bucketStart (width : IntervalWidth) (timestamp : I64) : I64 :=
  let remainder := timestamp.val % width.val
  if h : I64.InRange (timestamp.val - remainder) then ⟨timestamp.val - remainder, h⟩ else I64.MIN

namespace IntervalStats

/-- `IntervalStats::new`. -/
def new (intervalNs : IntervalWidth) : IntervalStats := ⟨intervalNs, .empty⟩

/-- `bucket_mut`, and a change of the bucket. -/
def changeBucket (stats : IntervalStats) (timestamp : I64) (f : IntervalBucket → IntervalBucket) :
    IntervalStats :=
  { stats with buckets := stats.buckets.upsert (bucketStart stats.intervalNs timestamp) {} f }

/-- `update_with_packet`. -/
def updateWithPacket (stats : IntervalStats) (timestamp : I64) (length : UInt32) : IntervalStats :=
  stats.changeBucket timestamp (.count length)

/-- `update_with_metadata`. -/
def updateWithMetadata (stats : IntervalStats) (metadata : PacketMetadata) : IntervalStats :=
  stats.changeBucket metadata.timestamp (.note metadata)

/-- The body of the loop of `analyze`; the metadata has the timestamp and the length
of the packet. -/
def observe (stats : IntervalStats) (packet : Observed) : IntervalStats :=
  let stats := stats.updateWithPacket packet.timestamp packet.length
  match packet.metadata with
  | some metadata =>
    stats.updateWithMetadata { metadata with timestamp := packet.timestamp, length := packet.length }
  | none => stats

/-- The loop of `analyze`. -/
def run (width : IntervalWidth) (packets : List Observed) : IntervalStats :=
  packets.foldl observe (new width)

/-- The snapshot of a bucket. -/
def snapshot (width : IntervalWidth) (start : I64) (bucket : IntervalBucket) : IntervalSnapshot where
  startTimestampNs := start
  endTimestampNsExclusive := start.saturatingAdd (.ofWord width.val)
  totalPackets := bucket.totalPackets
  totalL2Bytes := bucket.totalL2Bytes
  uniqueSrcIps := bucket.srcIps.card
  uniqueDstIps := bucket.dstIps.card
  uniqueFlows := bucket.flows.card

/-- `snapshots`. -/
def snapshots (stats : IntervalStats) : List IntervalSnapshot :=
  stats.buckets.entries.map fun entry => snapshot stats.intervalNs entry.1 entry.2

end IntervalStats

/-! ### The bucket of a packet -/

/-- The timestamp is at least an interval away from the ends of `i64`. -/
def FarFromEnds (width : IntervalWidth) (timestamp : I64) : Prop :=
  -2 ^ 63 + (width.val : ℤ) ≤ timestamp.val ∧ timestamp.val ≤ 2 ^ 63 - 1 - (width.val : ℤ)

instance (width : IntervalWidth) (timestamp : I64) : Decidable (FarFromEnds width timestamp) :=
  inferInstanceAs (Decidable (_ ∧ _))

/-- The timestamp is in the range of the snapshot. -/
def IntervalSnapshot.Covers (snapshot : IntervalSnapshot) (timestamp : I64) : Prop :=
  snapshot.startTimestampNs.val ≤ timestamp.val ∧
    timestamp.val < snapshot.endTimestampNsExclusive.val

instance (snapshot : IntervalSnapshot) (timestamp : I64) : Decidable (snapshot.Covers timestamp) :=
  inferInstanceAs (Decidable (_ ∧ _))

/-- The start of a bucket: a multiple of the interval with room for its end. -/
structure IsStart (width : IntervalWidth) (start : I64) : Prop where
  multiple : (width.val : ℤ) ∣ start.val
  room : start.val + (width.val : ℤ) ≤ 2 ^ 63 - 1

variable {width : IntervalWidth} {timestamp start : I64}

/-- **The start is the multiple in front of the timestamp**, also of a negative
one. -/
theorem bucketStart_val (h : FarFromEnds width timestamp) :
    (bucketStart width timestamp).val = timestamp.val - timestamp.val % width.val := by
  have hpos : (0 : ℤ) < width.val := by exact_mod_cast width.2.1
  have hnonneg := Int.emod_nonneg timestamp.val hpos.ne'
  have hlt := Int.emod_lt_of_pos timestamp.val hpos
  obtain ⟨hlow, hhigh⟩ := h
  have hrange : I64.InRange (timestamp.val - timestamp.val % width.val) := ⟨by omega, by omega⟩
  rw [bucketStart, dif_pos hrange]

/-- Away from the ends of `i64` the start of a bucket is the greatest multiple of the
width that does not lie behind the timestamp. -/
theorem isStart_bucketStart (h : FarFromEnds width timestamp) :
    IsStart width (bucketStart width timestamp) := by
  have hpos : (0 : ℤ) < width.val := by exact_mod_cast width.2.1
  have hnonneg := Int.emod_nonneg timestamp.val hpos.ne'
  refine ⟨?_, ?_⟩
  · rw [bucketStart_val h]
    exact Int.dvd_self_sub_emod
  · rw [bucketStart_val h]
    have := h.2
    omega

/-- The range of a bucket's snapshot does not saturate. -/
theorem end_val (h : IsStart width start) (bucket : IntervalBucket) :
    (IntervalStats.snapshot width start bucket).endTimestampNsExclusive.val =
      start.val + width.val := by
  have hwidth : (I64.ofWord width.val).val = width.val := by
    have := width.2.2
    exact I64.ofWord_val (by omega)
  show (I64.clamp (start.val + (I64.ofWord width.val).val)).val = _
  rw [hwidth]
  exact I64.clamp_val ⟨by have := start.2.1; omega, h.room⟩

/-- **A timestamp is in the range of its own bucket and of no other.** -/
theorem covers_iff (h : FarFromEnds width timestamp) (hstart : IsStart width start)
    (bucket : IntervalBucket) :
    (IntervalStats.snapshot width start bucket).Covers timestamp ↔
      bucketStart width timestamp = start := by
  have hpos : (0 : ℤ) < width.val := by exact_mod_cast width.2.1
  have hnonneg := Int.emod_nonneg timestamp.val hpos.ne'
  have hlt := Int.emod_lt_of_pos timestamp.val hpos
  have hval := bucketStart_val h
  rw [IntervalSnapshot.Covers, end_val hstart]
  show start.val ≤ _ ∧ _ ↔ _
  constructor
  · rintro ⟨hle, hlt'⟩
    obtain ⟨k, hk⟩ := hstart.multiple
    obtain ⟨j, hj⟩ := (isStart_bucketStart h).multiple
    have hkj : k = j := by
      have h1 : (width.val : ℤ) * k < width.val * (j + 1) := by
        rw [mul_add, mul_one, ← hk, ← hj]
        omega
      have h2 : (width.val : ℤ) * j < width.val * (k + 1) := by
        rw [mul_add, mul_one, ← hk, ← hj]
        omega
      have h1 := lt_of_mul_lt_mul_left h1 hpos.le
      have h2 := lt_of_mul_lt_mul_left h2 hpos.le
      omega
    exact Subtype.ext (by rw [hj, hk, hkj])
  · rintro rfl
    omega

/-- Of two starts the larger one is behind the end of the other. -/
theorem end_le_start {start' : I64} (h : IsStart width start) (h' : IsStart width start')
    (hlt : start < start') (bucket : IntervalBucket) :
    (IntervalStats.snapshot width start bucket).endTimestampNsExclusive ≤ start' := by
  have hpos : 0 < start'.val - start.val := sub_pos.2 hlt
  have hle := Int.le_of_dvd hpos (Int.dvd_sub h'.multiple h.multiple)
  show _ ≤ start'.val
  rw [end_val h]
  omega

/-! ### A run -/

/-- What the loop of `analyze` does to the bucket of a packet. -/
def Observed.change (packet : Observed) : IntervalBucket → IntervalBucket :=
  match packet.metadata with
  | some metadata => fun bucket =>
    (bucket.count packet.length).note
      { metadata with timestamp := packet.timestamp, length := packet.length }
  | none => .count packet.length

/-- A packet changes its bucket, and nothing else. -/
theorem observe_eq (stats : IntervalStats) (packet : Observed) :
    stats.observe packet = stats.changeBucket packet.timestamp packet.change := by
  unfold IntervalStats.observe Observed.change
  cases packet.metadata with
  | none => rfl
  | some metadata =>
      simp only [IntervalStats.updateWithPacket, IntervalStats.updateWithMetadata,
        IntervalStats.changeBucket, OrderedMap.upsert_upsert]
      rfl

/-- **The buckets of a run** are those of a loop that files every packet under its
start. -/
theorem run_buckets (width : IntervalWidth) (packets : List Observed) :
    IntervalStats.run width packets = ⟨width, OrderedMap.upsertAll
      (fun packet : Observed => bucketStart width packet.timestamp) {} Observed.change packets
        .empty⟩ := by
  have hall : ∀ buckets, packets.foldl IntervalStats.observe ⟨width, buckets⟩ =
      ⟨width, OrderedMap.upsertAll (fun packet : Observed => bucketStart width packet.timestamp) {}
        Observed.change packets buckets⟩ := by
    induction packets with
    | nil => exact fun _ => rfl
    | cons packet packets ih =>
        intro buckets
        rw [List.foldl_cons, observe_eq]
        exact ih _
  exact hall .empty

/-- What a packet adds to the totals of its bucket. -/
theorem change_totals (packet : Observed) (bucket : IntervalBucket) :
    (packet.change bucket).totalPackets = bucket.totalPackets + 1 ∧
      (packet.change bucket).totalL2Bytes = bucket.totalL2Bytes + packet.length.toUInt64 := by
  unfold Observed.change
  cases packet.metadata <;> exact ⟨rfl, rfl⟩

/-- The bytes of packets. -/
def totalBytes (packets : List Observed) : ℕ := (packets.map fun packet => packet.length.toNat).sum

/-- The `u64` sum of the lengths is the total number of bytes, wrapped. -/
theorem sum_length_eq (packets : List Observed) :
    (packets.map fun packet => packet.length.toUInt64).sum = UInt64.ofNat (totalBytes packets) := by
  induction packets with
  | nil => rfl
  | cons packet packets ih =>
      rw [totalBytes, List.map_cons, List.map_cons, List.sum_cons, List.sum_cons, ih,
        UInt64.ofNat_add, UInt64.ofNat_uInt32ToNat]
      rfl

/-- Counting one by one in a `u64` gives the number of packets, wrapped. -/
theorem sum_one_eq (packets : List Observed) :
    (packets.map fun _ => (1 : UInt64)).sum = UInt64.ofNat packets.length := by
  induction packets with
  | nil => rfl
  | cons packet packets ih =>
      rw [List.map_cons, List.sum_cons, ih, List.length_cons, UInt64.ofNat_add, add_comm]
      rfl

/-- The totals of the bucket of some packets. -/
theorem foldl_totals (packets : List Observed) (bucket : IntervalBucket) :
    (packets.foldl (fun bucket packet => packet.change bucket) bucket).totalPackets =
        bucket.totalPackets + (packets.map fun _ => (1 : UInt64)).sum ∧
      (packets.foldl (fun bucket packet => packet.change bucket) bucket).totalL2Bytes =
        bucket.totalL2Bytes + (packets.map fun packet => packet.length.toUInt64).sum := by
  induction packets generalizing bucket with
  | nil => simp
  | cons packet packets ih =>
      obtain ⟨hpackets, hbytes⟩ := change_totals packet bucket
      rw [List.foldl_cons, (ih _).1, (ih _).2, hpackets, hbytes, List.map_cons, List.map_cons,
        List.sum_cons, List.sum_cons, add_assoc, add_assoc]
      exact ⟨rfl, rfl⟩

/-! ### The partition -/

/-- A snapshot of a run is that of a start, with the packets that its range covers. -/
structure SnapshotOf (width : IntervalWidth) (packets : List Observed)
    (snapshot : IntervalSnapshot) : Prop where
  nonempty : ∃ packet ∈ packets, snapshot.Covers packet.timestamp
  multiple : (width.val : ℤ) ∣ snapshot.startTimestampNs.val
  interval : snapshot.endTimestampNsExclusive.val = snapshot.startTimestampNs.val + width.val
  totalPackets : snapshot.totalPackets =
    UInt64.ofNat (packets.filter fun packet => snapshot.Covers packet.timestamp).length
  totalL2Bytes : snapshot.totalL2Bytes =
    UInt64.ofNat (totalBytes (packets.filter fun packet => snapshot.Covers packet.timestamp))

variable {packets : List Observed}

/-- An entry of a run has a packet, which starts its bucket. -/
theorem exists_packet_of_mem {bucket : IntervalBucket}
    (h : (start, bucket) ∈ (IntervalStats.run width packets).buckets.entries) :
    ∃ packet ∈ packets, bucketStart width packet.timestamp = start := by
  rw [run_buckets, OrderedMap.mem_upsertAll_empty] at h
  obtain ⟨packet, hpacket⟩ := List.exists_mem_of_ne_nil _ h.1
  obtain ⟨hmem, hstart⟩ := List.mem_filter.1 hpacket
  exact ⟨packet, hmem, of_decide_eq_true hstart⟩

/-- **What an entry of a run counts**: the packets in its range. -/
theorem snapshotOf_of_mem (hfar : ∀ packet ∈ packets, FarFromEnds width packet.timestamp)
    {bucket : IntervalBucket}
    (h : (start, bucket) ∈ (IntervalStats.run width packets).buckets.entries) :
    SnapshotOf width packets (IntervalStats.snapshot width start bucket) := by
  obtain ⟨packet, hpacket, rfl⟩ := exists_packet_of_mem h
  have hstart := isStart_bucketStart (hfar packet hpacket)
  have hfilter : packets.filter (fun packet' =>
      (IntervalStats.snapshot width (bucketStart width packet.timestamp) bucket).Covers
        packet'.timestamp) =
      packets.filter fun packet' =>
        bucketStart width packet'.timestamp = bucketStart width packet.timestamp :=
    List.filter_congr fun packet' hpacket' =>
      decide_eq_decide.2 (covers_iff (hfar packet' hpacket') hstart bucket)
  rw [run_buckets, OrderedMap.mem_upsertAll_empty] at h
  obtain ⟨-, rfl⟩ := h
  obtain ⟨hpackets, hbytes⟩ := foldl_totals (packets.filter fun packet' =>
    bucketStart width packet'.timestamp = bucketStart width packet.timestamp) {}
  refine ⟨⟨packet, hpacket, (covers_iff (hfar packet hpacket) hstart _).2 rfl⟩, hstart.multiple,
    end_val hstart _, ?_, ?_⟩
  · rw [hfilter, ← sum_one_eq]
    exact hpackets.trans (zero_add _)
  · rw [hfilter, ← sum_length_eq]
    exact hbytes.trans (zero_add _)

/-- **The buckets partition the packets.**  For every interval that the command line
accepts and packets in any order, at least an interval away from the ends of `i64`:
every packet is in the range of one snapshot; a snapshot starts at a multiple of the
interval, is an interval long, and counts the packets in its range; the ranges come
one behind the other; and the totals of all snapshots are those of all packets. -/
theorem snapshots_partition (width : IntervalWidth) (packets : List Observed)
    (hfar : ∀ packet ∈ packets, FarFromEnds width packet.timestamp) :
    (∀ packet ∈ packets, ∃! snapshot, snapshot ∈ (IntervalStats.run width packets).snapshots ∧
      snapshot.Covers packet.timestamp) ∧
    (∀ snapshot ∈ (IntervalStats.run width packets).snapshots,
      SnapshotOf width packets snapshot) ∧
    ((IntervalStats.run width packets).snapshots.Pairwise fun a b =>
      a.endTimestampNsExclusive ≤ b.startTimestampNs) ∧
    ((IntervalStats.run width packets).snapshots.map IntervalSnapshot.totalPackets).sum =
      UInt64.ofNat packets.length ∧
    ((IntervalStats.run width packets).snapshots.map IntervalSnapshot.totalL2Bytes).sum =
      UInt64.ofNat (totalBytes packets) := by
  have hwidth : (IntervalStats.run width packets).intervalNs = width := by rw [run_buckets]
  have hsnapshots : (IntervalStats.run width packets).snapshots =
      (IntervalStats.run width packets).buckets.entries.map fun entry =>
        IntervalStats.snapshot width entry.1 entry.2 := by
    rw [IntervalStats.snapshots, hwidth]
  have hisStart : ∀ {start bucket}, (start, bucket) ∈
      (IntervalStats.run width packets).buckets.entries → IsStart width start := by
    intro start bucket h
    obtain ⟨packet, hpacket, rfl⟩ := exists_packet_of_mem h
    exact isStart_bucketStart (hfar packet hpacket)
  refine ⟨fun packet hpacket => ?_, fun snapshot hsnapshot => ?_, ?_, ?_, ?_⟩
  · -- the entry of the packet's start
    have hentry : ∃ bucket, (bucketStart width packet.timestamp, bucket) ∈
        (IntervalStats.run width packets).buckets.entries := by
      rw [run_buckets]
      refine ⟨_, (OrderedMap.mem_upsertAll_empty _ _ _).2 ⟨?_, rfl⟩⟩
      exact List.ne_nil_of_mem (List.mem_filter.2 ⟨hpacket, decide_eq_true rfl⟩)
    obtain ⟨bucket, hentry⟩ := hentry
    refine ⟨IntervalStats.snapshot width (bucketStart width packet.timestamp) bucket,
      ⟨?_, ?_⟩, ?_⟩
    · rw [hsnapshots]
      exact List.mem_map.2 ⟨_, hentry, rfl⟩
    · exact (covers_iff (hfar packet hpacket) (hisStart hentry) bucket).2 rfl
    · rintro snapshot ⟨hsnapshot, hcovers⟩
      rw [hsnapshots] at hsnapshot
      obtain ⟨⟨start, bucket'⟩, hentry', rfl⟩ := List.mem_map.1 hsnapshot
      obtain rfl := (covers_iff (hfar packet hpacket) (hisStart hentry') bucket').1 hcovers
      rw [OrderedMap.mem_entries_iff] at hentry hentry'
      rw [Option.some.inj (hentry.symm.trans hentry')]
  · rw [hsnapshots] at hsnapshot
    obtain ⟨⟨start, bucket⟩, hentry, rfl⟩ := List.mem_map.1 hsnapshot
    exact snapshotOf_of_mem hfar hentry
  · rw [hsnapshots, List.pairwise_map]
    refine (IntervalStats.run width packets).buckets.sorted.imp_of_mem fun ha hb hlt => ?_
    exact end_le_start (hisStart ha) (hisStart hb) hlt _
  · rw [hsnapshots, List.map_map, run_buckets, ← sum_one_eq]
    exact OrderedMap.sumOf_upsertAll_empty _ _ _ (g := IntervalBucket.totalPackets) rfl
      (fun packet bucket => (change_totals packet bucket).1) packets
  · rw [hsnapshots, List.map_map, run_buckets, ← sum_length_eq]
    exact OrderedMap.sumOf_upsertAll_empty _ _ _ (g := IntervalBucket.totalL2Bytes) rfl
      (fun packet bucket => (change_totals packet bucket).2) packets

/-- Two packets of a second, one of them before the epoch, and one of the next. -/
theorem snapshots_partition_seconds :
    ∃! snapshot, snapshot ∈ (IntervalStats.run ⟨1000000000, by decide⟩
        [⟨.ofInt 1, 100, none⟩, ⟨.ofInt (-1), 200, none⟩, ⟨.ofInt 2, 300, none⟩]).snapshots ∧
      snapshot.Covers (.ofInt (-1)) :=
  (snapshots_partition ⟨1000000000, by decide⟩ _ (by decide)).1 ⟨.ofInt (-1), 200, none⟩
    (.tail _ (.head _))

end Capinfo
end Maja
