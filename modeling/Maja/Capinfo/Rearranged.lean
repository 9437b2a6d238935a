/-
# The report and the order of the packets

Two captures of the same packets in different orders have the same report, but for
`is_ordered`, and the same interval statistics (`noteAll_perm`).  The summary of
the lengths is the same in exact arithmetic.
-/

import Maja.Capinfo.TopTraffic

namespace Maja
namespace Capinfo

open Lib Net Capture

section Extremes

variable {α : Type} {as bs : List α}

/-- The values of a list, put together one after the other. -/
def combine (f : α → α → α) : List α → Option α
  | [] => none
  | a :: as => some (as.foldl f a)

/-- A commutative and associative combination does not depend on the order. -/
theorem combine_perm (f : α → α → α) [Std.Commutative f] [Std.Associative f] (h : as.Perm bs) :
    combine f as = combine f bs := by
  have hcons : ∀ a as, combine f (a :: as) = some ((combine f as).elim a (f a)) := by
    intro a as
    cases as with
    | nil => rfl
    | cons b as => exact congrArg some (List.foldl_assoc ..)
  induction h with
  | nil => rfl
  | cons a _ ih => rw [hcons, hcons, ih]
  | swap a b as =>
    rw [hcons, hcons, hcons, hcons]
    cases combine f as with
    | none => exact congrArg some (Std.Commutative.comm b a)
    | some m =>
      have hba : f b (f a m) = f a (f b m) := by
        rw [← (Std.Associative.assoc b a m : f (f b a) m = _), (Std.Commutative.comm b a : f b a = _),
          (Std.Associative.assoc a b m : f (f a b) m = _)]
      exact congrArg some hba
  | trans _ _ ih ih' => exact ih.trans ih'

/-- The least element does not depend on the order. -/
theorem min?_perm [Min α] [Std.Commutative (min : α → α → α)] [Std.Associative (min : α → α → α)]
    (h : as.Perm bs) : as.min? = bs.min? := by
  have hmin : ∀ as : List α, as.min? = combine min as := fun as => by cases as <;> rfl
  rw [hmin, hmin, combine_perm min h]

/-- The greatest element does not depend on the order. -/
theorem max?_perm [Max α] [Std.Commutative (max : α → α → α)] [Std.Associative (max : α → α → α)]
    (h : as.Perm bs) : as.max? = bs.max? := by
  have hmax : ∀ as : List α, as.max? = combine max as := fun as => by cases as <;> rfl
  rw [hmax, hmax, combine_perm max h]

/-- The greater of two `u32` is the greater number. -/
theorem toNat_max (a b : UInt32) : (max a b).toNat = max a.toNat b.toNat := by
  show (if a ≤ b then b else a).toNat = _
  split_ifs with hle <;> rw [UInt32.le_iff_toNat_le] at hle <;> omega

instance commutative_max : Std.Commutative (max : UInt32 → UInt32 → UInt32) where
  comm a b := UInt32.toNat_inj.1 (by rw [toNat_max, toNat_max, max_comm])

instance associative_max : Std.Associative (max : UInt32 → UInt32 → UInt32) where
  assoc a b c := UInt32.toNat_inj.1 (by simp only [toNat_max, max_assoc])

end Extremes

/-- The traffic does not depend on the order of the packets. -/
theorem trafficOf_perm {metadata metadata' : List PacketMetadata} (h : metadata.Perm metadata') :
    trafficOf metadata = trafficOf metadata' := by
  have hsum := (h.map fun m => m.length.toNat).sum_eq
  have hlength := h.length_eq
  cases metadata with
  | nil => rw [h.nil_eq]
  | cons m metadata =>
    cases metadata' with
    | nil => cases hlength
    | cons m' metadata' =>
      show some (RunningTrafficStats.mk _ _) = some (RunningTrafficStats.mk _ _)
      rw [hsum, hlength]

/-- Tables over the same packets in another order hold the same entries. -/
theorem TrafficBy.perm {κ : Type} [DecidableEq κ] {key : PacketMetadata → Option κ}
    {metadata metadata' : List PacketMetadata} {traffic traffic' : Traffic κ}
    (h : TrafficBy key metadata traffic) (h' : TrafficBy key metadata' traffic')
    (hperm : metadata.Perm metadata') (k : κ) : traffic.lookup k = traffic'.lookup k := by
  rw [h k, h' k]
  exact trafficOf_perm (hperm.filter _)

/-- Two maps with the same traffic have the same entries. -/
theorem entries_perm {κ : Type} [DecidableEq κ] {traffic traffic' : Traffic κ}
    (h : ∀ k, traffic.lookup k = traffic'.lookup k) : traffic.entries.Perm traffic'.entries := by
  refine List.lookup_ext traffic.nodupKeys traffic'.nodupKeys fun k stats => ?_
  have hk : traffic.entries.dlookup k = traffic'.entries.dlookup k := h k
  rw [hk]

/-- So they have the same tables. -/
theorem topItems_eq {κ : Type} [DecidableEq κ] [Key κ] {traffic traffic' : Traffic κ}
    (h : ∀ k, traffic.lookup k = traffic'.lookup k) (order : IterOrder (κ × RunningTrafficStats))
    (kLargestBy : KLargestBy κ) (limit : ℕ) :
    topItems order kLargestBy traffic limit = topItems order kLargestBy traffic' limit := by
  have hperm := (order.perm (traffic.entries.map fun e => (e.1, e.2))).trans
    (((entries_perm h).map fun e => (e.1, e.2)).trans (order.perm _).symm)
  refine (kLargestBy.topOf limit _).eq_of_perm (kLargestBy.topOf limit _) compareTraffic_ne_lt hperm ?_
  exact ((order.perm _).map trafficRank).nodup_iff.2 (nodup_trafficRank traffic)

/-! ### The intervals -/

/-- Two packets of one bucket may come in any order. -/
theorem change_comm (p q : Observed) (bucket : IntervalBucket) :
    q.change (p.change bucket) = p.change (q.change bucket) := by
  have hinsert : ∀ {α : Type} [DecidableEq α] (o o' : Option α) (set : Finset α),
      o'.elim (o.elim set (insert · set)) (insert · (o.elim set (insert · set))) =
        o.elim (o'.elim set (insert · set)) (insert · (o'.elim set (insert · set))) := by
    intro α _ o o' set
    cases o <;> cases o' <;> simp [Finset.insert_comm]
  obtain ⟨packets, bytes, srcIps, dstIps, flows⟩ := bucket
  unfold Observed.change
  cases p.metadata with
  | none =>
    cases q.metadata <;>
      simp [IntervalBucket.count, IntervalBucket.note, add_right_comm]
  | some m =>
    cases q.metadata with
    | none => simp [IntervalBucket.count, IntervalBucket.note, add_right_comm]
    | some m' =>
      simp only [IntervalBucket.count, IntervalBucket.note, IntervalBucket.mk.injEq]
      exact ⟨trivial, add_right_comm .., hinsert .., hinsert .., hinsert ..⟩

/-- The interval statistics do not depend on the order of the packets. -/
theorem run_perm (width : IntervalWidth) {packets packets' : List Observed}
    (h : packets.Perm packets') :
    IntervalStats.run width packets = IntervalStats.run width packets' := by
  rw [run_buckets, run_buckets, OrderedMap.upsertAll_perm _ _ _ h fun p q b => change_comm p q b]

/-! ### The report -/

section Report

variable {F : Type} [Arithmetic F]

/-- The statistics that the report shows are the same, but for `is_ordered`. -/
structure SameReport (s t : Stats F) : Prop where
  totalPackets : s.totalPackets = t.totalPackets
  totalL2Bytes : s.totalL2Bytes = t.totalL2Bytes
  totalL3Bytes : s.totalL3Bytes = t.totalL3Bytes
  emptyPackets : s.emptyPackets = t.emptyPackets
  errors : s.errors = t.errors
  firstTimestamp : s.firstTimestamp = t.firstTimestamp
  lastTimestamp : s.lastTimestamp = t.lastTimestamp
  mean : s.lengths.mean = t.lengths.mean
  variance : ∀ ddof, s.lengths.variance ddof = t.lengths.variance ddof
  minimum : s.lengths.minimum = t.lengths.minimum
  maximum : s.lengths.maximum = t.lengths.maximum
  tcpCount : s.tcpCount = t.tcpCount
  udpCount : s.udpCount = t.udpCount
  flowSet : s.flowSet = t.flowSet
  topSrcIps : ∀ order kLargestBy limit,
    s.topSrcIps order kLargestBy limit = t.topSrcIps order kLargestBy limit
  topDstIps : ∀ order kLargestBy limit,
    s.topDstIps order kLargestBy limit = t.topDstIps order kLargestBy limit
  topSrcPorts : ∀ order kLargestBy limit,
    s.topSrcPorts order kLargestBy limit = t.topSrcPorts order kLargestBy limit
  topDstPorts : ∀ order kLargestBy limit,
    s.topDstPorts order kLargestBy limit = t.topDstPorts order kLargestBy limit

end Report

section Perm

variable {F : Type} [Field F] [CharZero F]

/-- The summary of the lengths, in exact arithmetic. -/
theorem updateAll_perm {values values' : List UInt32} (h : values.Perm values') :
    (RunningLengthStats.updateAll values : RunningLengthStats F).mean =
        (RunningLengthStats.updateAll values' : RunningLengthStats F).mean ∧
      (∀ ddof, (RunningLengthStats.updateAll values : RunningLengthStats F).variance ddof =
        (RunningLengthStats.updateAll values' : RunningLengthStats F).variance ddof) ∧
      (RunningLengthStats.updateAll values : RunningLengthStats F).minimum =
        (RunningLengthStats.updateAll values' : RunningLengthStats F).minimum ∧
      (RunningLengthStats.updateAll values : RunningLengthStats F).maximum =
        (RunningLengthStats.updateAll values' : RunningLengthStats F).maximum := by
  have hmean : (RunningLengthStats.updateAll values : RunningLengthStats F).mean =
      (RunningLengthStats.updateAll values' : RunningLengthStats F).mean := by
    rw [RunningLengthStats.mean_updateAll, RunningLengthStats.mean_updateAll, (h.map _).sum_eq,
      h.length_eq]
  refine ⟨hmean, fun ddof => ?_, ?_, ?_⟩
  · rw [RunningLengthStats.variance_updateAll, RunningLengthStats.variance_updateAll, hmean,
      h.length_eq, (h.map _).sum_eq]
  · rw [(RunningLengthStats.extremes_updateAll values).1, min?_perm h,
      (RunningLengthStats.extremes_updateAll values').1]
  · rw [(RunningLengthStats.extremes_updateAll values).2, max?_perm h,
      (RunningLengthStats.extremes_updateAll values').2]

/-- The totals of the same packets. -/
theorem Totals.perm {seen seen' : List Seen} {s t : Stats F} (h : Totals seen s)
    (h' : Totals seen' t) (hperm : seen.Perm seen') : SameReport s t := by
  have hpackets := hperm.filterMap Seen.packet?
  have hmetadata := hperm.filterMap Seen.metadata?
  obtain ⟨hmean, hvariance, hmin, hmax⟩ := updateAll_perm (F := F)
    (hmetadata.map PacketMetadata.length)
  have hm := h.metadata
  have hm' := h'.metadata
  rw [← hm.lengths, ← hm'.lengths] at hmean hmin hmax
  refine ⟨?_, ?_, ?_, ?_, ?_, ?_, ?_, hmean, ?_, hmin, hmax, ?_, ?_, ?_, ?_, ?_, ?_, ?_⟩
  · rw [h.packets.totalPackets, h'.packets.totalPackets, hpackets.length_eq]
  · rw [h.packets.totalL2Bytes, h'.packets.totalL2Bytes, (hpackets.map _).sum_eq]
  · rw [h.totalL3Bytes, h'.totalL3Bytes, (hperm.map _).sum_eq]
  · rw [h.emptyPackets, h'.emptyPackets, hperm.countP_eq]
  · rw [h.errors, h'.errors, hperm.countP_eq]
  · rw [h.packets.firstTimestamp, h'.packets.firstTimestamp, min?_perm (hpackets.map _)]
  · rw [h.packets.lastTimestamp, h'.packets.lastTimestamp, max?_perm (hpackets.map _)]
  · intro ddof
    rw [hm.lengths, hm'.lengths]
    exact hvariance ddof
  · rw [hm.tcpCount, hm'.tcpCount, hmetadata.countP_eq]
  · rw [hm.udpCount, hm'.udpCount, hmetadata.countP_eq]
  · ext flow
    rw [hm.flowSet, hm'.flowSet]
    exact exists_congr fun m => and_congr_left fun _ => hmetadata.mem_iff
  · exact topItems_eq (hm.srcIpTraffic.perm hm'.srcIpTraffic hmetadata)
  · exact topItems_eq (hm.dstIpTraffic.perm hm'.dstIpTraffic hmetadata)
  · exact topItems_eq (hm.srcPortTraffic.perm hm'.srcPortTraffic hmetadata)
  · exact topItems_eq (hm.dstPortTraffic.perm hm'.dstPortTraffic hmetadata)

/-- **The report does not depend on the order of the packets**, and neither do the
interval statistics. -/
theorem noteAll_perm (width : Option IntervalWidth) {seen seen' : List Seen}
    (h : seen.Perm seen') :
    SameReport (Analysis.noteAll width seen : Analysis F).stats (Analysis.noteAll width seen').stats ∧
      (Analysis.noteAll width seen : Analysis F).intervalStats =
        (Analysis.noteAll width seen' : Analysis F).intervalStats := by
  refine ⟨(noteAll_totals width seen).perm (noteAll_totals width seen') h, ?_⟩
  rw [noteAll_intervals, noteAll_intervals]
  refine congrArg (fun f => width.map f) (funext fun width => ?_)
  exact run_perm width (h.filterMap Seen.observed?)

end Perm

end Capinfo
end Maja
