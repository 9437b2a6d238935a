/-
# The top traffic of a capture

The tables of the report list, for addresses and ports in either direction, the
keys with the most packets.  What a table lists is the traffic of its keys, in the
order of a ranking without ties, so it does not depend on the order of a hash map
nor on how the first are selected (`top_traffic`).
-/

import Maja.Capinfo.Totals
import Mathlib.Data.Prod.Lex

namespace Maja
namespace Capinfo

open Lib Net

section Ranking

variable {κ : Type} [Key κ]

/-- Where an entry ranks in `top_items`, the first being the least. -/
def trafficRank (entry : κ × RunningTrafficStats) : ℕᵒᵈ ×ₗ ℕᵒᵈ ×ₗ ℕ :=
  toLex (.toDual entry.2.count, toLex (.toDual entry.2.bytes.toNat, Key.rank entry.1))

/-- `compare_traffic` orders entries by their rank: packets first, then bytes. -/
theorem compareTraffic_ne_lt (a b : κ × RunningTrafficStats) :
    compareTraffic a b ≠ .lt ↔ trafficRank a ≤ trafficRank b := by
  rw [← not_lt, trafficRank, trafficRank, Prod.Lex.toLex_lt_toLex, Prod.Lex.toLex_lt_toLex]
  simp only [compareTraffic, ne_eq, Ordering.then_eq_lt, Nat.compare_eq_lt, Nat.compare_eq_eq,
    OrderDual.toDual_lt_toDual, OrderDual.toDual_inj]
  omega

/-- No two keys rank the same. -/
theorem key_eq_of_trafficRank {a b : κ × RunningTrafficStats}
    (h : trafficRank a = trafficRank b) : a.1 = b.1 :=
  Key.rank_injective (congrArg (fun r => (ofLex (ofLex r).2).2) h)

end Ranking

/-! ### The keys of a map -/

section Keys

variable {κ : Type} [DecidableEq κ] {key : PacketMetadata → Option κ}
  {metadata : List PacketMetadata} {traffic : Traffic κ}

/-- The entries of a map, as pairs. -/
theorem mem_entries_iff (h : TrafficBy key metadata traffic) {e : κ × RunningTrafficStats} :
    e ∈ traffic.entries.map (fun e => (e.1, e.2)) ↔
      trafficOf (metadata.filter fun m => key m = some e.1) = some e.2 := by
  rw [← h e.1, ← Option.mem_def, AList.mem_lookup_iff, List.mem_map]
  constructor
  · rintro ⟨⟨k, stats⟩, hmem, rfl⟩
    exact hmem
  · exact fun hmem => ⟨⟨e.1, e.2⟩, hmem, rfl⟩

/-- There is traffic of the keys of the packets. -/
theorem trafficOf_ne_none {metadata : List PacketMetadata} :
    trafficOf metadata ≠ none ↔ metadata ≠ [] := by
  cases metadata <;> simp [trafficOf]

/-- **The entries are one for each key.** -/
theorem TrafficBy.length (h : TrafficBy key metadata traffic) :
    traffic.entries.length = (metadata.filterMap key).toFinset.card := by
  have hkeys : traffic.keys.toFinset = (metadata.filterMap key).toFinset := by
    ext k
    rw [List.mem_toFinset, List.mem_toFinset, ← AList.mem_keys, ← AList.lookup_isSome, h k,
      Option.isSome_iff_ne_none, trafficOf_ne_none, List.mem_filterMap, ne_eq,
      List.filter_eq_nil_iff]
    simp
  rw [← hkeys, List.toFinset_card_of_nodup traffic.keys_nodup, AList.keys, List.keys,
    List.length_map]

/-- No two entries rank the same. -/
theorem nodup_trafficRank {κ : Type} [Key κ] (traffic : Traffic κ) :
    ((traffic.entries.map fun e => (e.1, e.2)).map trafficRank).Nodup := by
  have hkeys : ((traffic.entries.map fun e => (e.1, e.2)).map Prod.fst).Nodup := by
    rw [List.map_map]
    exact traffic.keys_nodup
  rw [List.nodup_map_iff_inj_on hkeys.of_map]
  intro a ha b hb hrank
  exact List.inj_on_of_nodup_map hkeys ha hb (key_eq_of_trafficRank hrank)

end Keys

/-! ### The tables -/

section Table

variable {κ : Type} [DecidableEq κ] [Key κ]

/-- What a table of the report lists of the traffic by a key. -/
structure TopTable (key : PacketMetadata → Option κ) (metadata : List PacketMetadata) (limit : ℕ)
    (top : List (κ × RunningTrafficStats)) : Prop where
  /-- As many keys as there are, up to the limit. -/
  length : top.length = min limit (metadata.filterMap key).toFinset.card
  /-- Each with the traffic of its packets. -/
  traffic : ∀ e ∈ top, trafficOf (metadata.filter fun m => key m = some e.1) = some e.2
  /-- In the order of their ranks. -/
  ranked : top.Pairwise fun a b => trafficRank a < trafficRank b
  /-- And no other key ranks before them. -/
  first : ∀ a ∈ top, ∀ b : κ × RunningTrafficStats,
    trafficOf (metadata.filter fun m => key m = some b.1) = some b.2 → b ∉ top →
      trafficRank a < trafficRank b

variable {key : PacketMetadata → Option κ} {metadata : List PacketMetadata} {traffic : Traffic κ}
  {limit : ℕ}

/-- `top_items` keeps entries of the table, in order, and no other one exceeds them. -/
theorem topItems_table (h : TrafficBy key metadata traffic)
    (order : IterOrder (κ × RunningTrafficStats))
    (kLargestBy : KLargestBy κ) :
    TopTable key metadata limit (topItems order kLargestBy traffic limit) := by
  have htop := kLargestBy.topOf limit (order.arrange (traffic.entries.map fun e => (e.1, e.2)))
  have hperm := order.perm (traffic.entries.map fun e => (e.1, e.2))
  have hnodup := nodup_trafficRank traffic
  have hmem : ∀ e ∈ topItems order kLargestBy traffic limit,
      e ∈ traffic.entries.map (fun e => (e.1, e.2)) := fun e he =>
    hperm.subset (htop.subperm.subset he)
  have hlt : ∀ a ∈ traffic.entries.map (fun e => (e.1, e.2)),
      ∀ b ∈ traffic.entries.map (fun e => (e.1, e.2)), a ≠ b → compareTraffic a b ≠ .lt →
        trafficRank a < trafficRank b := fun a ha b hb hne hcompare =>
    lt_of_le_of_ne ((compareTraffic_ne_lt a b).1 hcompare) fun hrank =>
      hne (List.inj_on_of_nodup_map hnodup ha hb hrank)
  refine ⟨?_, fun e he => (mem_entries_iff h).1 (hmem e he), ?_, fun a ha b hb hout => ?_⟩
  · rw [topItems, htop.length, hperm.length_eq, List.length_map, h.length]
  · have hdistinct : (topItems order kLargestBy traffic limit).Nodup :=
      htop.nodup (hperm.nodup_iff.2 hnodup.of_map)
    refine (htop.sorted.and hdistinct).imp_of_mem fun {a b} ha hb hab => ?_
    exact hlt a (hmem a ha) b (hmem b hb) hab.2 hab.1
  · have hb' := (mem_entries_iff h).2 hb
    refine hlt a (hmem a ha) b hb' (fun hab => hout (hab ▸ ha)) ?_
    exact htop.before_of_notMem ha (hperm.symm.subset hb') hout

/-- The order of a hash map and the way to select do not matter. -/
theorem topItems_congr {κ : Type} [Key κ] (traffic : Traffic κ)
    (order order' : IterOrder (κ × RunningTrafficStats))
    (kLargestBy kLargestBy' : KLargestBy κ) :
    topItems order kLargestBy traffic limit = topItems order' kLargestBy' traffic limit := by
  have hperm := order.perm (traffic.entries.map fun e => (e.1, e.2))
  have hperm' := order'.perm (traffic.entries.map fun e => (e.1, e.2))
  refine (kLargestBy.topOf limit _).eq_of_perm (kLargestBy'.topOf limit _) compareTraffic_ne_lt
    (hperm.trans hperm'.symm) ?_
  exact (hperm.map trafficRank).nodup_iff.2 (nodup_trafficRank traffic)

end Table

/-- **The tables of the report**: after any run each of them lists the first of the
traffic, whatever the order of the hash maps and the way to select, and the report
counts the keys that there are. -/
theorem top_traffic (F : Type) [Arithmetic F] (width : Option IntervalWidth) (seen : List Seen)
    (limit : ℕ) (ipOrder : IterOrder (IpAddr × RunningTrafficStats)) (ipLargest : KLargestBy IpAddr)
    (portOrder : IterOrder (UInt16 × RunningTrafficStats)) (portLargest : KLargestBy UInt16) :
    let stats := (Analysis.noteAll width seen : Analysis F).stats
    let metadata := seen.filterMap Seen.metadata?
    let srcPort := fun m : PacketMetadata => some (m.srcPort.getD 0)
    let dstPort := fun m : PacketMetadata => some (m.dstPort.getD 0)
    TopTable PacketMetadata.srcIp metadata limit (stats.topSrcIps ipOrder ipLargest limit) ∧
    TopTable PacketMetadata.dstIp metadata limit (stats.topDstIps ipOrder ipLargest limit) ∧
    TopTable srcPort metadata limit (stats.topSrcPorts portOrder portLargest limit) ∧
    TopTable dstPort metadata limit (stats.topDstPorts portOrder portLargest limit) ∧
    stats.uniqueSrcIps = (metadata.filterMap PacketMetadata.srcIp).toFinset.card ∧
    stats.uniqueDstIps = (metadata.filterMap PacketMetadata.dstIp).toFinset.card ∧
    stats.uniqueSrcPorts = (metadata.filterMap srcPort).toFinset.card ∧
    stats.uniqueDstPorts = (metadata.filterMap dstPort).toFinset.card ∧
    (∀ ipOrder' ipLargest', stats.topSrcIps ipOrder ipLargest limit =
        stats.topSrcIps ipOrder' ipLargest' limit ∧
      stats.topDstIps ipOrder ipLargest limit = stats.topDstIps ipOrder' ipLargest' limit) ∧
    (∀ portOrder' portLargest', stats.topSrcPorts portOrder portLargest limit =
        stats.topSrcPorts portOrder' portLargest' limit ∧
      stats.topDstPorts portOrder portLargest limit =
        stats.topDstPorts portOrder' portLargest' limit) := by
  intro stats metadata srcPort dstPort
  have h : MetadataTotals metadata stats := (noteAll_totals width seen).metadata
  refine ⟨topItems_table h.srcIpTraffic .., topItems_table h.dstIpTraffic ..,
    topItems_table h.srcPortTraffic .., topItems_table h.dstPortTraffic ..,
    h.srcIpTraffic.length, h.dstIpTraffic.length, h.srcPortTraffic.length,
    h.dstPortTraffic.length, ?_, ?_⟩
  · exact fun ipOrder' ipLargest' => ⟨topItems_congr .., topItems_congr ..⟩
  · exact fun portOrder' portLargest' => ⟨topItems_congr .., topItems_congr ..⟩

/-- Two packets of one length, from `10.0.0.1` and from `10.0.0.2`. -/
def tiedSources : List Seen :=
  [.parsed { timestamp := I64.ofInt 0, length := 60, srcIp := some (.v4 0x0A000001) } 46,
    .parsed { timestamp := I64.ofInt 1, length := 60, srcIp := some (.v4 0x0A000002) } 46]

/-- Their table, by sorting: of two keys with the same traffic the lower one is listed. -/
theorem top_traffic_tied :
    let stats := (Analysis.noteAll none tiedSources : Analysis ℚ).stats
    let top := stats.topSrcIps .asListed (.bySorting trafficRank compareTraffic_ne_lt) 1
    TopTable PacketMetadata.srcIp (tiedSources.filterMap Seen.metadata?) 1 top ∧
      top = [(.v4 0x0A000001, ⟨1, 60⟩)] ∧ stats.uniqueSrcIps = 2 := by
  let lower : IpAddr × RunningTrafficStats := (.v4 0x0A000001, ⟨1, 60⟩)
  let upper : IpAddr × RunningTrafficStats := (.v4 0x0A000002, ⟨1, 60⟩)
  have hentries : (Analysis.noteAll none tiedSources : Analysis ℚ).stats.srcIpTraffic.entries.map
      (fun e => (e.1, e.2)) = [upper, lower] := by
    decide +kernel
  have hsorted : [lower, upper].Pairwise fun a b => trafficRank a ≤ trafficRank b :=
    List.pairwise_pair.2 ((compareTraffic_ne_lt lower upper).1 (by decide))
  refine ⟨(top_traffic ℚ none tiedSources 1 .asListed
    (.bySorting trafficRank compareTraffic_ne_lt) .asListed
    (.bySorting trafficRank compareTraffic_ne_lt)).1, ?_, by decide +kernel⟩
  show (sortByKey trafficRank (List.map _ _)).take 1 = _
  rw [hentries, sortByKey_eq_of_perm (hentries ▸ nodup_trafficRank _) hsorted (.swap ..)]
  rfl

end Capinfo
end Maja
