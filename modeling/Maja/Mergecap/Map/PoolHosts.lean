/-
# The addresses of a pool

`Pool::addr_at` of `tools/maja-mergecap/src/map/pool.rs` over several networks.  A
network is an interval of the numbers of its family, and its hosts are those of the
interval less the ends that IPv4 keeps out.  The cumulative counts make the pool
the concatenation of the hosts of its networks, in the order of the intervals, as
long as the counts do not saturate and no two networks overlap.
-/

import Maja.Mergecap.Map.Packet
import Mathlib.Algebra.Order.BigOperators.Group.List

namespace Maja
namespace Mergecap

open Lib

/-! ### A network is an interval -/

section

variable {w prefixLen : ℕ} (addr : BitVec w)

/-- The base of a network is its address, rounded down. -/
theorem toNat_network : (network addr prefixLen).toNat =
    addr.toNat / 2 ^ (w - prefixLen) * 2 ^ (w - prefixLen) := by
  refine Nat.eq_of_testBit_eq fun i => ?_
  rw [BitVec.testBit_toNat, getLsbD_network, Nat.testBit_mul_two_pow, Nat.testBit_div_two_pow,
    BitVec.testBit_toNat]
  by_cases hi : w - prefixLen ≤ i
  · simp [hi, show w ≤ prefixLen + i by omega, Nat.sub_add_cancel hi]
  · simp [hi, show ¬w ≤ prefixLen + i by omega]

/-- A network ends within its family. -/
theorem toNat_network_add_le (hlen : prefixLen ≤ w) :
    (network addr prefixLen).toNat + 2 ^ (w - prefixLen) ≤ 2 ^ w := by
  have hpow : 2 ^ w = 2 ^ prefixLen * 2 ^ (w - prefixLen) := by
    rw [← pow_add, Nat.add_sub_cancel' hlen]
  have hlt : addr.toNat / 2 ^ (w - prefixLen) < 2 ^ prefixLen :=
    Nat.div_lt_of_lt_mul (by rw [Nat.mul_comm, ← hpow]; exact addr.isLt)
  calc (network addr prefixLen).toNat + 2 ^ (w - prefixLen)
      = (addr.toNat / 2 ^ (w - prefixLen) + 1) * 2 ^ (w - prefixLen) := by
        rw [toNat_network, Nat.succ_mul]
    _ ≤ 2 ^ prefixLen * 2 ^ (w - prefixLen) := Nat.mul_le_mul_right _ hlt
    _ = 2 ^ w := hpow.symm

/-- The address at an offset from the base. -/
theorem toNat_network_add (hlen : prefixLen ≤ w) {offset : ℕ} (h : offset < 2 ^ (w - prefixLen)) :
    (network addr prefixLen + BitVec.ofNat w offset).toNat =
      (network addr prefixLen).toNat + offset := by
  have hle := toNat_network_add_le addr hlen
  rw [BitVec.toNat_add, BitVec.toNat_ofNat, Nat.add_mod_mod, Nat.mod_eq_of_lt (by omega)]

/-- **Two addresses are of one network** when one lies in the interval of the
other. -/
theorem network_eq_iff (other : BitVec w) : network other prefixLen = network addr prefixLen ↔
    (network addr prefixLen).toNat ≤ other.toNat ∧
      other.toNat < (network addr prefixLen).toNat + 2 ^ (w - prefixLen) := by
  have hpos : 0 < 2 ^ (w - prefixLen) := Nat.two_pow_pos _
  rw [← BitVec.toNat_inj, toNat_network, toNat_network, Nat.mul_left_inj hpos.ne',
    Nat.div_eq_iff hpos]
  omega

end

namespace IpNet

/-- How many addresses a network has. -/
def size (net : IpNet) : ℕ := 2 ^ ((Family.ofNet net).bits - net.prefixLen)

/-- `network` of `ipnet`, as an address. -/
def networkAddr : IpNet → IpAddr
  | .v4 addr len => .v4 (network addr len)
  | .v6 addr len => .v6 (network addr len)

/-- `broadcast` of `ipnet`: the last address. -/
def broadcastAddr : IpNet → IpAddr
  | .v4 addr len => .v4 (network addr len ||| hostmask 32 len)
  | .v6 addr len => .v6 (network addr len ||| hostmask 128 len)

/-- IPv4 keeps the first and the last address of a prefix up to `/30` for itself. -/
def keepsEnds (net : IpNet) : Prop := Family.ofNet net = .v4 ∧ net.prefixLen ≤ 30

/-- The addresses of a network that a host may have. -/
def Usable (net : IpNet) (addr : IpAddr) : Prop :=
  net.contains addr ∧ (net.keepsEnds → addr ≠ net.networkAddr ∧ addr ≠ net.broadcastAddr)

/-- Two networks have no address in common. -/
def Apart (a b : IpNet) : Prop := ∀ addr, ¬(a.contains addr ∧ b.contains addr)

end IpNet

/-- An address is told by its family and its number. -/
theorem addrToU128_inj {a b : IpAddr} (hfamily : Family.ofAddr a = Family.ofAddr b)
    (h : addrToU128 a = addrToU128 b) : a = b := by
  cases a with
  | v4 a =>
      cases b with
      | v4 b => exact congrArg IpAddr.v4 (BitVec.eq_of_toNat_eq h)
      | v6 b => cases hfamily
  | v6 a =>
      cases b with
      | v4 b => cases hfamily
      | v6 b => exact congrArg IpAddr.v6 (BitVec.eq_of_toNat_eq h)

variable {net : IpNet} {addr : IpAddr}

/-- The network address is where the network starts. -/
theorem addrToU128_networkAddr (net : IpNet) : addrToU128 net.networkAddr = netBase net := by
  cases net <;> rfl

/-- The network address is of the family of the network. -/
theorem ofAddr_networkAddr (net : IpNet) : Family.ofAddr net.networkAddr = Family.ofNet net := by
  cases net <;> rfl

/-- **A network contains the numbers of an interval.** -/
theorem IpNet.contains_iff : net.contains addr ↔
    Family.ofAddr addr = Family.ofNet net ∧
      netBase net ≤ addrToU128 addr ∧ addrToU128 addr < netBase net + net.size := by
  cases net with
  | v4 base len =>
      cases addr with
      | v4 bits =>
          rw [contains, decide_eq_true_iff, network_eq_iff]
          exact (and_iff_right rfl).symm
      | v6 bits => simp [contains, Family.ofAddr, Family.ofNet]
  | v6 base len =>
      cases addr with
      | v4 bits => simp [contains, Family.ofAddr, Family.ofNet]
      | v6 bits =>
          rw [contains, decide_eq_true_iff, network_eq_iff]
          exact (and_iff_right rfl).symm

/-- A network has an address. -/
theorem IpNet.size_pos (net : IpNet) : 0 < net.size := Nat.two_pow_pos _

/-- The base is in the network. -/
theorem IpNet.contains_networkAddr (net : IpNet) : net.contains net.networkAddr := by
  rw [contains_iff, addrToU128_networkAddr]
  exact ⟨ofAddr_networkAddr net, le_rfl, Nat.lt_add_of_pos_right net.size_pos⟩

/-- The address at an offset from the base has the number at this offset. -/
theorem addrToU128_plus {offset : ℕ} (h : offset < net.size) :
    addrToU128 (net.plus offset) = netBase net + offset := by
  cases net with
  | v4 base len => exact toNat_network_add base (by omega) h
  | v6 base len => exact toNat_network_add base (by omega) h

/-- An address of a network is of its family. -/
theorem ofAddr_plus (net : IpNet) (offset : ℕ) :
    Family.ofAddr (net.plus offset) = Family.ofNet net := by
  cases net <;> rfl

/-- The host mask is the largest host. -/
theorem hostmask_eq_ofNat (w prefixLen : ℕ) :
    hostmask w prefixLen = BitVec.ofNat w (2 ^ (w - prefixLen) - 1) := by
  refine BitVec.eq_of_getLsbD_eq fun i hi => ?_
  rw [hostmask, BitVec.getLsbD_ushiftRight, BitVec.getLsbD_allOnes, BitVec.getLsbD_ofNat,
    Nat.testBit_two_pow_sub_one, decide_eq_true hi, Bool.true_and]
  exact decide_eq_decide.2 (by omega)

/-- The broadcast address is the last one. -/
theorem broadcastAddr_eq_plus (net : IpNet) : net.broadcastAddr = net.plus (net.size - 1) := by
  have hlt : net.size - 1 < net.size := Nat.sub_lt net.size_pos Nat.one_pos
  cases net with
  | v4 base len =>
      rw [IpNet.broadcastAddr, hostmask_eq_ofNat]
      exact congrArg IpAddr.v4 (network_add_host base hlt).symm
  | v6 base len =>
      rw [IpNet.broadcastAddr, hostmask_eq_ofNat]
      exact congrArg IpAddr.v6 (network_add_host base hlt).symm

/-- What is skipped, and what is counted, of a network that `u128` can count. -/
theorem hostCount_cases (h : net.size < U128_MAX) :
    net.keepsEnds ∧ hostSkip net = 1 ∧ hostCount net + 2 = net.size ∨
      ¬net.keepsEnds ∧ hostSkip net = 0 ∧ hostCount net = net.size := by
  cases net with
  | v4 base len =>
      have hkeeps : (IpNet.v4 base len).keepsEnds ↔ 32 - (len : ℕ) > 1 := by
        simp only [IpNet.keepsEnds, Family.ofNet, IpNet.prefixLen, true_and]
        omega
      rw [hkeeps, hostCount_v4, hostSkip]
      have hsize : (IpNet.v4 base len).size = 2 ^ (32 - (len : ℕ)) := rfl
      rw [hsize]
      split_ifs with hlen
      · have : 2 ^ 2 ≤ 2 ^ (32 - (len : ℕ)) := Nat.pow_le_pow_right (by norm_num) hlen
        exact .inl ⟨hlen, rfl, by omega⟩
      · exact .inr ⟨hlen, rfl, rfl⟩
  | v6 base len =>
      have hsize : (IpNet.v6 base len).size = 2 ^ (128 - (len : ℕ)) := rfl
      have hlen : 128 - (len : ℕ) < 128 := by
        rw [hsize, U128_MAX] at h
        exact (Nat.pow_lt_pow_iff_right (by norm_num)).1 (h.trans (by norm_num))
      refine .inr ⟨fun hkeeps => ?_, rfl, ?_⟩
      · cases hkeeps.1
      · rw [hostCount_v6, if_pos hlen, hsize]

/-- **The usable addresses of a network are an interval**, behind what is skipped
and as long as what is counted. -/
theorem IpNet.usable_iff (h : net.size < U128_MAX) : net.Usable addr ↔
    Family.ofAddr addr = Family.ofNet net ∧ netBase net + hostSkip net ≤ addrToU128 addr ∧
      addrToU128 addr < netBase net + hostSkip net + hostCount net := by
  rw [Usable, contains_iff]
  obtain ⟨hkeeps, hskip, hcount⟩ | ⟨hkeeps, hskip, hcount⟩ := hostCount_cases h
  · have hlast : addrToU128 net.broadcastAddr = netBase net + (net.size - 1) := by
      rw [broadcastAddr_eq_plus, addrToU128_plus (Nat.sub_lt net.size_pos Nat.one_pos)]
    have hfirst := addrToU128_networkAddr net
    constructor
    · rintro ⟨⟨hfamily, hle, hlt⟩, hends⟩
      obtain ⟨hnetwork, hbroadcast⟩ := hends hkeeps
      have hne : addrToU128 addr ≠ netBase net := fun heq =>
        hnetwork (addrToU128_inj (hfamily.trans (ofAddr_networkAddr net).symm)
          (heq.trans hfirst.symm))
      have hne' : addrToU128 addr ≠ netBase net + (net.size - 1) := fun heq =>
        hbroadcast (addrToU128_inj
          (by rw [hfamily, broadcastAddr_eq_plus, ofAddr_plus]) (heq.trans hlast.symm))
      exact ⟨hfamily, by omega, by omega⟩
    · rintro ⟨hfamily, hle, hlt⟩
      refine ⟨⟨hfamily, by omega, by omega⟩, fun _ => ⟨?_, ?_⟩⟩
      · rintro rfl
        omega
      · rintro rfl
        omega
  · rw [hskip, hcount, Nat.add_zero]
    exact ⟨fun hfacts => hfacts.1, fun hfacts => ⟨hfacts, fun hkeeps' => absurd hkeeps' hkeeps⟩⟩

/-- The hosts of a network, in the order of `host_at`. -/
def hosts (net : IpNet) : List IpAddr := (List.range (hostCount net)).map (hostAt net)

/-- A host is told by its index: it has the number behind what is skipped. -/
theorem addrToU128_hostAt {index : ℕ} (h : index < hostCount net) :
    addrToU128 (hostAt net index) = netBase net + hostSkip net + index := by
  have hle : hostCount net + hostSkip net ≤ net.size := hostCount_add_skip_le net
  rw [hostAt_eq_plus h, addrToU128_plus (by omega)]
  omega

/-- **The hosts of a network are its usable addresses.** -/
theorem mem_hosts (h : net.size < U128_MAX) : addr ∈ hosts net ↔ net.Usable addr := by
  rw [IpNet.usable_iff h, hosts, List.mem_map]
  constructor
  · rintro ⟨index, hindex, rfl⟩
    have hindex := List.mem_range.1 hindex
    rw [addrToU128_hostAt hindex]
    refine ⟨?_, by omega, by omega⟩
    rw [hostAt_eq_plus hindex, ofAddr_plus]
  · rintro ⟨hfamily, hle, hlt⟩
    have hindex : addrToU128 addr - (netBase net + hostSkip net) < hostCount net := by omega
    refine ⟨_, List.mem_range.2 hindex, addrToU128_inj ?_ ?_⟩
    · rw [hostAt_eq_plus hindex, ofAddr_plus, hfamily]
    · rw [addrToU128_hostAt hindex]
      omega

/-- The hosts of a network come in the order of their numbers. -/
theorem pairwise_hosts (net : IpNet) :
    (hosts net).Pairwise fun a b => addrToU128 a < addrToU128 b := by
  rw [hosts, List.pairwise_map]
  refine List.pairwise_lt_range.imp_of_mem fun hi hj hij => ?_
  rw [addrToU128_hostAt (List.mem_range.1 hi), addrToU128_hostAt (List.mem_range.1 hj)]
  omega

/-- A host does not lie in front of its network. -/
theorem base_le_of_mem_hosts (h : addr ∈ hosts net) : netBase net ≤ addrToU128 addr := by
  obtain ⟨index, hindex, rfl⟩ := List.mem_map.1 h
  rw [addrToU128_hostAt (List.mem_range.1 hindex)]
  omega

/-- A host does not lie behind its network. -/
theorem lt_base_of_mem_hosts (h : addr ∈ hosts net) : addrToU128 addr < netBase net + net.size := by
  obtain ⟨index, hindex, rfl⟩ := List.mem_map.1 h
  have hindex := List.mem_range.1 hindex
  have hle : hostCount net + hostSkip net ≤ net.size := hostCount_add_skip_le net
  rw [addrToU128_hostAt hindex]
  omega

/-- **Of two networks that are apart, one lies behind the other.** -/
theorem IpNet.Apart.base_le {a b : IpNet} (h : a.Apart b)
    (hfamily : Family.ofNet a = Family.ofNet b) (hbase : netBase a ≤ netBase b) :
    netBase a + a.size ≤ netBase b := by
  by_contra hlt
  refine h b.networkAddr ⟨contains_iff.2 ⟨?_, ?_, ?_⟩, b.contains_networkAddr⟩
  · rw [ofAddr_networkAddr, hfamily]
  · rwa [addrToU128_networkAddr]
  · rw [addrToU128_networkAddr]
    omega

/-! ### The pool is a concatenation -/

namespace Pool

/-- The walk of `addr_at`, for an index below the total. -/
def find (nets : List (IpNet × ℕ)) (index : ℕ) : Option IpAddr :=
  nets[(nets.takeWhile fun net => net.2 ≤ index).length]?.map fun net =>
    hostAt net.1 (index - (net.2 - hostCount net.1))

/-- An index inside the pool is looked for in its networks. -/
theorem addrAt_eq_find {pool : Pool} {index : ℕ} (h : index < pool.total) :
    pool.addrAt index = find pool.nets index := by
  rw [addrAt, if_neg (Nat.ne_zero_of_lt h), Nat.mod_eq_of_lt h, find]

variable {nets : List IpNet} {total index : ℕ}

/-- The total of a pool whose counts do not saturate. -/
theorem total_accumulate (h : total + (nets.map hostCount).sum ≤ U128_MAX) :
    (accumulate total nets).total = total + (nets.map hostCount).sum := by
  induction nets generalizing total with
  | nil => rfl
  | cons net nets ih =>
      rw [List.map_cons, List.sum_cons] at h ⊢
      have hmin : min (total + hostCount net) U128_MAX = total + hostCount net :=
        Nat.min_eq_left (by omega)
      show (accumulate (min (total + hostCount net) U128_MAX) nets).total = _
      rw [hmin, ih (by omega)]
      omega

/-- **The cumulative counts make a concatenation**: the walk finds the host at the
index in the hosts of all networks, one network behind the other. -/
theorem find_accumulate (h : total + (nets.map hostCount).sum ≤ U128_MAX) (hle : total ≤ index) :
    find (accumulate total nets).nets index = (nets.flatMap hosts)[index - total]? := by
  induction nets generalizing total with
  | nil => rfl
  | cons net nets ih =>
      rw [List.map_cons, List.sum_cons] at h
      have hmin : min (total + hostCount net) U128_MAX = total + hostCount net :=
        Nat.min_eq_left (by omega)
      have hnets : (accumulate total (net :: nets)).nets =
          (net, total + hostCount net) :: (accumulate (total + hostCount net) nets).nets := by
        simp only [accumulate, hmin]
      have hlength : (hosts net).length = hostCount net := by
        rw [hosts, List.length_map, List.length_range]
      rw [hnets, List.flatMap_cons]
      by_cases hnext : total + hostCount net ≤ index
      · -- the partition point is behind this network
        have hrest : find (accumulate (total + hostCount net) nets).nets index = _ :=
          ih (by omega) hnext
        rw [List.getElem?_append_right (by omega), hlength, Nat.sub_sub, ← hrest]
        simp only [find, List.takeWhile_cons, decide_eq_true hnext, if_true, List.length_cons,
          List.getElem?_cons_succ]
      · have hindex : index - total < hostCount net := by omega
        rw [List.getElem?_append_left (by omega)]
        simp [find, hnext, hosts, hindex]

/-! ### Networks that are apart -/

/-- No network is repeated, so `dedup` removes none. -/
theorem fromNets_eq_accumulate (hapart : nets.Pairwise IpNet.Apart) :
    fromNets nets = accumulate 0 (sortByKey sortKey nets) := by
  have hne : (sortByKey sortKey nets).Pairwise (· ≠ ·) := by
    refine ((sortByKey_perm sortKey nets).pairwise_iff fun h => h.symm).2 (hapart.imp ?_)
    rintro a b h rfl
    exact h a.networkAddr ⟨a.contains_networkAddr, a.contains_networkAddr⟩
  rw [fromNets, List.destutter_of_isChain _ _ hne.isChain]

/-- The sort puts every network behind the end of those before it. -/
theorem pairwise_sortByKey {family : Family} (hfamily : ∀ net ∈ nets, Family.ofNet net = family)
    (hapart : nets.Pairwise IpNet.Apart) :
    (sortByKey sortKey nets).Pairwise fun a b => netBase a + a.size ≤ netBase b := by
  have hperm := sortByKey_perm sortKey nets
  have hsymm : ∀ {a b : IpNet}, a.Apart b → b.Apart a := fun h addr haddr => h addr haddr.symm
  have hsort := (stablySorted_sortByKey sortKey nets).sorted
  refine (hsort.and ((hperm.pairwise_iff hsymm).2 hapart)).imp_of_mem ?_
  rintro a b ha hb ⟨hle, hab⟩
  have hfamily : Family.ofNet a = Family.ofNet b :=
    (hfamily a (hperm.mem_iff.1 ha)).trans (hfamily b (hperm.mem_iff.1 hb)).symm
  refine hab.base_le hfamily ?_
  rw [sortKey, sortKey, hfamily, Prod.Lex.toLex_le_toLex] at hle
  obtain hlt | ⟨-, hle⟩ := hle
  · exact absurd hlt (lt_irrefl _)
  · rw [Prod.Lex.toLex_le_toLex] at hle
    obtain hlt | ⟨heq, -⟩ := hle
    · exact hlt.le
    · exact heq.le

/-- A network has no more hosts than addresses. -/
theorem hostCount_le_size (net : IpNet) : hostCount net ≤ net.size :=
  (Nat.le_add_right _ _).trans (hostCount_add_skip_le net)

variable {family : Family}

/-- **`addr_at` is an order-preserving bijection.**  For networks of one family, no
two of which overlap, and fewer addresses than `u128` counts: every index below the
length has an address, a larger index has a larger one, and these addresses are
those of the networks that a host may have. -/
theorem addrAt_bijective (hfamily : ∀ net ∈ nets, Family.ofNet net = family)
    (hapart : nets.Pairwise IpNet.Apart) (hsize : (nets.map IpNet.size).sum < 2 ^ 128 - 1) :
    (∀ i, i < (fromNets nets).len → ∃ addr, (fromNets nets).addrAt i = some addr) ∧
      (∀ i j a b, i < j → j < (fromNets nets).len → (fromNets nets).addrAt i = some a →
        (fromNets nets).addrAt j = some b → addrToU128 a < addrToU128 b) ∧
      ∀ addr, (∃ i < (fromNets nets).len, (fromNets nets).addrAt i = some addr) ↔
        ∃ net ∈ nets, net.Usable addr := by
  have hperm := sortByKey_perm sortKey nets
  set sorted := sortByKey sortKey nets with hsorted
  -- nothing saturates
  have hcounts : (sorted.map hostCount).sum ≤ (nets.map IpNet.size).sum := by
    rw [(hperm.map hostCount).sum_eq]
    exact List.sum_le_sum fun net _ => hostCount_le_size net
  have hfits : 0 + (sorted.map hostCount).sum ≤ U128_MAX := by
    rw [U128_MAX]
    omega
  have hpool := fromNets_eq_accumulate hapart
  rw [← hsorted] at hpool
  -- the pool is the concatenation of the hosts
  have hlength : (sorted.flatMap hosts).length = (fromNets nets).len := by
    rw [len, hpool, total_accumulate hfits, List.length_flatMap, Nat.zero_add]
    simp [hosts]
  have haddr : ∀ i < (fromNets nets).len,
      (fromNets nets).addrAt i = (sorted.flatMap hosts)[i]? := by
    intro i hi
    rw [addrAt_eq_find hi, hpool, find_accumulate hfits (Nat.zero_le i), Nat.sub_zero]
  -- whose numbers increase
  have hincreasing : (sorted.flatMap hosts).Pairwise fun a b => addrToU128 a < addrToU128 b := by
    rw [List.pairwise_flatMap]
    refine ⟨fun net _ => pairwise_hosts net, (pairwise_sortByKey hfamily hapart).imp ?_⟩
    intro a b hbase x hx y hy
    exact (lt_base_of_mem_hosts hx).trans_le (hbase.trans (base_le_of_mem_hosts hy))
  refine ⟨fun i hi => ?_, fun i j a b hij hj ha hb => ?_, fun addr => ?_⟩
  · rw [haddr i hi, List.getElem?_eq_getElem (by rwa [hlength])]
    exact ⟨_, rfl⟩
  · rw [haddr i (hij.trans hj)] at ha
    rw [haddr j hj] at hb
    obtain ⟨hi, rfl⟩ := List.getElem?_eq_some_iff.1 ha
    obtain ⟨hj, rfl⟩ := List.getElem?_eq_some_iff.1 hb
    exact List.pairwise_iff_getElem.1 hincreasing i j hi hj hij
  · have husable : (∃ net ∈ nets, net.Usable addr) ↔ addr ∈ sorted.flatMap hosts := by
      rw [List.mem_flatMap]
      refine exists_congr fun net => ?_
      rw [hperm.mem_iff]
      refine and_congr_right fun hnet => (mem_hosts ?_).symm
      have hmem : net.size ∈ nets.map IpNet.size := List.mem_map_of_mem hnet
      have hle := List.single_le_sum (fun _ _ => Nat.zero_le _) _ hmem
      rw [U128_MAX]
      omega
    rw [husable, List.mem_iff_getElem?]
    refine exists_congr fun i => ⟨fun h => (haddr i h.1) ▸ h.2, fun h => ?_⟩
    have hi : i < (fromNets nets).len := by
      rw [← hlength]
      exact (List.getElem?_eq_some_iff.1 h).1
    exact ⟨hi, (haddr i hi).trans h⟩

/-- The two hosts of `192.168.0.0/30` come behind both addresses of `10.0.0.0/31`. -/
theorem addrAt_bijective_two :
    ∃ i < (fromNets [.v4 0xC0A80000 30, .v4 0x0A000000 31]).len,
      (fromNets [.v4 0xC0A80000 30, .v4 0x0A000000 31]).addrAt i = some (.v4 0xC0A80002) := by
  have hapart : [IpNet.v4 0xC0A80000 30, .v4 0x0A000000 31].Pairwise IpNet.Apart := by
    refine List.pairwise_pair.2 ?_
    rintro addr ⟨ha, hb⟩
    rw [IpNet.contains_iff] at ha hb
    have hnetwork : netBase (.v4 0xC0A80000 30) = 0xC0A80000 := by decide
    have hlast : netBase (.v4 0x0A000000 31) + (IpNet.v4 0x0A000000 31).size = 0x0A000002 := by
      decide
    omega
  have hfamily : ∀ net ∈ [IpNet.v4 0xC0A80000 30, .v4 0x0A000000 31], Family.ofNet net = .v4 := by
    decide
  refine ((addrAt_bijective hfamily hapart (by decide)).2.2 _).2 ⟨.v4 0xC0A80000 30, by decide, ?_⟩
  exact ⟨by decide, fun _ => by decide⟩

end Pool

end Mergecap
end Maja
