/-
# Address pools

`tools/maja-mergecap/src/map/pool.rs`, and what it uses of the `ipnet` crate: a
network contains the addresses of its family that agree with it on the bits above
the host bits.

A `u128` is a natural number, cut where the source wraps and capped where it
saturates.  The generator is any that returns numbers of the range it is asked
for.
-/

import Maja.Lib.StableSort
import Maja.Mergecap.Config
import Mathlib.Data.List.Destutter
import Mathlib.Data.Prod.Lex

namespace Maja
namespace Mergecap

open Lib

/-! ### Networks -/

/-- `hostmask` of a `w`-bit network: ones below the prefix. -/
def hostmask (w prefixLen : ℕ) : BitVec w := BitVec.allOnes w >>> prefixLen

/-- `network` of a `w`-bit network: the address without its host bits. -/
def network {w : ℕ} (addr : BitVec w) (prefixLen : ℕ) : BitVec w :=
  addr &&& ~~~hostmask w prefixLen

/-- `IpNet::contains`. -/
def IpNet.contains : IpNet → IpAddr → Bool
  | .v4 net len, .v4 addr => network addr len = network net len
  | .v6 net len, .v6 addr => network addr len = network net len
  | _, _ => false

/-- `Family`. -/
inductive Family where
  | v4
  | v6
  deriving DecidableEq, Repr

namespace Family

/-- `Family::of_addr`. -/
def ofAddr : IpAddr → Family
  | .v4 _ => v4
  | .v6 _ => v6

/-- `Family::of_net`. -/
def ofNet : IpNet → Family
  | .v4 _ _ => v4
  | .v6 _ _ => v6

/-- `Family::index`. -/
def index : Family → ℕ
  | v4 => 0
  | v6 => 1

/-- `Family::bits`. -/
def bits : Family → ℕ
  | v4 => 32
  | v6 => 128

/-- `Family::to_addr`. -/
def toAddr (value : ℕ) : Family → IpAddr
  | v4 => .v4 (BitVec.ofNat 32 value)
  | v6 => .v6 (BitVec.ofNat 128 value)

end Family

/-- `net_base`. -/
def netBase : IpNet → ℕ
  | .v4 net len => (network net len).toNat
  | .v6 net len => (network net len).toNat

/-- `mask_map`. -/
def maskMap : IpNet → IpAddr → Option IpAddr
  | .v4 net len, .v4 addr => some (.v4 (network net len ||| addr &&& hostmask 32 len))
  | .v6 net len, .v6 addr => some (.v6 (network net len ||| addr &&& hostmask 128 len))
  | _, _ => none

/-! ### Random numbers -/

/-- What is used of `StdRng`: seeding, and `random_range` of a range that is not
empty. -/
class StdRng (ρ : Type) where
  seedFromU64 : UInt64 → ρ
  randomRange : (lo hi : ℕ) → lo < hi → ρ → {n : ℕ // lo ≤ n ∧ n < hi} × ρ

/-- The generator that returns the least number of every range. -/
inductive LeastRng where
  | mk

instance : StdRng LeastRng where
  seedFromU64 _ := .mk
  randomRange lo _ h rng := (⟨lo, le_rfl, h⟩, rng)

/-! ### Pools -/

/-- `u128::MAX`. -/
@[simp] def U128_MAX : ℕ := 2 ^ 128 - 1

/-- `host_count`. -/
def hostCount (net : IpNet) : ℕ :=
  let hostBits := (Family.ofNet net).bits - net.prefixLen
  let total := if hostBits < 128 then 2 ^ hostBits else U128_MAX
  match net with
  | .v4 _ _ => if hostBits > 1 then total - 2 else total
  | .v6 _ _ => total

/-- `host_at`. -/
def hostAt (net : IpNet) (index : ℕ) : IpAddr :=
  let hostBits := (Family.ofNet net).bits - net.prefixLen
  let offset :=
    match net with
    | .v4 _ _ => if hostBits > 1 then (index + 1) % 2 ^ 128 else index
    | .v6 _ _ => index
  (Family.ofNet net).toAddr ((netBase net + offset) % 2 ^ 128)

/-- `Pool`: networks with their cumulative host count, and the last of these. -/
structure Pool where
  nets : List (IpNet × ℕ)
  total : ℕ
  deriving DecidableEq, Repr

namespace Pool

/-- The loop of `from_nets`, from a total on. -/
def accumulate : ℕ → List IpNet → Pool
  | total, [] => ⟨[], total⟩
  | total, net :: nets =>
      let total := min (total + hostCount net) U128_MAX
      let rest := accumulate total nets
      ⟨(net, total) :: rest.nets, rest.total⟩

/-- What `from_nets` sorts networks by. -/
def sortKey (net : IpNet) : ℕ ×ₗ ℕ ×ₗ ℕ :=
  toLex ((Family.ofNet net).index, toLex (netBase net, net.prefixLen))

/-- `Pool::from_nets`. -/
def fromNets (nets : List IpNet) : Pool :=
  accumulate 0 ((sortByKey sortKey nets).destutter (· ≠ ·))

/-- `Pool::len`. -/
def len (pool : Pool) : ℕ := pool.total

/-- `Pool::addr_at`.  The cumulative counts do not decrease, so the partition point
is behind the counts up to the index; there is a network there. -/
def addrAt (pool : Pool) (index : ℕ) : Option IpAddr :=
  if pool.total = 0 then none
  else
    let index := index % pool.total
    let pos := (pool.nets.takeWhile fun net => net.2 ≤ index).length
    pool.nets[pos]?.map fun net => hostAt net.1 (index - (net.2 - hostCount net.1))

/-- `Pool::choose`. -/
def choose {ρ : Type} [StdRng ρ] (pool : Pool) (rng : ρ) : Option IpAddr × ρ :=
  if h : 0 < pool.total then
    let (index, rng) := StdRng.randomRange 0 pool.total h rng
    (pool.addrAt index, rng)
  else (none, rng)

end Pool

/-! ### The hosts of a network -/

section

variable {w prefixLen : ℕ} (addr : BitVec w)

/-- A network keeps the bits from the host bits up. -/
theorem getLsbD_network (i : ℕ) :
    (network addr prefixLen).getLsbD i = (addr.getLsbD i && decide (w ≤ prefixLen + i)) := by
  simp only [network, hostmask, BitVec.getLsbD_and, BitVec.getLsbD_not, BitVec.getLsbD_ushiftRight,
    BitVec.getLsbD_allOnes]
  by_cases hi : i < w
  · simp [hi, ← decide_not]
  · simp [BitVec.getLsbD_of_ge addr i (by omega)]

variable {offset : ℕ}

/-- An offset among the hosts of a network has no bit in the prefix. -/
theorem getLsbD_ofNat_host (h : offset < 2 ^ (w - prefixLen)) (i : ℕ) :
    (BitVec.ofNat w offset).getLsbD i = (offset.testBit i && decide (prefixLen + i < w)) := by
  rw [BitVec.getLsbD_ofNat]
  by_cases hi : prefixLen + i < w
  · simp [hi, show i < w by omega]
  · have hbit : offset.testBit i = false :=
      Nat.testBit_lt_two_pow (h.trans_le (Nat.pow_le_pow_right (by norm_num) (by omega)))
    simp [hbit]

/-- Host bits are added to a network without a carry. -/
theorem network_add_host (h : offset < 2 ^ (w - prefixLen)) :
    network addr prefixLen + BitVec.ofNat w offset =
      network addr prefixLen ||| BitVec.ofNat w offset := by
  refine BitVec.add_eq_or_of_and_eq_zero _ _ (BitVec.eq_of_getLsbD_eq fun i _ => ?_)
  rw [BitVec.getLsbD_and, getLsbD_network, getLsbD_ofNat_host h, BitVec.getLsbD_zero]
  by_cases hi : prefixLen + i < w
  · simp [hi, Nat.not_le.2 hi]
  · simp [hi]

/-- They stay in the network. -/
theorem network_of_host (h : offset < 2 ^ (w - prefixLen)) :
    network (network addr prefixLen + BitVec.ofNat w offset) prefixLen =
      network addr prefixLen := by
  rw [network_add_host addr h]
  refine BitVec.eq_of_getLsbD_eq fun i _ => ?_
  rw [getLsbD_network, BitVec.getLsbD_or, getLsbD_network, getLsbD_ofNat_host h]
  by_cases hi : prefixLen + i < w
  · simp [Nat.not_le.2 hi]
  · simp [hi, Nat.not_lt.1 hi]

end

/-- What `host_at` skips: the network address of an IPv4 network with more than
two addresses. -/
def hostSkip : IpNet → ℕ
  | .v4 _ len => if 32 - (len : ℕ) > 1 then 1 else 0
  | .v6 _ _ => 0

/-- The hosts of an IPv4 network: without the network and broadcast addresses where
there are more than two. -/
theorem hostCount_v4 (addr : BitVec 32) (len : Fin 33) :
    hostCount (.v4 addr len) =
      if 32 - (len : ℕ) > 1 then 2 ^ (32 - (len : ℕ)) - 2 else 2 ^ (32 - (len : ℕ)) := by
  have hlt : 32 - (len : ℕ) < 128 := by omega
  show (if 32 - (len : ℕ) > 1 then (if 32 - (len : ℕ) < 128 then 2 ^ (32 - (len : ℕ)) else _) - 2
    else (if 32 - (len : ℕ) < 128 then 2 ^ (32 - (len : ℕ)) else _)) = _
  rw [if_pos hlt]

/-- The hosts of an IPv6 network, cut to a `u128`. -/
theorem hostCount_v6 (addr : BitVec 128) (len : Fin 129) :
    hostCount (.v6 addr len) = if 128 - (len : ℕ) < 128 then 2 ^ (128 - (len : ℕ)) else U128_MAX :=
  rfl

/-- An IPv4 network loses the two addresses that it skips. -/
theorem hostCount_v4_cases (addr : BitVec 32) (len : Fin 33) :
    hostSkip (.v4 addr len) = 1 ∧ hostCount (.v4 addr len) + 2 = 2 ^ (32 - (len : ℕ)) ∧
        0 < hostCount (.v4 addr len) ∨
      hostSkip (.v4 addr len) = 0 ∧ hostCount (.v4 addr len) = 2 ^ (32 - (len : ℕ)) := by
  rw [hostCount_v4, hostSkip]
  split_ifs with h
  · have : 2 ^ 2 ≤ 2 ^ (32 - (len : ℕ)) := Nat.pow_le_pow_right (by norm_num) h
    exact .inl ⟨rfl, by omega, by omega⟩
  · exact .inr ⟨rfl, rfl⟩

/-- The hosts of a network, with what is skipped in front of them, are addresses
of the network. -/
theorem hostCount_add_skip_le (net : IpNet) :
    hostCount net + hostSkip net ≤ 2 ^ ((Family.ofNet net).bits - net.prefixLen) := by
  cases net with
  | v4 addr len =>
      show _ ≤ 2 ^ (32 - (len : ℕ))
      obtain ⟨hskip, hcount, -⟩ | ⟨hskip, hcount⟩ := hostCount_v4_cases addr len <;> omega
  | v6 addr len =>
      rw [hostCount_v6]
      show _ + 0 ≤ 2 ^ (128 - (len : ℕ))
      split_ifs with h
      · exact le_rfl
      · have hlen : 128 - (len : ℕ) = 128 := by omega
        rw [hlen, U128_MAX]
        omega

/-- Every network has a host. -/
theorem hostCount_pos (net : IpNet) : 0 < hostCount net := by
  cases net with
  | v4 addr len =>
      obtain ⟨-, -, hpos⟩ | ⟨-, hcount⟩ := hostCount_v4_cases addr len
      · exact hpos
      · rw [hcount]
        exact Nat.two_pow_pos _
  | v6 addr len =>
      rw [hostCount_v6]
      split_ifs
      · exact Nat.two_pow_pos _
      · norm_num

/-- The address `offset` behind the base of a network. -/
def IpNet.plus (offset : ℕ) : IpNet → IpAddr
  | .v4 addr len => .v4 (network addr len + BitVec.ofNat 32 offset)
  | .v6 addr len => .v6 (network addr len + BitVec.ofNat 128 offset)

/-- `host_at` adds the index to what it skips, without a wrap. -/
theorem hostAt_eq_plus {net : IpNet} {index : ℕ} (h : index < hostCount net) :
    hostAt net index = net.plus (index + hostSkip net) := by
  have hle := hostCount_add_skip_le net
  cases net with
  | v4 addr len =>
      have hpow : 2 ^ (32 - (len : ℕ)) ≤ 2 ^ 32 := Nat.pow_le_pow_right (by norm_num) (by omega)
      have hle : hostCount (.v4 addr len) + hostSkip (.v4 addr len) ≤ 2 ^ (32 - (len : ℕ)) := hle
      have hoffset : (if 32 - (len : ℕ) > 1 then (index + 1) % 2 ^ 128 else index) =
          index + hostSkip (.v4 addr len) := by
        simp only [hostSkip] at hle ⊢
        split_ifs at hle ⊢
        · exact Nat.mod_eq_of_lt (by omega)
        · rfl
      have hbase := (network addr len).isLt
      show IpAddr.v4 (BitVec.ofNat 32 (((network addr len).toNat +
        if 32 - (len : ℕ) > 1 then (index + 1) % 2 ^ 128 else index) % 2 ^ 128)) = _
      rw [hoffset, Nat.mod_eq_of_lt (by omega), BitVec.ofNat_add, BitVec.ofNat_toNat,
        BitVec.setWidth_eq, IpNet.plus]
  | v6 addr len =>
      show IpAddr.v6 (BitVec.ofNat 128 (((network addr len).toNat + index) % 2 ^ 128)) =
        .v6 (network addr len + BitVec.ofNat 128 index)
      have hmod : BitVec.ofNat 128 (((network addr len).toNat + index) % 2 ^ 128) =
          BitVec.ofNat 128 ((network addr len).toNat + index) :=
        BitVec.eq_of_toNat_eq (by rw [BitVec.toNat_ofNat, BitVec.toNat_ofNat, Nat.mod_mod])
      rw [hmod, BitVec.ofNat_add, BitVec.ofNat_toNat, BitVec.setWidth_eq]

/-- **The hosts of a network lie in it.** -/
theorem contains_hostAt {net : IpNet} {index : ℕ} (h : index < hostCount net) :
    net.contains (hostAt net index) := by
  have hlt : index + hostSkip net < 2 ^ ((Family.ofNet net).bits - net.prefixLen) :=
    (Nat.add_lt_add_right h _).trans_le (hostCount_add_skip_le net)
  rw [hostAt_eq_plus h]
  cases net with
  | v4 addr len => exact decide_eq_true (network_of_host addr hlt)
  | v6 addr len => exact decide_eq_true (network_of_host addr hlt)

/-- The offset from the base of a network is told by the address. -/
theorem IpNet.plus_inj {net : IpNet} {i j : ℕ} (hi : i < 2 ^ (Family.ofNet net).bits)
    (hj : j < 2 ^ (Family.ofNet net).bits) (h : net.plus i = net.plus j) : i = j := by
  have hofNat : ∀ {w : ℕ}, i < 2 ^ w → j < 2 ^ w → BitVec.ofNat w i = BitVec.ofNat w j → i = j := by
    intro w hi hj h
    have := congrArg BitVec.toNat h
    rwa [BitVec.toNat_ofNat, BitVec.toNat_ofNat, Nat.mod_eq_of_lt hi, Nat.mod_eq_of_lt hj] at this
  cases net with
  | v4 addr len => exact hofNat hi hj ((BitVec.add_right_inj _).1 (IpAddr.v4.inj h))
  | v6 addr len => exact hofNat hi hj ((BitVec.add_right_inj _).1 (IpAddr.v6.inj h))

/-- **Different indices are different hosts.** -/
theorem hostAt_injOn (net : IpNet) : Set.InjOn (hostAt net) {i | i < hostCount net} := by
  intro i hi j hj hij
  have hle := hostCount_add_skip_le net
  have hpow : 2 ^ ((Family.ofNet net).bits - net.prefixLen) ≤ 2 ^ (Family.ofNet net).bits :=
    Nat.pow_le_pow_right (by norm_num) (Nat.sub_le _ _)
  rw [hostAt_eq_plus hi, hostAt_eq_plus hj] at hij
  have hlt : ∀ {k}, k < hostCount net → k + hostSkip net < 2 ^ (Family.ofNet net).bits :=
    fun hk => (Nat.add_lt_add_right hk _).trans_le (hle.trans hpow)
  exact Nat.add_right_cancel (IpNet.plus_inj (hlt hi) (hlt hj) hij)

/-! ### The pool of one network -/

namespace Pool

/-- The number of hosts fits a `u128`. -/
theorem hostCount_le (net : IpNet) : hostCount net ≤ U128_MAX := by
  have hle := hostCount_add_skip_le net
  cases net with
  | v4 addr len =>
      have hpow : 2 ^ (32 - (len : ℕ)) ≤ 2 ^ 32 := Nat.pow_le_pow_right (by norm_num) (by omega)
      have hle : hostCount (.v4 addr len) + hostSkip (.v4 addr len) ≤ 2 ^ (32 - (len : ℕ)) := hle
      rw [U128_MAX]
      omega
  | v6 addr len =>
      rw [hostCount_v6]
      split_ifs with h
      · have hpow : 2 ^ (128 - (len : ℕ)) ≤ 2 ^ 127 := Nat.pow_le_pow_right (by norm_num) (by omega)
        rw [U128_MAX]
        omega
      · exact le_rfl

/-- A pool of one network counts its hosts. -/
theorem fromNets_singleton (net : IpNet) :
    fromNets [net] = ⟨[(net, hostCount net)], hostCount net⟩ := by
  simp only [fromNets, sortByKey, List.mergeSort_singleton, List.destutter_singleton, accumulate,
    Nat.zero_add, Nat.min_eq_left (hostCount_le net)]

/-- The network is told by the pool. -/
theorem fromNets_singleton_inj {net net' : IpNet} (h : fromNets [net] = fromNets [net']) :
    net = net' := by
  rw [fromNets_singleton, fromNets_singleton] at h
  simpa using congrArg (fun pool => pool.nets.map Prod.fst) h

/-- The pool of one network is as long as the network has hosts. -/
theorem len_singleton (net : IpNet) : (fromNets [net]).len = hostCount net := by
  rw [fromNets_singleton, len]

/-- It hands out the host at the index, wrapping around behind the last one. -/
theorem addrAt_singleton (net : IpNet) (index : ℕ) :
    (fromNets [net]).addrAt index = some (hostAt net (index % hostCount net)) := by
  have hpos := hostCount_pos net
  have hlt : index % hostCount net < hostCount net := Nat.mod_lt _ hpos
  rw [fromNets_singleton, addrAt, if_neg hpos.ne']
  simp [Nat.not_le.2 hlt]

/-- A random address is the host at some index. -/
theorem choose_singleton {ρ : Type} [StdRng ρ] (net : IpNet) (rng : ρ) :
    ∃ index rng', (fromNets [net]).choose rng = (some (hostAt net (index % hostCount net)), rng') := by
  have hpos : 0 < (fromNets [net]).total := by
    rw [fromNets_singleton]
    exact hostCount_pos net
  rw [choose, dif_pos hpos]
  exact ⟨_, _, Prod.ext (addrAt_singleton net _) rfl⟩

end Pool

end Mergecap
end Maja
