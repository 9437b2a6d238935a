/-
# The warning about a mask

`check_entry` of `tools/maja-mergecap/src/config.rs` warns that a mask maps host
bits into a smaller network, and `mask_map` of `map/pool.rs` is the map.  The map
keeps as many low bits as the target has host bits, so it merges two addresses of
the source when the source has more host bits than that: when the prefix of the
target is the longer one.  The comparison of `check_entry` goes the other way.
-/

import Maja.Mergecap.Map.Pool

namespace Maja
namespace Mergecap

/-- The `warn!` of `check_entry`, with the networks that it names: behind the check
of the families, of an entry whose shape is a mask from a network to a network. -/
def maskWarning (entry : MapEntry) : Option (IpNet × IpNet) :=
  match entry.shape, entry.target, entry.source with
  | .mask, .net target, some source =>
      if sameFamily source target = true ∧ target.prefixLen < source.prefixLen then
        some (source, target)
      else none
  | _, _, _ => none

variable {w p q : ℕ}

/-- What `mask_map` makes of the bits of an address: the low ones stay. -/
theorem getLsbD_mask (net addr : BitVec w) (i : ℕ) :
    (network net p ||| addr &&& hostmask w p).getLsbD i =
      if w ≤ p + i then net.getLsbD i else addr.getLsbD i := by
  rw [BitVec.getLsbD_or, BitVec.getLsbD_and, getLsbD_network, hostmask, BitVec.getLsbD_ushiftRight,
    BitVec.getLsbD_allOnes]
  split_ifs with h
  · simp [h, Nat.not_lt.2 h]
  · simp [h, Nat.not_le.1 h]

/-- Two addresses of one network agree above its host bits. -/
theorem getLsbD_of_network_eq {a b : BitVec w} (h : network a p = network b p) {i : ℕ}
    (hi : w ≤ p + i) : a.getLsbD i = b.getLsbD i := by
  have hbit := congrArg (fun addr => addr.getLsbD i) h
  simpa [getLsbD_network, hi] using hbit

/-- **A mask merges no two addresses of a source as small as its target.** -/
theorem mask_injOn (net base : BitVec w) (h : q ≤ p) :
    Set.InjOn (fun addr => network net q ||| addr &&& hostmask w q)
      {addr | network addr p = network base p} := by
  intro a ha b hb hab
  refine BitVec.eq_of_getLsbD_eq fun i hi => ?_
  by_cases hlow : w ≤ p + i
  · exact getLsbD_of_network_eq (ha.trans hb.symm) hlow
  · have hbit := congrArg (fun addr => addr.getLsbD i) hab
    simp only [getLsbD_mask, if_neg (show ¬w ≤ q + i by omega)] at hbit
    exact hbit

/-- **It merges two addresses of a larger one**, which differ in the bit above the
host bits of the target. -/
theorem mask_not_injOn (net base : BitVec w) (h : p < q) (hq : q ≤ w) :
    ¬Set.InjOn (fun addr => network net q ||| addr &&& hostmask w q)
      {addr | network addr p = network base p} := by
  intro hinj
  have hbit : ∀ i, (BitVec.twoPow w (w - q)).getLsbD i = decide (i = w - q) := by
    intro i
    rw [BitVec.getLsbD_twoPow, decide_eq_true (by omega), Bool.true_and]
    exact decide_eq_decide.2 eq_comm
  have hlow : network (network base p) p = network base p := by
    refine BitVec.eq_of_getLsbD_eq fun i _ => ?_
    simp only [getLsbD_network, Bool.and_assoc, Bool.and_self]
  have hhigh : network (network base p ||| BitVec.twoPow w (w - q)) p = network base p := by
    refine BitVec.eq_of_getLsbD_eq fun i _ => ?_
    simp only [getLsbD_network, BitVec.getLsbD_or, hbit]
    by_cases hi : w ≤ p + i
    · simp [hi, show i ≠ w - q by omega]
    · simp [hi]
  have hsame : network net q ||| network base p &&& hostmask w q =
      network net q ||| (network base p ||| BitVec.twoPow w (w - q)) &&& hostmask w q := by
    refine BitVec.eq_of_getLsbD_eq fun i _ => ?_
    rw [getLsbD_mask, getLsbD_mask, BitVec.getLsbD_or, hbit]
    split_ifs with hi
    · rfl
    · simp [show i ≠ w - q by omega]
  have heq := congrArg (fun addr => addr.getLsbD (w - q)) (hinj hlow hhigh hsame)
  simp only [getLsbD_network, BitVec.getLsbD_or, hbit] at heq
  simp [show ¬w ≤ p + (w - q) by omega] at heq

variable {entry : MapEntry} {source target : IpNet}

/-- **`mask_map` keeps the addresses of the source apart** when the target has at
least as many host bits. -/
theorem maskMap_injOn_iff (hfamily : sameFamily source target = true) :
    Set.InjOn (maskMap target) {addr | source.contains addr} ↔
      target.prefixLen ≤ source.prefixLen := by
  constructor
  · intro hinj
    by_contra hlt
    cases source with
    | v4 base p =>
        cases target with
        | v4 net q =>
            have hq := Nat.le_of_lt_succ q.isLt
            refine mask_not_injOn net base (Nat.not_le.1 hlt) hq fun a ha b hb hab => ?_
            exact IpAddr.v4.inj (hinj (decide_eq_true ha) (decide_eq_true hb)
              (congrArg (fun addr => some (IpAddr.v4 addr)) hab))
        | v6 net q => cases hfamily
    | v6 base p =>
        cases target with
        | v4 net q => cases hfamily
        | v6 net q =>
            have hq := Nat.le_of_lt_succ q.isLt
            refine mask_not_injOn net base (Nat.not_le.1 hlt) hq fun a ha b hb hab => ?_
            exact IpAddr.v6.inj (hinj (decide_eq_true ha) (decide_eq_true hb)
              (congrArg (fun addr => some (IpAddr.v6 addr)) hab))
  · intro hle a ha b hb hab
    cases source with
    | v4 base p =>
        cases target with
        | v4 net q =>
            cases a with
            | v4 a =>
                cases b with
                | v4 b =>
                    refine congrArg IpAddr.v4 (mask_injOn net base hle (of_decide_eq_true ha)
                      (of_decide_eq_true hb) ?_)
                    exact IpAddr.v4.inj (Option.some.inj hab)
                | v6 b => cases hb
            | v6 a => cases ha
        | v6 net q => cases hfamily
    | v6 base p =>
        cases target with
        | v4 net q => cases hfamily
        | v6 net q =>
            cases a with
            | v4 a => cases ha
            | v6 a =>
                cases b with
                | v4 b => cases hb
                | v6 b =>
                    refine congrArg IpAddr.v6 (mask_injOn net base hle (of_decide_eq_true ha)
                      (of_decide_eq_true hb) ?_)
                    exact IpAddr.v6.inj (Option.some.inj hab)

/-- A mask between two networks of one family is warned about when the target has
the shorter prefix. -/
theorem maskWarning_isSome_iff (hshape : entry.shape = .mask) (hsource : entry.source = some source)
    (htarget : entry.target = .net target) (hfamily : sameFamily source target = true) :
    (maskWarning entry).isSome ↔ target.prefixLen < source.prefixLen := by
  simp only [maskWarning, hshape, hsource, htarget, hfamily, true_and]
  split_ifs with h
  · exact iff_of_true rfl h
  · exact iff_of_false (by simp) h

/-- **The warning tells whether a mask merges addresses** only where both networks
are of one size: a mask into a larger network is warned about and merges none, a
mask into a smaller one merges some in silence. -/
theorem maskWarning_exact_iff (hshape : entry.shape = .mask) (hsource : entry.source = some source)
    (htarget : entry.target = .net target) (hfamily : sameFamily source target = true) :
    ((maskWarning entry).isSome ↔ ¬Set.InjOn (maskMap target) {addr | source.contains addr}) ↔
      source.prefixLen = target.prefixLen := by
  rw [maskWarning_isSome_iff hshape hsource htarget hfamily, maskMap_injOn_iff hfamily]
  omega

/-- `10.0.0.0/8->10.1.0.0/8`. -/
theorem maskWarning_exact_sameSize :
    (maskWarning ⟨some (.v4 0x0A000000 8), .net (.v4 0x0A010000 8), some .mask, none⟩).isSome ↔
      ¬Set.InjOn (maskMap (.v4 0x0A010000 8)) {addr | (IpNet.v4 0x0A000000 8).contains addr} :=
  (maskWarning_exact_iff rfl rfl rfl rfl).2 rfl

/-- `192.168.0.0/16->10.0.0.0/24` takes both `192.168.0.1` and `192.168.1.1` to
`10.0.0.1`, and nothing is said. -/
theorem maskWarning_silent :
    ¬((maskWarning ⟨some (.v4 0xC0A80000 16), .net (.v4 0x0A000000 24), some .mask, none⟩).isSome ↔
      ¬Set.InjOn (maskMap (.v4 0x0A000000 24))
        {addr | (IpNet.v4 0xC0A80000 16).contains addr}) := by
  intro h
  have hwarning : (maskWarning
      ⟨some (.v4 0xC0A80000 16), .net (.v4 0x0A000000 24), some .mask, none⟩).isSome = false := by
    decide
  rw [hwarning] at h
  have hinj : Set.InjOn (maskMap (.v4 0x0A000000 24))
      {addr | (IpNet.v4 0xC0A80000 16).contains addr} := by
    by_contra hnot
    exact Bool.false_ne_true (h.2 hnot)
  have heq : IpAddr.v4 0xC0A80001 = .v4 0xC0A80101 := by
    refine hinj ?_ ?_ ?_ <;> decide
  exact absurd heq (by decide)

end Mergecap
end Maja
