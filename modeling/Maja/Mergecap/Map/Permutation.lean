/-
# A sequence is a permutation

`Sequence` of `tools/maja-mergecap/src/map/flow.rs`, called once for every address
of a pool.  The calls of a round are the strides of one walk, whose stride is
coprime with the length whether the search found it or gave up, so the indices are
those of the pool in another order.

The arithmetic is that of natural numbers where the source has a `u128`;
`CallFits` and `SearchFits` say that no number of a call, or of the search for the
stride, is too large for one.
-/

import Maja.Mergecap.Map.Slot

namespace Maja
namespace Mergecap

open Lib

namespace Sequence

/-- The first `k` calls of `next_index`: the sequence before the call, and what is
returned. -/
def calls (n : ℕ) : ℕ → Sequence → List (Sequence × ℕ × Bool)
  | 0, _ => []
  | k + 1, seq => (seq, (seq.nextIndex n).1) :: calls n k (seq.nextIndex n).2

/-- A call stays in `u128`: the product, the sum, and the count of the calls. -/
structure CallFits (n : ℕ) (seq : Sequence) : Prop where
  product : seq.drawn % n * seq.step < 2 ^ 128
  sum : seq.start + seq.drawn % n * seq.step < 2 ^ 128
  drawn : seq.drawn + 1 < 2 ^ 128

/-- The search of `new` stays in `u128`, whatever the offset. -/
def SearchFits (n : ℕ) : Prop :=
  ∀ offset i, 1 ≤ offset → offset < n → 1 ≤ i → i < n → offset + i < 2 ^ 128

variable {n k : ℕ} {seq : Sequence}

/-- **The calls of a round walk on**, each a stride behind the one before. -/
theorem calls_eq (h : seq.Sound n) (hn : n ≤ 2 ^ 127) (hk : seq.drawn + k ≤ n) :
    calls n k seq = (List.range' seq.drawn k).map fun drawn =>
      (({ seq with drawn } : Sequence), walk seq.start seq.step n drawn, false) := by
  induction k generalizing seq with
  | zero => rfl
  | succ k ih =>
      have hnext := nextIndex_eq h hn (by omega)
      have hrest : seq.drawn + 1 + k ≤ n := by omega
      rw [calls, hnext, ih (h.draw _) hrest, List.range'_succ, List.map_cons]

/-- A call before the end of the round fits. -/
theorem Sound.callFits (h : seq.Sound n) (hn : n ≤ 2 ^ 127) (hdrawn : seq.drawn < n) :
    seq.CallFits n := by
  obtain ⟨hproduct, hsum⟩ := h.fits hn hdrawn
  rw [← Nat.mod_eq_of_lt hdrawn] at hproduct hsum
  exact ⟨hproduct, hsum, by omega⟩

/-- A sequence over at most `2^127` places does not overflow. -/
theorem searchFits (hn : n ≤ 2 ^ 127) : SearchFits n := by
  intro offset i _ hoffset _ hi
  omega

variable {ρ : Type} [StdRng ρ]

/-- **The first round of a sequence is a permutation of the pool.**  For every
length up to `2 ^ 127` and every generator, the first `n` calls return every index
below `n` once, none reports a wrap, and no number leaves `u128`. -/
theorem calls_new_perm (rng : ρ) {n : ℕ} (hpos : 1 ≤ n) (hn : n ≤ 2 ^ 127) :
    ((calls n n (new rng n).1).map fun call => call.2.1).Perm (List.range n) ∧
      (∀ call ∈ calls n n (new rng n).1, call.2.2 = false ∧ call.1.CallFits n) ∧
      SearchFits n := by
  have hsound := new_sound rng hpos
  have hdrawn := new_drawn rng n
  have hcalls := calls_eq hsound hn (k := n) (by omega)
  rw [hdrawn, ← List.range_eq_range'] at hcalls
  rw [hcalls]
  refine ⟨?_, ?_, searchFits hn⟩
  · rw [List.map_map]
    exact walk_perm_range hsound.coprime
  · intro call hcall
    obtain ⟨drawn, hlt, rfl⟩ := List.mem_map.1 hcall
    exact ⟨rfl, (hsound.draw drawn).callFits hn (List.mem_range.1 hlt)⟩

/-- A pool of six addresses, walked in strides of five. -/
theorem calls_new_perm_six :
    [0, 5, 4, 3, 2, 1].Perm (List.range 6) ∧ SearchFits 6 := by
  have h := calls_new_perm LeastRng.mk (show 1 ≤ 6 by norm_num) (by norm_num)
  have hstep : findStep 1 6 = 5 := by
    simp only [findStep, gcd_eq]
    decide
  have hnew : (new LeastRng.mk 6).1 = ⟨0, 5, 0⟩ := by
    rw [← hstep]
    rfl
  rw [hnew] at h
  exact ⟨h.1, h.2.2⟩

end Sequence

end Mergecap
end Maja
