/-
# Walking a residue ring in strides

The indices `start, start + step, start + 2 * step, …` modulo `n`.  A stride that
is coprime with `n` visits no index twice in `n` steps, wherever it starts.
-/

import Mathlib.Data.List.Perm.Subperm
import Mathlib.Data.List.Nodup
import Mathlib.Data.Nat.ModEq
import Mathlib.Data.Set.Function
import Mathlib.Tactic.Common

namespace Maja
namespace Lib

/-- The index after `j` strides. -/
def walk (start step n j : ℕ) : ℕ := (start + j * step) % n

/-- A walk stays below the number of places. -/
theorem walk_lt {start step n j : ℕ} (hn : 0 < n) : walk start step n j < n := Nat.mod_lt _ hn

/-- **A coprime stride visits no index twice in one round.** -/
theorem walk_injOn {start step n : ℕ} (h : step.Coprime n) :
    Set.InjOn (walk start step n) {j | j < n} := by
  intro i hi j hj hij
  have hmul : i * step ≡ j * step [MOD n] := Nat.ModEq.add_left_cancel' start hij
  have hmod : i ≡ j [MOD n] := Nat.ModEq.cancel_right_of_coprime h.symm hmul
  exact Nat.ModEq.eq_of_lt_of_lt hmod hi hj

/-- **One round visits every index.** -/
theorem walk_perm_range {start step n : ℕ} (h : step.Coprime n) :
    ((List.range n).map (walk start step n)).Perm (List.range n) := by
  have hnodup : ((List.range n).map (walk start step n)).Nodup := by
    refine List.Nodup.map_on (fun i hi j hj hij => ?_) List.nodup_range
    exact walk_injOn h (List.mem_range.1 hi) (List.mem_range.1 hj) hij
  have hsub : (List.range n).map (walk start step n) ⊆ List.range n := by
    intro index hindex
    obtain ⟨i, hi, rfl⟩ := List.mem_map.1 hindex
    exact List.mem_range.2 (walk_lt (Nat.zero_lt_of_lt (List.mem_range.1 hi)))
  exact (hnodup.subperm hsub).perm_of_length_le (by rw [List.length_map])

end Lib
end Maja
