/-
# Chunks of a list

`slice::chunks`: a list is cut into pieces of the same length, but for the last one,
which has what is left.
-/

import Mathlib.Data.List.Basic

namespace Maja
namespace Lib

variable {α : Type} {n : ℕ}

/-- The first `count` chunks of a list. -/
def chunksUpTo (n : ℕ) : ℕ → List α → List (List α)
  | 0, _ => []
  | _ + 1, [] => []
  | count + 1, a :: as => (a :: as).take n :: chunksUpTo n count ((a :: as).drop n)

/-- `as.chunks(n)`. -/
def chunks (n : ℕ) (as : List α) : List (List α) := chunksUpTo n as.length as

/-- **What holds of a cut list holds of its chunks**, when it holds of the empty list and
goes on from the rest to the whole. -/
theorem chunks_induction {motive : List α → List (List α) → Prop} (hn : 0 < n)
    (nil : motive [] [])
    (cons : ∀ as rest, as ≠ [] → motive (as.drop n) rest → motive as (as.take n :: rest))
    (as : List α) : motive as (chunks n as) := by
  have hupTo : ∀ count (as : List α), as.length ≤ count → motive as (chunksUpTo n count as) := by
    intro count
    induction count with
    | zero =>
      intro as hlength
      obtain rfl := List.eq_nil_of_length_eq_zero (Nat.le_zero.1 hlength)
      exact nil
    | succ count ih =>
      intro as hlength
      cases as with
      | nil => exact nil
      | cons a as =>
        refine cons _ _ (List.cons_ne_nil _ _) (ih _ ?_)
        rw [List.length_drop]
        rw [List.length_cons] at hlength ⊢
        omega
  exact hupTo _ as (Nat.le_refl _)

/-- All chunks but the last one are full. -/
theorem length_chunks_mul_lt (hn : 0 < n) (as : List α) :
    (chunks n as).length * n < as.length + n := by
  refine chunks_induction (motive := fun as cs => cs.length * n < as.length + n) hn ?_ ?_ as
  · simpa using hn
  · intro as rest hne ih
    have hpos := List.length_pos_of_ne_nil hne
    rw [List.length_drop] at ih
    rw [List.length_cons, Nat.succ_mul]
    rcases Nat.lt_or_ge as.length n with hlt | hge
    · have hrest : rest.length = 0 := by
        rw [Nat.sub_eq_zero_of_le (Nat.le_of_lt hlt), Nat.zero_add] at ih
        refine Nat.eq_zero_of_not_pos fun hpos => ?_
        exact absurd (Nat.le_mul_of_pos_left n hpos) (Nat.not_le.2 ih)
      rw [hrest]
      omega
    · omega

/-- Chunks of two or more are fewer than what is cut. -/
theorem length_chunks_lt {as : List α} (hn : 2 ≤ n) (hlong : n < as.length) :
    (chunks n as).length < as.length := by
  have hcount := length_chunks_mul_lt (show 0 < n by omega) as
  cases hchunks : (chunks n as).length with
  | zero => omega
  | succ count =>
    rw [hchunks, Nat.succ_mul] at hcount
    have hmul := Nat.mul_le_mul_left count hn
    omega

end Lib
end Maja
