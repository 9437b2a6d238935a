/-
# Reading on past errors

A caller that logs an error and reads on gets everything a reader has, not only
what lies in front of the first error.  `Drains` is what it gets: items and errors,
in order, until a call returns `Ok(None)`.

Such a loop ends because no call is for nothing (`Consumes`): every item and every
error uses up some of a measure.  Then the reader is drained after at most as many
calls as the measure counts (`drains_of_consumes`).
-/

import Maja.Lib.Iterate

namespace Maja
namespace Lib

variable {σ ε α : Type} {call : Prog σ ε (Option α)} {s s' : σ} {results : List (Except ε α)}

/-- What the calls hand out, past errors, until one returns `Ok(None)`. -/
inductive Drains (call : Prog σ ε (Option α)) : σ → List (Except ε α) → Prop where
  | done {s s' : σ} (h : call s = .ok (none, s')) : Drains call s []
  | item {s s' : σ} {a : α} {results : List (Except ε α)} (h : call s = .ok (some a, s'))
      (hs : Drains call s' results) : Drains call s (.ok a :: results)
  | failed {s s' : σ} {e : ε} {results : List (Except ε α)} (h : call s = .err (e, s'))
      (hs : Drains call s' results) : Drains call s (.error e :: results)

/-- What at most `fuel` calls hand out, past errors, when the last one returns
`Ok(None)`. -/
def drain (call : Prog σ ε (Option α)) : ℕ → σ → Option (List (Except ε α))
  | 0, _ => none
  | fuel + 1, s =>
    match call s with
    | .ok (none, _) => some []
    | .ok (some a, s') => (drain call fuel s').map (.ok a :: ·)
    | .err (e, s') => (drain call fuel s').map (.error e :: ·)
    | .panic => none
    | .outOfFuel => none

/-- More calls than results are enough. -/
theorem Drains.drain_eq (h : Drains call s results) {fuel : ℕ} (hfuel : results.length < fuel) :
    drain call fuel s = some results := by
  obtain ⟨fuel, rfl⟩ : ∃ k, fuel = k + 1 := ⟨fuel - 1, by omega⟩
  induction h generalizing fuel with
  | done h => rw [drain, h]
  | item h _ ih =>
    rw [List.length_cons] at hfuel
    obtain ⟨fuel, rfl⟩ : ∃ k, fuel = k + 1 := ⟨fuel - 1, by omega⟩
    rw [drain, h]
    dsimp only
    rw [ih fuel (by omega), Option.map_some]
  | failed h _ ih =>
    rw [List.length_cons] at hfuel
    obtain ⟨fuel, rfl⟩ : ∃ k, fuel = k + 1 := ⟨fuel - 1, by omega⟩
    rw [drain, h]
    dsimp only
    rw [ih fuel (by omega), Option.map_some]

/-- How a call ends that uses up some of a measure, of which there is `n`: an item
and an error leave less, and nothing is asked of an `Ok(None)` or a panic. -/
def Consumes (μ : σ → ℕ) (n : ℕ) : Outcome (ε × σ) (Option α × σ) → Prop
  | .ok (none, _) => True
  | .ok (some _, s') => μ s' < n
  | .err (_, s') => μ s' < n
  | .panic => True
  | .outOfFuel => False

/-- More of a measure can only help. -/
theorem Consumes.mono {μ : σ → ℕ} {n m : ℕ} {x : Outcome (ε × σ) (Option α × σ)} (hnm : n ≤ m)
    (h : Consumes μ n x) : Consumes μ m x := by
  rcases x with ⟨_ | a, s'⟩ | ⟨e, s'⟩ | _ | _
  · trivial
  · exact Nat.lt_of_lt_of_le h hnm
  · exact Nat.lt_of_lt_of_le h hnm
  · trivial
  · exact h

/-- There are no more results than a measure counts that every call uses up. -/
theorem Drains.length_le (h : Drains call s results) (μ : σ → ℕ)
    (hcall : ∀ s, Consumes μ (μ s) (call s)) : results.length ≤ μ s := by
  induction h with
  | done _ => exact Nat.zero_le _
  | @item s _ _ _ h _ ih =>
    have hlt := hcall s
    rw [h] at hlt
    exact Nat.succ_le_of_lt (Nat.lt_of_le_of_lt ih hlt)
  | @failed s _ _ _ h _ ih =>
    have hlt := hcall s
    rw [h] at hlt
    exact Nat.succ_le_of_lt (Nat.lt_of_le_of_lt ih hlt)

/-- **A reader that never panics is drained by finitely many calls.** -/
theorem drains_of_consumes (μ : σ → ℕ) (hcall : ∀ s, Consumes μ (μ s) (call s))
    (hpanic : ∀ s', Reaches call s s' → call s' ≠ .panic) :
    ∃ results, Drains call s results ∧ results.length ≤ μ s := by
  induction hn : μ s using Nat.strongRecOn generalizing s with
  | ind n ih =>
    have hconsumes := hcall s
    rw [hn] at hconsumes
    have hrest : ∀ s', Leaves call s s' → μ s' < n →
        ∃ results, Drains call s' results ∧ results.length ≤ μ s' := fun s' hleaves hlt =>
      ih (μ s') hlt (fun t ht => hpanic t (.head hleaves ht)) rfl
    match hc : call s with
    | .ok (none, s') => exact ⟨[], .done hc, Nat.zero_le n⟩
    | .ok (some a, s') =>
      rw [hc] at hconsumes
      obtain ⟨results, hdrains, hlength⟩ := hrest s' (.inl ⟨_, hc⟩) hconsumes
      exact ⟨_, .item hc hdrains, Nat.succ_le_of_lt (Nat.lt_of_le_of_lt hlength hconsumes)⟩
    | .err (e, s') =>
      rw [hc] at hconsumes
      obtain ⟨results, hdrains, hlength⟩ := hrest s' (.inr ⟨e, hc⟩) hconsumes
      exact ⟨_, .failed hc hdrains, Nat.succ_le_of_lt (Nat.lt_of_le_of_lt hlength hconsumes)⟩
    | .panic => exact absurd hc (hpanic s .refl)
    | .outOfFuel =>
      rw [hc] at hconsumes
      exact hconsumes.elim

end Lib
end Maja
