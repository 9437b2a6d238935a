/-
# Calling a reader again and again

A reader is a call that hands out one item at a time: `Ok(Some)` while there are
items, `Ok(None)` when there are no more.  `Reaches` are the states such a
reader can be in after any number of calls, errors included, and `Ends` says that
the calls come to an `Ok(None)` or an `Err` after finitely many items, every call
on the way having returned.  `Total` is both: from every state that calling
reaches, the iteration returns from each call and ends.
-/

import Maja.Lib.Outcome
import Mathlib.Logic.Relation

namespace Maja
namespace Lib

variable {σ ε α : Type}

/-- A call at `s` returns, with `Ok` or `Err`, and leaves the state `s'`. -/
def Leaves (call : Prog σ ε α) (s s' : σ) : Prop :=
  (∃ a, call s = .ok (a, s')) ∨ ∃ e, call s = .err (e, s')

/-- The states that any number of calls can leave, past errors too. -/
def Reaches (call : Prog σ ε α) : σ → σ → Prop := Relation.ReflTransGen (Leaves call)

/-- Every call returns until, after finitely many items, one returns `Ok(None)`
or an `Err`. -/
inductive Ends (call : Prog σ ε (Option α)) : σ → Prop where
  | done {s s' : σ} (h : call s = .ok (none, s')) : Ends call s
  | failed {s s' : σ} {e : ε} (h : call s = .err (e, s')) : Ends call s
  | next {s s' : σ} {a : α} (h : call s = .ok (some a, s')) (hs : Ends call s') : Ends call s

/-- What the calls hand out, in order, until one returns `Ok(None)`. -/
inductive Items (call : Prog σ ε (Option α)) : σ → List α → Prop where
  | done {s s' : σ} (h : call s = .ok (none, s')) : Items call s []
  | next {s s' : σ} {a : α} {as : List α} (h : call s = .ok (some a, s')) (hs : Items call s' as) :
      Items call s (a :: as)

/-- The iteration is total: from every state it can get into, errors behind it
included, every call returns and the items come to an end. -/
def Total (call : Prog σ ε (Option α)) (s : σ) : Prop := ∀ s', Reaches call s s' → Ends call s'

/-- A call that ends returns. -/
theorem Ends.returns {call : Prog σ ε (Option α)} {s : σ} (h : Ends call s) :
    (call s).Returns := by
  cases h with
  | done h => simp [h]
  | failed h => simp [h]
  | next h _ => simp [h]

/-- A reader hands out one list of items. -/
theorem Items.unique {call : Prog σ ε (Option α)} {s : σ} {as bs : List α} (ha : Items call s as)
    (hb : Items call s bs) : as = bs := by
  induction ha generalizing bs with
  | done h =>
    cases hb with
    | done _ => rfl
    | next h' _ => rw [h] at h'; cases h'
  | next h _ ih =>
    cases hb with
    | done h' => rw [h] at h'; cases h'
    | next h' hs' =>
      rw [h] at h'
      cases h'
      rw [ih hs']

/-- The items of at most `fuel` calls, when the last one returns `Ok(None)`. -/
def collect (call : Prog σ ε (Option α)) : ℕ → σ → Option (List α)
  | 0, _ => none
  | fuel + 1, s =>
      match call s with
      | .ok (none, _) => some []
      | .ok (some a, s') => (collect call fuel s').map (a :: ·)
      | _ => none

/-- What is collected are the items. -/
theorem items_of_collect {call : Prog σ ε (Option α)} {fuel : ℕ} {s : σ} {as : List α}
    (h : collect call fuel s = some as) : Items call s as := by
  induction fuel generalizing s as with
  | zero => simp [collect] at h
  | succ fuel ih =>
    rw [collect] at h
    split at h
    · rename_i s' hcall
      rw [← Option.some.inj h]
      exact .done hcall
    · rename_i a s' hcall
      obtain ⟨rest, hrest, rfl⟩ := Option.map_eq_some_iff.1 h
      exact .next hcall (ih hrest)
    · cases h

/-- A total iteration never panics and never hangs. -/
theorem Total.returns {call : Prog σ ε (Option α)} {s s' : σ} (h : Total call s)
    (hs : Reaches call s s') : (call s').Returns :=
  (h s' hs).returns

/-- What holds of one call's every result holds of every state that is reached. -/
theorem Reaches.invariant {call : Prog σ ε α} {s s' : σ} (P : σ → Prop)
    (step : ∀ s s', P s → Leaves call s s' → P s') (h : Reaches call s s') (hs : P s) : P s' := by
  induction h with
  | refl => exact hs
  | tail _ hstep ih => exact step _ _ ih hstep

/-- An iteration whose calls all return ends when every item uses up some of a
measure. -/
theorem ends_of_measure {call : Prog σ ε (Option α)} (μ : σ → ℕ) (s : σ)
    (hret : ∀ s', Reaches call s s' → (call s').Returns)
    (hdec : ∀ s s' a, call s = .ok (some a, s') → μ s' < μ s) : Ends call s := by
  induction hn : μ s using Nat.strongRecOn generalizing s with
  | ind n ih =>
    match hc : call s with
    | .ok (none, s') => exact .done hc
    | .err (e, s') => exact .failed hc
    | .ok (some a, s') =>
      have hstep : Leaves call s s' := .inl ⟨_, hc⟩
      refine .next hc (ih (μ s') (hn ▸ hdec s s' a hc) s' ?_ rfl)
      intro t ht
      exact hret t (.head hstep ht)
    | .panic => exact absurd (hret s .refl) (by simp [hc])
    | .outOfFuel => exact absurd (hret s .refl) (by simp [hc])

/-- An iteration is total as soon as every call that can be made returns and
items use up a measure. -/
theorem total_of_measure {call : Prog σ ε (Option α)} (μ : σ → ℕ) {s : σ}
    (hret : ∀ s', Reaches call s s' → (call s').Returns)
    (hdec : ∀ s s' a, call s = .ok (some a, s') → μ s' < μ s) : Total call s := by
  intro s' hs'
  refine ends_of_measure μ s' (fun t ht => hret t (hs'.trans ht)) hdec

/-! ### Items in a row, and loops -/

/-- The calls from `s` to `s'` hand out these items, one after the other. -/
inductive Yields (call : Prog σ ε (Option α)) : σ → List α → σ → Prop where
  | nil {s : σ} : Yields call s [] s
  | cons {s s' t : σ} {a : α} {as : List α} (h : call s = .ok (some a, s'))
      (hs : Yields call s' as t) : Yields call s (a :: as) t

/-- Calls, and calls behind them. -/
theorem Yields.trans {call : Prog σ ε (Option α)} {s t u : σ} {as bs : List α}
    (h : Yields call s as t) (h' : Yields call t bs u) : Yields call s (as ++ bs) u := by
  induction h with
  | nil => exact h'
  | cons hc _ ih => exact .cons hc (ih h')

/-- The items of `n` calls, when each hands out one. -/
def take (call : Prog σ ε (Option α)) : ℕ → σ → Option (List α × σ)
  | 0, s => some ([], s)
  | n + 1, s =>
      match call s with
      | .ok (some a, s') => (take call n s').map fun r => (a :: r.1, r.2)
      | _ => none

/-- Calls that were run yield what they returned. -/
theorem yields_of_take {call : Prog σ ε (Option α)} {n : ℕ} {s t : σ} {as : List α}
    (h : take call n s = some (as, t)) : Yields call s as t := by
  induction n generalizing s as with
  | zero =>
      cases h
      exact .nil
  | succ n ih =>
      rw [take] at h
      split at h
      · obtain ⟨⟨rest, t'⟩, hrest, heq⟩ := Option.map_eq_some_iff.1 h
        cases heq
        exact .cons ‹_› (ih hrest)
      · cases h

/-- A loop with fuel: a turn returns, or leaves the rest to the next turn. -/
def Loops (turn : Prog σ ε (Option α)) (loop : ℕ → Prog σ ε α) : Prop :=
  ∀ fuel s, loop (fuel + 1) s = turn s >>= fun r =>
    match r.1 with
    | some a => .ok (a, r.2)
    | none => loop fuel r.2

/-- Where a turn that does not return uses up a measure, any fuel above it is
enough, and makes no difference. -/
theorem Loops.fuel_irrelevant {turn : Prog σ ε (Option α)} {loop : ℕ → Prog σ ε α}
    (h : Loops turn loop) (μ : σ → ℕ) (hdec : ∀ s s', turn s = .ok (none, s') → μ s' < μ s)
    {fuel fuel' : ℕ} {s : σ} (hf : μ s < fuel) (hf' : μ s < fuel') :
    loop fuel s = loop fuel' s := by
  induction fuel generalizing fuel' s with
  | zero => omega
  | succ fuel ih =>
      obtain ⟨fuel', rfl⟩ : ∃ n, fuel' = n + 1 := ⟨fuel' - 1, by omega⟩
      rw [h, h]
      match hturn : turn s with
      | .err e => rfl
      | .panic => rfl
      | .outOfFuel => rfl
      | .ok (some a, s') => rfl
      | .ok (none, s') =>
          have hlt := hdec s s' hturn
          have hrest : loop fuel s' = loop fuel' s' := ih (by omega) (by omega)
          exact hrest

end Lib
end Maja
