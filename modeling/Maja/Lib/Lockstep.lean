/-
# Runs of a reader, and two readers in lockstep

A run of a reader is what its calls hand out until one of them hands out nothing,
and how that last call ends.  Every reader whose items use up a measure has one
run (`runs_of_measure`, `Runs.unique`).

Two readers are in lockstep when a relation of their states makes each call of the
one match the call of the other; then they have the same run (`Lockstep.runs`).
-/

import Maja.Lib.Iterate

namespace Maja
namespace Lib

/-- How a run ends: with `Ok(None)`, with an `Err`, or with a panic. -/
inductive Ending where
  | clean
  | failed
  | panicked
  deriving DecidableEq, Repr

/-- What the calls hand out, and how the first call ends that hands out nothing. -/
inductive Runs {σ ε α : Type} (call : Prog σ ε (Option α)) : σ → List α → Ending → Prop where
  | clean {s s' : σ} (h : call s = .ok (none, s')) : Runs call s [] .clean
  | failed {s s' : σ} {e : ε} (h : call s = .err (e, s')) : Runs call s [] .failed
  | panicked {s : σ} (h : call s = .panic) : Runs call s [] .panicked
  | next {s s' : σ} {a : α} {as : List α} {ending : Ending} (h : call s = .ok (some a, s'))
      (hs : Runs call s' as ending) : Runs call s (a :: as) ending

section Runs

variable {σ ε α : Type} {call : Prog σ ε (Option α)} {s s' : σ} {a : α} {as bs : List α}
  {ending ending' : Ending}

/-- An item comes first in every run. -/
theorem runs_of_next (h : call s = .ok (some a, s')) : Runs call s as ending ↔
    ∃ rest, as = a :: rest ∧ Runs call s' rest ending := by
  constructor
  · intro hrun
    cases hrun with
    | next h' hs =>
        rw [h] at h'
        cases h'
        exact ⟨_, rfl, hs⟩
    | clean h' => rw [h] at h'; cases h'
    | failed h' => rw [h] at h'; cases h'
    | panicked h' => rw [h] at h'; cases h'
  · rintro ⟨rest, rfl, hs⟩
    exact .next h hs

/-- A run whose first call ends. -/
theorem runs_of_none (h : call s = .ok (none, s')) :
    Runs call s as ending ↔ as = [] ∧ ending = .clean := by
  constructor
  · intro hrun
    cases hrun with
    | clean _ => exact ⟨rfl, rfl⟩
    | next h' _ => rw [h] at h'; cases h'
    | failed h' => rw [h] at h'; cases h'
    | panicked h' => rw [h] at h'; cases h'
  · rintro ⟨rfl, rfl⟩
    exact .clean h

/-- A run whose first call fails. -/
theorem runs_of_err {e : ε} (h : call s = .err (e, s')) :
    Runs call s as ending ↔ as = [] ∧ ending = .failed := by
  constructor
  · intro hrun
    cases hrun with
    | failed _ => exact ⟨rfl, rfl⟩
    | next h' _ => rw [h] at h'; cases h'
    | clean h' => rw [h] at h'; cases h'
    | panicked h' => rw [h] at h'; cases h'
  · rintro ⟨rfl, rfl⟩
    exact .failed h

/-- A run whose first call panics. -/
theorem runs_of_panic (h : call s = .panic) :
    Runs call s as ending ↔ as = [] ∧ ending = .panicked := by
  constructor
  · intro hrun
    cases hrun with
    | panicked _ => exact ⟨rfl, rfl⟩
    | next h' _ => rw [h] at h'; cases h'
    | clean h' => rw [h] at h'; cases h'
    | failed h' => rw [h] at h'; cases h'
  · rintro ⟨rfl, rfl⟩
    exact .panicked h

/-- A reader has one run. -/
theorem Runs.unique (ha : Runs call s as ending) (hb : Runs call s bs ending') :
    as = bs ∧ ending = ending' := by
  induction ha generalizing bs ending' with
  | clean h =>
      obtain ⟨rfl, rfl⟩ := (runs_of_none h).1 hb
      exact ⟨rfl, rfl⟩
  | failed h =>
      obtain ⟨rfl, rfl⟩ := (runs_of_err h).1 hb
      exact ⟨rfl, rfl⟩
  | panicked h =>
      obtain ⟨rfl, rfl⟩ := (runs_of_panic h).1 hb
      exact ⟨rfl, rfl⟩
  | next h _ ih =>
      obtain ⟨rest, rfl, hrest⟩ := (runs_of_next h).1 hb
      obtain ⟨rfl, rfl⟩ := ih hrest
      exact ⟨rfl, rfl⟩

/-- A reader whose items use up a measure has a run. -/
theorem runs_of_measure (μ : σ → ℕ) (hfuel : ∀ s, call s ≠ .outOfFuel)
    (hdec : ∀ s s' a, call s = .ok (some a, s') → μ s' < μ s) (s : σ) :
    ∃ as ending, Runs call s as ending := by
  induction hn : μ s using Nat.strongRecOn generalizing s with
  | ind n ih =>
    match hc : call s with
    | .ok (none, s') => exact ⟨_, _, .clean hc⟩
    | .err (e, s') => exact ⟨_, _, .failed hc⟩
    | .panic => exact ⟨_, _, .panicked hc⟩
    | .outOfFuel => exact absurd hc (hfuel s)
    | .ok (some a, s') =>
        obtain ⟨as, ending, hrun⟩ := ih (μ s') (hn ▸ hdec s s' a hc) s' rfl
        exact ⟨_, _, .next hc hrun⟩

/-- The items of a reader that ends cleanly are its run. -/
theorem items_iff_runs : Items call s as ↔ Runs call s as .clean := by
  constructor
  · intro h
    induction h with
    | done h => exact .clean h
    | next h _ ih => exact .next h ih
  · intro h
    generalize hending : Ending.clean = ending at h
    induction h with
    | clean h => exact .done h
    | failed h => cases hending
    | panicked h => cases hending
    | next h _ ih => exact .next h (ih hending)

end Runs

/-! ### Lockstep -/

section Lockstep

variable {σ τ ε ε' α β : Type} {f : α → β} {R : σ → τ → Prop} {call : Prog σ ε (Option α)}
  {call' : Prog τ ε' (Option β)} {s : σ} {t : τ}

/-- Two calls come to the same: the same item and states that are still related,
or the same ending. -/
inductive Matches (f : α → β) (R : σ → τ → Prop) :
    Outcome (ε × σ) (Option α × σ) → Outcome (ε' × τ) (Option β × τ) → Prop where
  | none {s : σ} {t : τ} : Matches f R (.ok (none, s)) (.ok (none, t))
  | some {a : α} {s : σ} {t : τ} (h : R s t) : Matches f R (.ok (some a, s)) (.ok (some (f a), t))
  | err {e : ε} {e' : ε'} {s : σ} {t : τ} : Matches f R (.err (e, s)) (.err (e', t))
  | panic : Matches f R .panic .panic

/-- Related states make the calls match. -/
def Lockstep (f : α → β) (R : σ → τ → Prop) (call : Prog σ ε (Option α))
    (call' : Prog τ ε' (Option β)) : Prop :=
  ∀ s t, R s t → Matches f R (call s) (call' t)

/-- **Readers in lockstep have the same run.** -/
theorem Lockstep.runs (h : Lockstep f R call call') (hst : R s t) {as : List α} {ending : Ending}
    (hrun : Runs call s as ending) : Runs call' t (as.map f) ending := by
  induction hrun generalizing t with
  | clean hc =>
      have hm := h _ _ hst
      rw [hc] at hm
      generalize hc' : call' t = y at hm
      cases hm
      exact .clean hc'
  | failed hc =>
      have hm := h _ _ hst
      rw [hc] at hm
      generalize hc' : call' t = y at hm
      cases hm
      exact .failed hc'
  | panicked hc =>
      have hm := h _ _ hst
      rw [hc] at hm
      generalize hc' : call' t = y at hm
      cases hm
      exact .panicked hc'
  | next hc _ ih =>
      have hm := h _ _ hst
      rw [hc] at hm
      generalize hc' : call' t = y at hm
      cases hm with
      | some hst' => exact .next hc' (ih hst')

/-- A weaker relation still matches. -/
theorem Matches.mono {R' : σ → τ → Prop} (hR : ∀ s t, R s t → R' s t)
    {x : Outcome (ε × σ) (Option α × σ)} {y : Outcome (ε' × τ) (Option β × τ)}
    (h : Matches f R x y) : Matches f R' x y := by
  cases h with
  | none => exact .none
  | some h => exact .some (hR _ _ h)
  | err => exact .err
  | panic => exact .panic

end Lockstep

end Lib
end Maja
