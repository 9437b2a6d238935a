/-
# Runs

A loop that holds the run it is in cuts a list into runs: an element joins the last run
as long as it `continues` it, and opens the next one otherwise (`runs`).  Nothing is
lost or moved (`flatten_runs`).  `neighbours` pairs each element with the next one.
-/

import Mathlib.Data.List.Induction
import Mathlib.Tactic.Common

namespace Maja
namespace Lib

section Runs

variable {α : Type} (continues : List α → α → Bool)

/-- The runs after one more element. -/
def pushRun : List (List α) → α → List (List α)
  | [], x => [[x]]
  | [run], x => if continues run x then [run ++ [x]] else [run, [x]]
  | run :: next :: runs, x => run :: pushRun (next :: runs) x

/-- The runs of a list. -/
def runs (xs : List α) : List (List α) := xs.foldl (pushRun continues) []

variable {continues} {xs : List α} {x : α} {front : List (List α)} {run : List α}

/-- The element joins the last run. -/
theorem pushRun_of_continues (h : continues run x = true) :
    pushRun continues (front ++ [run]) x = front ++ [run ++ [x]] := by
  induction front with
  | nil => exact if_pos h
  | cons r front ih =>
    cases front with
    | nil =>
      show r :: pushRun continues [run] x = _
      rw [pushRun, if_pos h]
      rfl
    | cons next front => exact congrArg (r :: ·) ih

/-- The element opens a run. -/
theorem pushRun_of_not_continues (h : ∀ run ∈ front.getLast?, continues run x = false) :
    pushRun continues front x = front ++ [[x]] := by
  induction front with
  | nil => rfl
  | cons r front ih =>
    cases front with
    | nil => exact if_neg (Bool.eq_false_iff.1 (h r rfl))
    | cons next front => exact congrArg (r :: ·) (ih h)

/-- Nothing has no run. -/
@[simp] theorem runs_nil : runs continues [] = [] := rfl

/-- One more element joins the last run or starts another. -/
theorem runs_concat : runs continues (xs ++ [x]) = pushRun continues (runs continues xs) x := by
  rw [runs, List.foldl_append]
  rfl

/-- Either the element opens a run, or it joins the last one. -/
theorem runs_concat_cases (continues : List α → α → Bool) (xs : List α) (x : α) :
    (∀ run ∈ (runs continues xs).getLast?, continues run x = false) ∧
      runs continues (xs ++ [x]) = runs continues xs ++ [[x]] ∨
    ∃ front run, runs continues xs = front ++ [run] ∧ continues run x = true ∧
      runs continues (xs ++ [x]) = front ++ [run ++ [x]] := by
  rw [runs_concat]
  cases hlast : (runs continues xs).getLast? with
  | none =>
    have hopens : ∀ run ∈ (runs continues xs).getLast?, continues run x = false := by simp [hlast]
    exact .inl ⟨by simp, pushRun_of_not_continues hopens⟩
  | some run =>
    obtain ⟨front, hruns⟩ := List.getLast?_eq_some_iff.1 hlast
    cases hx : continues run x with
    | true => exact .inr ⟨front, run, hruns, hx, by rw [hruns, pushRun_of_continues hx]⟩
    | false =>
      have hopens : ∀ run ∈ (runs continues xs).getLast?, continues run x = false := by
        simp [hlast, hx]
      exact .inl ⟨by simp [hx], pushRun_of_not_continues hopens⟩

/-- What holds of no runs, and still holds when a run is opened or joined. -/
theorem runs_induction {motive : List α → List (List α) → Prop} (nil : motive [] [])
    (opens : ∀ xs x, motive xs (runs continues xs) →
      motive (xs ++ [x]) (runs continues xs ++ [[x]]))
    (joins : ∀ xs x front run, runs continues xs = front ++ [run] → continues run x = true →
      motive xs (front ++ [run]) → motive (xs ++ [x]) (front ++ [run ++ [x]]))
    (xs : List α) : motive xs (runs continues xs) := by
  induction xs using List.reverseRecOn with
  | nil => exact nil
  | append_singleton xs x ih =>
    obtain ⟨-, hruns⟩ | ⟨front, run, hruns, hx, hruns'⟩ := runs_concat_cases continues xs x
    · rw [hruns]
      exact opens xs x ih
    · rw [hruns']
      exact joins xs x front run hruns hx (hruns ▸ ih)

/-- **The runs are the list**, cut. -/
theorem flatten_runs (continues : List α → α → Bool) (xs : List α) :
    (runs continues xs).flatten = xs := by
  refine runs_induction (motive := fun xs runs => runs.flatten = xs) rfl ?_ ?_ xs
  · intro xs x ih
    rw [List.flatten_concat, ih]
  · intro xs x front run _ _ ih
    rw [List.flatten_concat, ← List.append_assoc, ← List.flatten_concat, ih]

/-- A run is part of the list. -/
theorem sublist_of_mem_runs (h : run ∈ runs continues xs) : run.Sublist xs := by
  have hsub := List.sublist_flatten_of_mem h
  rwa [flatten_runs] at hsub

/-- A run is not empty. -/
theorem ne_nil_of_mem_runs (h : run ∈ runs continues xs) : run ≠ [] := by
  refine runs_induction (motive := fun _ runs => ∀ run ∈ runs, run ≠ []) ?_ ?_ ?_ xs run h
  · simp
  · intro xs x ih run hrun
    rcases List.mem_append.1 hrun with hrun | hrun
    · exact ih run hrun
    · obtain rfl := List.mem_singleton.1 hrun
      exact List.cons_ne_nil x []
  · intro xs x front last _ _ ih run hrun
    rcases List.mem_append.1 hrun with hrun | hrun
    · exact ih run (List.mem_append_left _ hrun)
    · obtain rfl := List.mem_singleton.1 hrun
      simp

/-- A list that is not empty has a last run, which ends as the list does. -/
theorem exists_runs_eq (continues : List α → α → Bool) (h : xs ≠ []) :
    ∃ front run, runs continues xs = front ++ [run] ∧ run ≠ [] ∧ run.getLast? = xs.getLast? := by
  refine runs_induction (motive := fun xs runs => xs ≠ [] → ∃ front run, runs = front ++ [run] ∧
    run ≠ [] ∧ run.getLast? = xs.getLast?) (absurd rfl) ?_ ?_ xs h
  · intro xs x _ _
    exact ⟨_, [x], rfl, List.cons_ne_nil x [], by rw [List.getLast?_concat]; rfl⟩
  · intro xs x front run _ _ _ _
    exact ⟨front, run ++ [x], rfl, by simp, by rw [List.getLast?_concat, List.getLast?_concat]⟩

end Runs

section Neighbours

variable {α β : Type} (f : α → α → β)

/-- `f` of each element and the next one. -/
def neighbours : List α → List β
  | [] => []
  | [_] => []
  | x :: y :: xs => f x y :: neighbours (y :: xs)

/-- One more element has a neighbour when it is not the first. -/
theorem neighbours_concat (xs : List α) (x : α) :
    neighbours f (xs ++ [x]) =
      neighbours f xs ++ (xs.getLast?.map fun last => f last x).toList := by
  induction xs with
  | nil => rfl
  | cons y xs ih =>
    cases xs with
    | nil => rfl
    | cons z xs =>
      show f y z :: neighbours f (z :: xs ++ [x]) = f y z :: neighbours f (z :: xs) ++ _
      rw [ih, List.getLast?_cons_cons]
      rfl

/-- A single element has no neighbour. -/
theorem neighbours_of_length_le {xs : List α} (h : ¬1 < xs.length) : neighbours f xs = [] := by
  cases xs with
  | nil => rfl
  | cons x xs =>
    cases xs with
    | nil => rfl
    | cons y xs => simp at h

end Neighbours

end Lib
end Maja
