/-
# Spans of a line

A span is a start and a length.  `Packed lo hi` says of a list of spans that
each is non-empty, that they follow one another without overlap, and that all
lie in `[lo, hi)`; gaps are allowed.  `Covers lo hi` says that no point of
`[lo, hi)` is in a gap.  Both split at a point that no span crosses.  `Adjacent lo`
says of spans, which may be empty, that each starts where the one before it ends.
-/

import Mathlib.Algebra.GroupWithZero.Nat
import Mathlib.Data.List.Basic
import Mathlib.Data.List.Pairwise
import Mathlib.Order.Basic
import Mathlib.Tactic.Common

namespace Maja
namespace Lib

/-- The points `start, …, start + len - 1`. -/
structure Span where
  start : ℕ
  len : ℕ
  deriving DecidableEq, Repr

namespace Span

/-- The first point behind the span. -/
def stop (s : Span) : ℕ := s.start + s.len

/-- The span contains the point. -/
def Contains (s : Span) (i : ℕ) : Prop := s.start ≤ i ∧ i < s.stop

instance (s : Span) (i : ℕ) : Decidable (s.Contains i) := inferInstanceAs (Decidable (_ ∧ _))

/-- Non-empty spans of `[lo, hi)`, each behind the one before it. -/
def Packed : ℕ → ℕ → List Span → Prop
  | _, _, [] => True
  | lo, hi, s :: rest => lo ≤ s.start ∧ 0 < s.len ∧ s.stop ≤ hi ∧ Packed s.stop hi rest

/-- Every point of `[lo, hi)` is in some span. -/
def Covers (lo hi : ℕ) (spans : List Span) : Prop :=
  ∀ i, lo ≤ i → i < hi → ∃ s ∈ spans, s.Contains i

/-- Each span starts where the one before it ends, the first one at `lo`. -/
def Adjacent : ℕ → List Span → Prop
  | _, [] => True
  | lo, s :: rest => s.start = lo ∧ Adjacent s.stop rest

variable {lo lo' mid hi hi' : ℕ} {xs ys : List Span}

/-! ### Packed lists -/

/-- Nothing is packed. -/
@[simp] theorem packed_nil : Packed lo hi [] := trivial

/-- Spans are packed when the first lies in front and the others are packed behind it. -/
@[simp] theorem packed_cons {s : Span} : Packed lo hi (s :: xs) ↔
    lo ≤ s.start ∧ 0 < s.len ∧ s.stop ≤ hi ∧ Packed s.stop hi xs := Iff.rfl

/-- Packed spans are packed in a wider range. -/
theorem Packed.mono (h : Packed lo hi xs) (hlo : lo' ≤ lo) (hhi : hi ≤ hi') :
    Packed lo' hi' xs := by
  induction xs generalizing lo lo' with
  | nil => trivial
  | cons s rest ih =>
      obtain ⟨h₁, h₂, h₃, h₄⟩ := h
      exact ⟨by omega, h₂, by omega, ih h₄ (Nat.le_refl _)⟩

/-- Packed spans, and packed spans behind them. -/
theorem Packed.append (hx : Packed lo mid xs) (hy : Packed mid hi ys) (hlo : lo ≤ mid)
    (hmid : mid ≤ hi) : Packed lo hi (xs ++ ys) := by
  induction xs generalizing lo with
  | nil => exact hy.mono hlo (Nat.le_refl _)
  | cons s rest ih =>
      obtain ⟨h₁, h₂, h₃, h₄⟩ := hx
      exact ⟨h₁, h₂, by omega, ih h₄ h₃⟩

/-- Every span of a packed list lies in the interval. -/
theorem Packed.mem (h : Packed lo hi xs) {s : Span} (hs : s ∈ xs) :
    lo ≤ s.start ∧ 0 < s.len ∧ s.stop ≤ hi := by
  induction xs generalizing lo with
  | nil => simp at hs
  | cons t rest ih =>
      obtain ⟨h₁, h₂, h₃, h₄⟩ := h
      rcases List.mem_cons.1 hs with rfl | hs
      · exact ⟨h₁, h₂, h₃⟩
      · obtain ⟨h₅, h₆, h₇⟩ := ih h₄ hs
        simp only [stop] at h₅
        exact ⟨by omega, h₆, h₇⟩

/-- Packed spans are pairwise disjoint and in increasing order. -/
theorem Packed.pairwise (h : Packed lo hi xs) : xs.Pairwise fun a b => a.stop ≤ b.start := by
  induction xs generalizing lo with
  | nil => exact List.Pairwise.nil
  | cons s rest ih =>
      obtain ⟨-, -, -, h₄⟩ := h
      exact List.Pairwise.cons (fun t ht => (h₄.mem ht).1) (ih h₄)

/-! ### Coverage -/

/-- An empty range is covered. -/
theorem covers_of_le (h : hi ≤ lo) : Covers lo hi xs := fun i h₁ h₂ => by omega

/-- Nothing covers no byte. -/
theorem not_covers_nil (h : lo < hi) : ¬Covers lo hi [] := fun hc => by
  obtain ⟨s, hs, -⟩ := hc lo (Nat.le_refl _) h
  simp at hs

/-- One span covers an interval that it contains. -/
theorem covers_singleton {s : Span} (hlo : s.start ≤ lo) (hhi : hi ≤ s.stop) :
    Covers lo hi [s] := fun i h₁ h₂ => ⟨s, by simp, by omega, by omega⟩

/-- Coverage of two neighbouring intervals by lists that do not cross the border
is the coverage of each. -/
theorem covers_append (hx : Packed lo mid xs) (hy : Packed mid hi ys) (hlo : lo ≤ mid)
    (hmid : mid ≤ hi) : Covers lo hi (xs ++ ys) ↔ Covers lo mid xs ∧ Covers mid hi ys := by
  constructor
  · intro h
    constructor
    · intro i h₁ h₂
      obtain ⟨s, hs, hi₁, hi₂⟩ := h i h₁ (by omega)
      rcases List.mem_append.1 hs with hs | hs
      · exact ⟨s, hs, hi₁, hi₂⟩
      · have := (hy.mem hs).1
        omega
    · intro i h₁ h₂
      obtain ⟨s, hs, hi₁, hi₂⟩ := h i (by omega) h₂
      rcases List.mem_append.1 hs with hs | hs
      · have := (hx.mem hs).2.2
        omega
      · exact ⟨s, hs, hi₁, hi₂⟩
  · rintro ⟨h₁, h₂⟩ i hlo' hhi'
    by_cases hi : i < mid
    · obtain ⟨s, hs, hc⟩ := h₁ i hlo' hi
      exact ⟨s, List.mem_append_left _ hs, hc⟩
    · obtain ⟨s, hs, hc⟩ := h₂ i (by omega) hhi'
      exact ⟨s, List.mem_append_right _ hs, hc⟩

/-! ### Adjacent spans -/

/-- The starts of adjacent spans are the sums of the lengths before them. -/
theorem Adjacent.start_eq (h : Adjacent lo xs) {i : ℕ} {s : Span} (hs : xs[i]? = some s) :
    s.start = lo + ((xs.take i).map Span.len).sum := by
  induction xs generalizing lo i with
  | nil => simp at hs
  | cons t rest ih =>
      obtain ⟨hstart, hrest⟩ := h
      cases i with
      | zero =>
          obtain rfl := Option.some.inj hs
          simpa using hstart
      | succ i =>
          have hnext := ih hrest hs
          rw [List.take_succ_cons, List.map_cons, List.sum_cons, hnext, stop, hstart]
          omega

/-- Nothing starts before the first of adjacent spans. -/
theorem Adjacent.le (h : Adjacent lo xs) {s : Span} (hs : s ∈ xs) : lo ≤ s.start := by
  obtain ⟨i, hi⟩ := List.getElem?_of_mem hs
  have := h.start_eq hi
  omega

/-- Adjacent spans are pairwise disjoint and in increasing order. -/
theorem Adjacent.pairwise (h : Adjacent lo xs) : xs.Pairwise fun a b => a.stop ≤ b.start := by
  induction xs generalizing lo with
  | nil => exact List.Pairwise.nil
  | cons s rest ih => exact List.Pairwise.cons (fun t ht => h.2.le ht) (ih h.2)

/-- Adjacent spans leave no gap. -/
theorem Adjacent.isChain (h : Adjacent lo xs) : xs.IsChain fun a b => a.stop = b.start := by
  induction xs generalizing lo with
  | nil => exact .nil
  | cons s rest ih =>
      have hrest := ih h.2
      cases rest with
      | nil => exact .singleton s
      | cons t rest => exact .cons_cons h.2.1.symm hrest

end Span

end Lib
end Maja
