/-
# The first of a ranking

The `k` entries that rank first, in the order of their ranks.  No matter how they
are selected and in which order the entries are handed out: when no two entries
have one rank there is one such list (`TopOf.eq_take_sort`), and it is the same for
every order of the entries (`TopOf.eq_of_perm`).
-/

import Maja.Lib.StableSort

namespace Maja
namespace Lib

variable {α κ : Type}

/-- `selected` are the `k` entries of `as` that rank first, in the order of their
ranks; `before a b` says that `a` does not rank behind `b`. -/
structure TopOf (before : α → α → Prop) (k : ℕ) (as selected : List α) : Prop where
  length : selected.length = min k as.length
  sorted : selected.Pairwise before
  /-- No entry that is left out ranks before one that is not. -/
  first : ∃ rest, (selected ++ rest).Perm as ∧ ∀ a ∈ selected, ∀ b ∈ rest, before a b

/-- A way to select the first of a ranking. -/
structure Selection (before : α → α → Prop) where
  select : ℕ → List α → List α
  topOf : ∀ k as, TopOf before k as (select k as)

section Subperm

variable {before : α → α → Prop} {k : ℕ} {as selected : List α}

/-- What ranks first is some of the entries. -/
theorem TopOf.subperm (h : TopOf before k as selected) : selected.Subperm as := by
  obtain ⟨rest, hperm, -⟩ := h.first
  exact (List.sublist_append_left selected rest).subperm.trans hperm.subperm

/-- A selection of different elements has different elements. -/
theorem TopOf.nodup (h : TopOf before k as selected) (has : as.Nodup) : selected.Nodup := by
  obtain ⟨rest, hperm, -⟩ := h.first
  exact (hperm.nodup_iff.2 has).of_append_left

/-- What is left out ranks behind everything that is not. -/
theorem TopOf.before_of_notMem (h : TopOf before k as selected) {a b : α} (ha : a ∈ selected)
    (hb : b ∈ as) (hout : b ∉ selected) : before a b := by
  obtain ⟨rest, hperm, hfirst⟩ := h.first
  exact hfirst a ha b ((List.mem_append.1 (hperm.mem_iff.2 hb)).resolve_left hout)

end Subperm

/-! ### Rankings by a number -/

section Rank

variable [LinearOrder κ] {before : α → α → Prop} {rank : α → κ} {k : ℕ}
  {as bs selected selected' : List α}

/-- Sort the entries and keep the first. -/
def Selection.bySorting (rank : α → κ) (hrank : ∀ a b, before a b ↔ rank a ≤ rank b) :
    Selection before where
  select k as := (sortByKey rank as).take k
  topOf k as := by
    have hsort := stablySorted_sortByKey rank as
    have hsorted : (sortByKey rank as).Pairwise before :=
      hsort.sorted.imp fun {a b} => (hrank a b).2
    refine ⟨?_, hsorted.sublist (List.take_sublist ..), (sortByKey rank as).drop k, ?_, ?_⟩
    · rw [List.length_take, hsort.perm.length_eq]
    · rw [List.take_append_drop]
      exact hsort.perm
    · rw [← List.take_append_drop k (sortByKey rank as), List.pairwise_append] at hsorted
      exact hsorted.2.2

/-- **There is one list of the first of a ranking**, the front of the sorted entries. -/
theorem TopOf.eq_take_sort (h : TopOf before k as selected)
    (hrank : ∀ a b, before a b ↔ rank a ≤ rank b) (hnodup : (as.map rank).Nodup) :
    selected = (sortByKey rank as).take k := by
  obtain ⟨rest, hperm, hfirst⟩ := h.first
  have hrest := stablySorted_sortByKey rank rest
  -- the selection in front of the sorted rest is sorted
  have hsorted : (selected ++ sortByKey rank rest).Pairwise fun a b => rank a ≤ rank b :=
    List.pairwise_append.2 ⟨h.sorted.imp fun {a b} => (hrank a b).1, hrest.sorted,
      fun a ha b hb => (hrank a b).1 (hfirst a ha b (hrest.perm.mem_iff.1 hb))⟩
  have hall : as.Perm (selected ++ sortByKey rank rest) :=
    hperm.symm.trans (hrest.perm.symm.append_left selected)
  rw [sortByKey_eq_of_perm hnodup hsorted hall]
  obtain hk | hk := Nat.le_total k as.length
  · rw [List.take_left' (by rw [h.length, Nat.min_eq_left hk])]
  · have hlength : selected.length = as.length := by rw [h.length, Nat.min_eq_right hk]
    have hnil : rest = [] := by
      have := hperm.length_eq
      rw [List.length_append] at this
      exact List.eq_nil_of_length_eq_zero (by omega)
    rw [hnil, sortByKey, List.mergeSort_nil, List.append_nil, List.take_of_length_le (by omega)]

/-- **The order of the entries does not matter.** -/
theorem TopOf.eq_of_perm (h : TopOf before k as selected) (h' : TopOf before k bs selected')
    (hrank : ∀ a b, before a b ↔ rank a ≤ rank b) (hperm : as.Perm bs)
    (hnodup : (as.map rank).Nodup) : selected = selected' := by
  have hnodup' : (bs.map rank).Nodup := (hperm.map rank).nodup_iff.1 hnodup
  have hsort := stablySorted_sortByKey rank bs
  rw [h.eq_take_sort hrank hnodup, h'.eq_take_sort hrank hnodup',
    sortByKey_eq_of_perm hnodup hsort.sorted (hperm.trans hsort.perm.symm)]

end Rank

end Lib
end Maja
