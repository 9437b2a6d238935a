/-
# Sorting by a key, stably

`sort_by_key` of a slice.  `StablySorted key as bs` says what it promises: `bs` is
a rearrangement of `as`, in non-decreasing order of the keys, and the elements of
one key keep their order.
-/

import Mathlib.Data.List.Sort

namespace Maja
namespace Lib

variable {α β κ : Type} [LinearOrder κ]

/-- `sort_by_key`. -/
def sortByKey (key : α → κ) (as : List α) : List α := as.mergeSort fun a b => key a ≤ key b

/-- `bs` is `as` sorted by a key, equal keys in the order of `as`. -/
structure StablySorted (key : α → κ) (as bs : List α) : Prop where
  perm : bs.Perm as
  sorted : bs.Pairwise fun a b => key a ≤ key b
  stable : ∀ k, bs.filter (fun b => key b = k) = as.filter fun a => key a = k

/-- The order of the keys is transitive. -/
theorem sortByKey_trans (key : α → κ) (a b c : α) (hab : decide (key a ≤ key b))
    (hbc : decide (key b ≤ key c)) : decide (key a ≤ key c) := by
  simp only [decide_eq_true_eq] at hab hbc ⊢
  exact hab.trans hbc

/-- The order of the keys is total. -/
theorem sortByKey_total (key : α → κ) (a b : α) :
    decide (key a ≤ key b) || decide (key b ≤ key a) := by
  simpa using le_total (key a) (key b)

/-- Sorting rearranges the list. -/
theorem sortByKey_perm (key : α → κ) (as : List α) : (sortByKey key as).Perm as :=
  List.mergeSort_perm as _

/-- What is sorted stays as it is. -/
theorem sortByKey_of_pairwise {key : α → κ} {as : List α}
    (h : as.Pairwise fun a b => key a ≤ key b) : sortByKey key as = as :=
  List.mergeSort_of_pairwise (by simpa using h)

/-- **`sort_by_key` keeps its promise.** -/
theorem stablySorted_sortByKey (key : α → κ) (as : List α) :
    StablySorted key as (sortByKey key as) := by
  refine ⟨sortByKey_perm key as, ?_, fun k => ?_⟩
  · simpa [sortByKey] using
      List.pairwise_mergeSort (sortByKey_trans key) (sortByKey_total key) as
  · -- the elements of one key are sorted already, so sorting keeps them as they are
    have hsorted : (as.filter fun a => key a = k).Pairwise fun a b => decide (key a ≤ key b) := by
      refine List.pairwise_of_forall_mem_list fun a ha b hb => ?_
      have hka : key a = k := by simpa using (List.mem_filter.1 ha).2
      have hkb : key b = k := by simpa using (List.mem_filter.1 hb).2
      simp [hka, hkb]
    have hsub : (as.filter fun a => key a = k).Sublist (sortByKey key as) :=
      List.sublist_mergeSort (sortByKey_trans key) (sortByKey_total key) hsorted
        List.filter_sublist
    have hsub' := hsub.filter fun a => key a = k
    rw [List.filter_filter] at hsub'
    simp only [Bool.and_self] at hsub'
    exact (hsub'.eq_of_length
      ((sortByKey_perm key as).filter fun a => key a = k).length_eq.symm).symm

/-- What is sorted is the sort of all its rearrangements, if no two elements have one key. -/
theorem sortByKey_eq_of_perm {key : α → κ} {as bs : List α} (hnodup : (as.map key).Nodup)
    (hbs : bs.Pairwise fun a b => key a ≤ key b) (hperm : as.Perm bs) : sortByKey key as = bs := by
  have hsort := stablySorted_sortByKey key as
  refine List.Perm.eq_of_pairwise (fun a b ha hb hab hba => ?_) hsort.sorted hbs
    (hsort.perm.trans hperm)
  exact List.inj_on_of_nodup_map hnodup (hsort.perm.mem_iff.1 ha) (hperm.mem_iff.2 hb)
    (le_antisymm hab hba)

/-- Sorting commutes with a map that keeps the keys. -/
theorem map_sortByKey {key : α → κ} {key' : β → κ} {f : α → β} (h : ∀ a, key' (f a) = key a)
    (as : List α) : (sortByKey key as).map f = sortByKey key' (as.map f) :=
  List.map_mergeSort fun a _ b _ => by rw [h, h]

/-- A map that keeps the keys keeps a stable sort. -/
theorem StablySorted.map {key : α → κ} {key' : β → κ} {f : α → β} (h : ∀ a, key' (f a) = key a)
    {as bs : List α} (hs : StablySorted key as bs) : StablySorted key' (as.map f) (bs.map f) := by
  refine ⟨hs.perm.map f, List.pairwise_map.2 (hs.sorted.imp fun {a b} hab => ?_), fun k => ?_⟩
  · rwa [h, h]
  · have hcomp : ((fun b => decide (key' b = k)) ∘ f) = fun a => decide (key a = k) := by
      funext a
      simp [h]
    rw [List.filter_map, List.filter_map, hcomp, hs.stable k]

end Lib
end Maja
