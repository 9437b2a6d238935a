/-
# The largest of a hash map

A hash map hands out its entries in an order of its own.  Sorting them by a weight,
heaviest first, and keeping the first of them leaves the choice between entries of
one weight to that order: the selection is the same in every order when the cut
does not run through a weight (`largest_perm`).
-/

import Maja.Lib.StableSort

namespace Maja
namespace Lib

variable {α β : Type}

/-- The order in which a hash map hands out its entries: any order. -/
structure IterOrder (α : Type) where
  /-- The entries as they are handed out. -/
  arrange : List α → List α
  perm : ∀ as, (arrange as).Perm as

namespace IterOrder

/-- The order of the list. -/
def asListed : IterOrder α := ⟨id, fun as => .refl as⟩

/-- The list backwards. -/
def reversed : IterOrder α := ⟨List.reverse, List.reverse_perm⟩

/-- An order that hands out the entries `as` as `bs`. -/
def ofPerm [DecidableEq α] {as bs : List α} (h : bs.Perm as) : IterOrder α where
  arrange xs := if xs = as then bs else xs
  perm xs := by
    split_ifs with hxs
    · exact hxs ▸ h
    · exact .refl xs

/-- The order that a rearrangement gives. -/
@[simp] theorem arrange_ofPerm [DecidableEq α] {as bs : List α} (h : bs.Perm as) :
    (ofPerm h).arrange as = bs := if_pos rfl

end IterOrder

/-- `sort_by_key(Reverse(weight))`, cut to `number` entries unless that is `0`. -/
def largest (weight : α → ℕ) (number : ℕ) (as : List α) : List α :=
  let sorted := sortByKey (fun a => OrderDual.toDual (weight a)) as
  if number > 0 then sorted.take number else sorted

/-- The cut does not run through a weight: everything is kept, or `number` entries
are all there are from some weight on. -/
def CleanCut (weight : α → ℕ) (number : ℕ) (as : List α) : Prop :=
  number = 0 ∨ as.length ≤ number ∨
    ∃ bound, (as.filter fun a => bound ≤ weight a).length = number

section Largest

variable {weight : α → ℕ} {number : ℕ} {as bs : List α}

/-- Whether the cut is clean does not depend on the order. -/
theorem CleanCut.perm (h : CleanCut weight number as) (hab : as.Perm bs) :
    CleanCut weight number bs := by
  obtain h | h | ⟨bound, h⟩ := h
  · exact .inl h
  · exact .inr (.inl (hab.length_eq ▸ h))
  · exact .inr (.inr ⟨bound, (hab.filter _).length_eq ▸ h⟩)

/-- The sort puts everything from a weight on in front of the rest. -/
theorem filter_append_filter_of_pairwise {p : α → Bool}
    (h : as.Pairwise fun a b => p b → p a) : as.filter p ++ as.filter (fun a => !p a) = as := by
  induction as with
  | nil => rfl
  | cons a as ih =>
    obtain ⟨hhead, htail⟩ := List.pairwise_cons.1 h
    by_cases ha : p a
    · simpa [ha] using ih htail
    · -- nothing behind `a` has the property either
      have hnone : as.filter p = [] := List.filter_eq_nil_iff.2 fun b hb hpb => ha (hhead b hb hpb)
      have hall : as.filter (fun a => !p a) = as :=
        List.filter_eq_self.2 fun b hb => by simpa using fun hpb => ha (hhead b hb hpb)
      simp [ha, hnone, hall]

/-- The selection is some of the entries. -/
theorem largest_subperm : (largest weight number as).Subperm as := by
  have hperm := sortByKey_perm (fun a => OrderDual.toDual (weight a)) as
  unfold largest
  split_ifs
  · exact (List.take_sublist ..).subperm.trans hperm.subperm
  · exact hperm.subperm

/-- Without a cut everything is selected. -/
theorem largest_perm_self (h : number = 0 ∨ as.length ≤ number) :
    (largest weight number as).Perm as := by
  have hperm := sortByKey_perm (fun a => OrderDual.toDual (weight a)) as
  unfold largest
  split_ifs with hnumber
  · have hall : as.length ≤ number := h.resolve_left (Nat.ne_of_gt hnumber)
    rw [List.take_of_length_le (hperm.length_eq.trans_le hall)]
    exact hperm
  · exact hperm

/-- A cut in front of all weights below a bound selects the weights from the bound on. -/
theorem largest_perm_filter {bound : ℕ} (hnumber : 0 < number)
    (h : (as.filter fun a => bound ≤ weight a).length = number) :
    (largest weight number as).Perm (as.filter fun a => bound ≤ weight a) := by
  have hsorted := stablySorted_sortByKey (fun a => OrderDual.toDual (weight a)) as
  have hfilter := hsorted.perm.filter fun a => decide (bound ≤ weight a)
  have hsplit := filter_append_filter_of_pairwise (p := fun a => decide (bound ≤ weight a))
    (hsorted.sorted.imp fun {a b} (hab : weight b ≤ weight a) hb => by
      simp only [decide_eq_true_eq] at hb ⊢
      exact hb.trans hab)
  rw [largest, if_pos hnumber, ← hsplit, List.take_left' (hfilter.length_eq.trans h)]
  exact hfilter

/-- **Behind a clean cut the selection is the same in every order.** -/
theorem largest_perm (h : CleanCut weight number as) (hab : as.Perm bs) :
    (largest weight number as).Perm (largest weight number bs) := by
  obtain hall | ⟨bound, hbound⟩ := or_assoc.2 h
  · have hall' : number = 0 ∨ bs.length ≤ number := hab.length_eq ▸ hall
    exact (largest_perm_self hall).trans (hab.trans (largest_perm_self hall').symm)
  · obtain hzero | hnumber := Nat.eq_zero_or_pos number
    · exact (largest_perm_self (.inl hzero)).trans
        (hab.trans (largest_perm_self (.inl hzero)).symm)
    · have hfilter := hab.filter fun a => decide (bound ≤ weight a)
      exact (largest_perm_filter hnumber hbound).trans
        (hfilter.trans (largest_perm_filter hnumber (hfilter.length_eq ▸ hbound)).symm)

/-- Nothing that is left out is heavier than anything that is not. -/
theorem largest_le {a b : α} (ha : a ∈ largest weight number as) (hb : b ∈ as)
    (hout : b ∉ largest weight number as) : weight b ≤ weight a := by
  have hsort := stablySorted_sortByKey (fun a => OrderDual.toDual (weight a)) as
  have hb' := hsort.perm.mem_iff.2 hb
  unfold largest at ha hout
  split_ifs at ha hout
  · have hsorted := hsort.sorted
    rw [← List.take_append_drop number (sortByKey _ as), List.mem_append] at hb'
    rw [← List.take_append_drop number (sortByKey _ as), List.pairwise_append] at hsorted
    exact hsorted.2.2 a ha b (hb'.resolve_left hout)
  · exact absurd hb' hout

/-- The selection commutes with a map that keeps the weights. -/
theorem map_largest {weight' : β → ℕ} {f : α → β} (h : ∀ a, weight' (f a) = weight a) :
    (largest weight number as).map f = largest weight' number (as.map f) := by
  have hsort : (sortByKey (fun a => OrderDual.toDual (weight a)) as).map f =
      sortByKey (fun b => OrderDual.toDual (weight' b)) (as.map f) := by
    refine map_sortByKey ?_ as
    exact fun a => congrArg OrderDual.toDual (h a)
  unfold largest
  split_ifs
  · rw [List.map_take, hsort]
  · exact hsort

/-- Entries of one weight are selected in the order in which they are handed out. -/
theorem largest_of_ties {n : ℕ} (h : ∀ a ∈ as, weight a = n) (hnumber : 0 < number) :
    largest weight number as = as.take number := by
  have hsorted : as.Pairwise fun a b => OrderDual.toDual (weight a) ≤ OrderDual.toDual (weight b) :=
    List.pairwise_of_forall_mem_list fun a ha b hb => by rw [h a ha, h b hb]
  rw [largest, sortByKey_of_pairwise hsorted, if_pos hnumber]

end Largest

end Lib
end Maja
