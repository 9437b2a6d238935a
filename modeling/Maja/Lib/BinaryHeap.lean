/-
# Max-heaps

What the documentation of `std::collections::BinaryHeap` promises and no more:
the heap holds a multiset of elements, `pop` takes out one that no other element
exceeds, and `peek` shows the one that `pop` would take.  Which one of several
greatest elements that is, is left open, so what is proved over an arbitrary
`BinaryHeap` does not depend on how the heap is laid out.

`BinaryHeap.sorted` is one such heap, a list kept in descending order, on which a
program over heaps can be run.
-/

import Mathlib.Data.Multiset.Basic
import Mathlib.Data.Multiset.AddSub
import Mathlib.Data.Multiset.MapFold
import Mathlib.Data.List.Sort
import Mathlib.Order.Basic

namespace Maja
namespace Lib

universe u

/-- A max-heap of elements that `le` orders. -/
structure BinaryHeap (α : Type u) (le : α → α → Prop) where
  /-- The representation. -/
  Carrier : Type u
  /-- `BinaryHeap::new`. -/
  empty : Carrier
  /-- `push`. -/
  push : α → Carrier → Carrier
  /-- `extend`.  How the elements are taken in is left open. -/
  extend : Carrier → List α → Carrier
  /-- `pop`. -/
  pop : Carrier → Option (α × Carrier)
  /-- `peek`. -/
  peek : Carrier → Option α
  /-- What the heap holds. -/
  elems : Carrier → Multiset α
  elems_empty : elems empty = 0
  elems_push : ∀ a h, elems (push a h) = a ::ₘ elems h
  elems_extend : ∀ h as, elems (extend h as) = (as : Multiset α) + elems h
  pop_eq_none : ∀ h, pop h = none ↔ elems h = 0
  elems_pop : ∀ h a h', pop h = some (a, h') → elems h = a ::ₘ elems h'
  /-- `pop` takes a greatest element. -/
  le_of_pop : ∀ h a h', pop h = some (a, h') → ∀ b ∈ elems h', le b a
  peek_eq : ∀ h, peek h = (pop h).map Prod.fst

namespace BinaryHeap

variable {α : Type u} {le : α → α → Prop} (H : BinaryHeap α le)

attribute [simp] elems_extend

/-- An element that is peeked at is held, and no other exceeds it. -/
theorem le_of_peek {h : H.Carrier} {a : α} (hpeek : H.peek h = some a) :
    a ∈ H.elems h ∧ ∀ b ∈ H.elems h, b = a ∨ le b a := by
  rw [H.peek_eq, Option.map_eq_some_iff] at hpeek
  obtain ⟨⟨a', h'⟩, hpop, rfl⟩ := hpeek
  rw [H.elems_pop h a' h' hpop]
  refine ⟨Multiset.mem_cons_self _ _, fun b hb => ?_⟩
  rcases Multiset.mem_cons.1 hb with rfl | hb
  · exact .inl rfl
  · exact .inr (H.le_of_pop h a' h' hpop b hb)

/-- There is nothing to peek at exactly when the heap is empty. -/
theorem peek_eq_none {h : H.Carrier} : H.peek h = none ↔ H.elems h = 0 := by
  rw [H.peek_eq, Option.map_eq_none_iff, H.pop_eq_none]

section Sorted

variable (le) [DecidableRel le] [Std.Total le] [IsTrans α le]

/-- Put an element in its place of a list in descending order. -/
def insertSorted (h : {as : List α // as.Pairwise fun a b => le b a}) (a : α) :
    {as : List α // as.Pairwise fun a b => le b a} :=
  ⟨h.val.orderedInsert (fun a b => le b a) a,
    haveI : Std.Total fun a b => le b a := ⟨fun a b => Std.Total.total b a⟩
    haveI : IsTrans α fun a b => le b a := ⟨fun _ _ _ hab hbc => IsTrans.trans _ _ _ hbc hab⟩
    h.property.orderedInsert a⟩

/-- Inserting an element adds it to the list. -/
theorem coe_insertSorted (h : {as : List α // as.Pairwise fun a b => le b a}) (a : α) :
    ((insertSorted le h a).val : Multiset α) = a ::ₘ (h.val : Multiset α) :=
  Multiset.coe_eq_coe.2 (List.perm_orderedInsert (fun a b => le b a) a h.val)

/-- Inserting one element after the other adds all of them. -/
theorem coe_foldl_insertSorted (h : {as : List α // as.Pairwise fun a b => le b a}) (as : List α) :
    ((as.foldl (insertSorted le) h).val : Multiset α) = (as : Multiset α) + (h.val : Multiset α) := by
  induction as generalizing h with
  | nil => simp
  | cons a as ih =>
    rw [List.foldl_cons, ih, coe_insertSorted, Multiset.add_cons, ← Multiset.cons_coe,
      Multiset.cons_add]

/-- A heap kept as a list in descending order. -/
def sorted : BinaryHeap α le where
  Carrier := {as : List α // as.Pairwise fun a b => le b a}
  empty := ⟨[], .nil⟩
  push a h := insertSorted le h a
  extend h as := as.foldl (insertSorted le) h
  pop h := match h with
    | ⟨[], _⟩ => none
    | ⟨a :: as, has⟩ => some (a, ⟨as, has.of_cons⟩)
  peek h := h.val.head?
  elems h := h.val
  elems_empty := rfl
  elems_push a h := coe_insertSorted le h a
  elems_extend h as := coe_foldl_insertSorted le h as
  pop_eq_none h := by
    rcases h with ⟨_ | ⟨a, as⟩, has⟩ <;> simp
  elems_pop h a h' hpop := by
    rcases h with ⟨_ | ⟨b, as⟩, has⟩
    · simp at hpop
    · simp only [Option.some.injEq, Prod.mk.injEq] at hpop
      obtain ⟨rfl, rfl⟩ := hpop
      rfl
  le_of_pop h a h' hpop b hb := by
    rcases h with ⟨_ | ⟨c, as⟩, has⟩
    · simp at hpop
    · simp only [Option.some.injEq, Prod.mk.injEq] at hpop
      obtain ⟨rfl, rfl⟩ := hpop
      exact List.rel_of_pairwise_cons has (by simpa using hb)
  peek_eq h := by
    rcases h with ⟨_ | ⟨a, as⟩, has⟩ <;> rfl

end Sorted

end BinaryHeap

end Lib
end Maja
