/-
# Pairs put in order

A relation by which any two different elements can be put in order, in one order
only, makes a pair the representative of an unordered one: two pairs put in order
are equal exactly when they are equal as unordered pairs (`sortPair_eq_iff`).  The
strict and the non-strict part of a linear order both do, and so do lexicographic
combinations.
-/

import Mathlib.Data.Sym.Sym2

namespace Maja
namespace Lib

variable {α β : Type} {r : α → α → Prop} {s : β → β → Prop}

/-- Any two different elements can be put in order, in one order only. -/
structure Sorts (r : α → α → Prop) : Prop where
  antisymm : ∀ {a b}, r a b → r b a → a = b
  connex : ∀ {a b}, a ≠ b → r a b ∨ r b a

/-- A pair put in order. -/
def sortPair (r : α → α → Prop) [DecidableRel r] (a b : α) : α × α :=
  if r a b then (a, b) else (b, a)

namespace Sorts

/-- The order itself sorts. -/
theorem le (α : Type) [LinearOrder α] : Sorts fun a b : α => a ≤ b :=
  ⟨le_antisymm, fun _ => le_total _ _⟩

/-- The strict order sorts, too. -/
theorem lt (α : Type) [LinearOrder α] : Sorts fun a b : α => a < b :=
  ⟨fun h h' => absurd h' h.asymm, lt_or_gt_of_ne⟩

/-- First by a strict order, then by the other one. -/
theorem lex (hr : Sorts r) (hirrefl : ∀ a, ¬r a a) (hs : Sorts s) :
    Sorts fun x y : α × β => r x.1 y.1 ∨ x.1 = y.1 ∧ s x.2 y.2 := by
  constructor
  · rintro ⟨a, b⟩ ⟨a', b'⟩ h h'
    rcases h with h | ⟨rfl, h⟩ <;> rcases h' with h' | ⟨heq, h'⟩
    · obtain rfl : a = a' := hr.antisymm h h'
      exact absurd h (hirrefl a)
    · obtain rfl : a' = a := heq
      exact absurd h (hirrefl a')
    · exact absurd h' (hirrefl a)
    · exact Prod.ext rfl (hs.antisymm h h')
  · rintro ⟨a, b⟩ ⟨a', b'⟩ hne
    by_cases ha : a = a'
    · subst ha
      have hb : b ≠ b' := fun h => hne (by rw [h])
      exact (hs.connex hb).imp (fun h => .inr ⟨rfl, h⟩) fun h => .inr ⟨rfl, h⟩
    · exact (hr.connex ha).imp .inl .inl

end Sorts

variable [DecidableRel r]

/-- The order in which a pair is given does not matter. -/
theorem sortPair_comm (h : Sorts r) (a b : α) : sortPair r a b = sortPair r b a := by
  unfold sortPair
  split_ifs with hab hba hba
  · rw [h.antisymm hab hba]
  · rfl
  · rfl
  · by_contra hne
    have hdiff : a ≠ b := fun heq => hne (by rw [heq])
    exact (h.connex hdiff).elim hab hba

/-- A choice of one of two results is the result of a pair put in order. -/
theorem ite_eq_sortPair (f : α × α → β) (a b : α) :
    (if r a b then f (a, b) else f (b, a)) = f (sortPair r a b) := by
  rw [sortPair, apply_ite f]

/-- Putting a pair in order keeps its elements. -/
theorem mk_sortPair (a b : α) : s((sortPair r a b).1, (sortPair r a b).2) = s(a, b) := by
  unfold sortPair
  split_ifs
  · rfl
  · exact Sym2.eq_swap

/-- **Pairs put in order are unordered pairs.** -/
theorem sortPair_eq_iff (h : Sorts r) (a b c d : α) :
    sortPair r a b = sortPair r c d ↔ s(a, b) = s(c, d) := by
  constructor
  · intro heq
    rw [← mk_sortPair (r := r) a b, heq, mk_sortPair]
  · intro heq
    rcases Sym2.eq_iff.1 heq with ⟨rfl, rfl⟩ | ⟨rfl, rfl⟩
    · rfl
    · exact sortPair_comm h a b

end Lib
end Maja
