/-
# Tables

A hash map from keys to values.  A table keeps another when every value that was
ever put in is still the value of its key: so it is as long as only new keys are
inserted.

A table that a loop updates entry by entry holds under a key what the items of
that key, in their order, make of its first value (`lookup_upsertAll_empty`).
-/

import Mathlib.Data.List.AList
import Mathlib.Tactic.Common

namespace Maja
namespace Lib

/-- A `HashMap`. -/
abbrev Table (κ α : Type) : Type := AList fun _ : κ => α

namespace Table

variable {κ α : Type} [DecidableEq κ] {t t' t'' : Table κ α}

/-- Every key of `t` has in `t'` the value it has in `t`. -/
def Keeps (t t' : Table κ α) : Prop := ∀ k v, t.lookup k = some v → t'.lookup k = some v

/-- A table keeps its own entries. -/
theorem Keeps.refl (t : Table κ α) : Keeps t t := fun _ _ h => h

/-- Keeping entries is transitive. -/
theorem Keeps.trans (h : Keeps t t') (h' : Keeps t' t'') : Keeps t t'' :=
  fun k v hk => h' k v (h k v hk)

/-- Inserting a new key keeps all others. -/
theorem keeps_insert {k : κ} {v : α} (h : t.lookup k = none) : Keeps t (t.insert k v) := by
  intro k' v' hk'
  have hne : k' ≠ k := by
    rintro rfl
    rw [h] at hk'
    cases hk'
  rw [AList.lookup_insert_ne hne]
  exact hk'

/-- `entry(k).or_insert(init)`, and a change of the value there. -/
def upsert (t : Table κ α) (k : κ) (init : α) (f : α → α) : Table κ α :=
  t.insert k (f ((t.lookup k).getD init))

section Fold

variable {ι : Type} (key : ι → κ) (init : ι → α) (step : ι → α → α) (items : List ι)

/-- The loop that files every item under its key. -/
def upsertAll (t : Table κ α) : Table κ α :=
  items.foldl (fun t i => t.upsert (key i) (init i) (step i)) t

/-- The value of a key depends on the items of that key only. -/
theorem lookup_upsertAll (t : Table κ α) (k : κ) :
    (upsertAll key init step items t).lookup k =
      (items.filter fun i => key i = k).foldl (fun a i => some (step i (a.getD (init i))))
        (t.lookup k) := by
  unfold upsertAll
  induction items generalizing t with
  | nil => rfl
  | cons i items ih =>
    rw [List.foldl_cons, ih]
    by_cases hk : key i = k
    · subst hk
      simp [upsert]
    · have hne : k ≠ key i := fun h => hk h.symm
      simp [upsert, hk, AList.lookup_insert_ne hne]

/-- **What a loop files under a key**: the first item of the key makes the value, and
the others change it in their order. -/
theorem lookup_upsertAll_empty (k : κ) :
    (upsertAll key init step items ∅).lookup k =
      match items.filter fun i => key i = k with
      | [] => none
      | i :: rest => some ((i :: rest).foldl (fun a i => step i a) (init i)) := by
  have hsome : ∀ (is : List ι) (a : α), is.foldl (fun a i => some (step i (a.getD (init i))))
      (some a) = some (is.foldl (fun a i => step i a) a) := by
    intro is
    induction is with
    | nil => intro a; rfl
    | cons i is ih => intro a; exact ih (step i a)
  rw [lookup_upsertAll, AList.lookup_empty]
  cases items.filter fun i => key i = k with
  | nil => rfl
  | cons i rest => exact hsome rest (step i (init i))

/-- The entries of the loop's table. -/
theorem mem_upsertAll {k : κ} {a : α} :
    ⟨k, a⟩ ∈ (upsertAll key init step items ∅).entries ↔
      ∃ h : (items.filter fun i => key i = k) ≠ [],
        (items.filter fun i => key i = k).foldl (fun a i => step i a)
          (init ((items.filter fun i => key i = k).head h)) = a := by
  rw [← AList.mem_lookup_iff, lookup_upsertAll_empty]
  cases items.filter fun i => key i = k with
  | nil => simp
  | cons i rest => simp

end Fold

end Table

end Lib
end Maja
