/-
# Ordered maps

A `BTreeMap`: entries in the strict order of their keys.  `upsert` is
`entry(k).or_default()` with a change of the value there.

A map that a loop updates item by item holds under a key what the items of that
key, in their order, make of the default (`mem_upsertAll_empty`), and the sum of a
measure over its entries is the sum of what the items add (`sum_upsertAll_empty`).
-/

import Mathlib.Algebra.BigOperators.Group.List.Basic
import Mathlib.Order.Lattice
import Mathlib.Tactic.Common

namespace Maja
namespace Lib

variable {κ α : Type} [LinearOrder κ]

/-- A `BTreeMap`. -/
structure OrderedMap (κ α : Type) [LinearOrder κ] where
  entries : List (κ × α)
  sorted : entries.Pairwise fun a b => a.1 < b.1

namespace OrderedMap

/-- `BTreeMap::new`. -/
def empty : OrderedMap κ α := ⟨[], .nil⟩

/-- `upsert` on the entries. -/
def upsertEntries (k : κ) (init : α) (f : α → α) : List (κ × α) → List (κ × α)
  | [] => [(k, f init)]
  | (k', a) :: entries =>
      if k < k' then (k, f init) :: (k', a) :: entries
      else if k = k' then (k', f a) :: entries
      else (k', a) :: upsertEntries k init f entries

variable {k : κ} {init : α} {f : α → α} {entries : List (κ × α)}

/-- No key comes in but `k`. -/
theorem key_of_mem_upsertEntries {e : κ × α} (h : e ∈ upsertEntries k init f entries) :
    e.1 = k ∨ ∃ e' ∈ entries, e.1 = e'.1 := by
  induction entries with
  | nil => exact .inl (congrArg Prod.fst (List.mem_singleton.1 h))
  | cons e' entries ih =>
      rw [upsertEntries] at h
      split_ifs at h with hlt heq
      · obtain rfl | h := List.mem_cons.1 h
        · exact .inl rfl
        · exact .inr ⟨e, h, rfl⟩
      · obtain rfl | h := List.mem_cons.1 h
        · exact .inr ⟨e', List.mem_cons_self, rfl⟩
        · exact .inr ⟨e, List.mem_cons_of_mem _ h, rfl⟩
      · obtain rfl | h := List.mem_cons.1 h
        · exact .inr ⟨_, List.mem_cons_self, rfl⟩
        · obtain hk | ⟨e'', he'', hk⟩ := ih h
          · exact .inl hk
          · exact .inr ⟨e'', List.mem_cons_of_mem _ he'', hk⟩

/-- Putting an entry in keeps the order of the keys. -/
theorem upsertEntries_sorted (h : entries.Pairwise fun a b => a.1 < b.1) :
    (upsertEntries k init f entries).Pairwise fun a b => a.1 < b.1 := by
  induction entries with
  | nil => exact List.pairwise_singleton _ _
  | cons e entries ih =>
      obtain ⟨hhead, htail⟩ := List.pairwise_cons.1 h
      rw [upsertEntries]
      split_ifs with hlt heq
      · refine List.pairwise_cons.2 ⟨fun e' he' => ?_, h⟩
        obtain rfl | he' := List.mem_cons.1 he'
        · exact hlt
        · exact hlt.trans (hhead e' he')
      · exact List.pairwise_cons.2 ⟨hhead, htail⟩
      · refine List.pairwise_cons.2 ⟨fun e' he' => ?_, ih htail⟩
        obtain hk | ⟨e'', he'', hk⟩ := key_of_mem_upsertEntries he'
        · rw [hk]
          exact lt_of_le_of_ne (not_lt.1 hlt) (Ne.symm heq)
        · rw [hk]
          exact hhead e'' he''

/-- `entry(k).or_default()`, and a change of the value there. -/
def upsert (map : OrderedMap κ α) (k : κ) (init : α) (f : α → α) : OrderedMap κ α :=
  ⟨upsertEntries k init f map.entries, upsertEntries_sorted map.sorted⟩

/-- `get` on the entries. -/
def getEntries (k : κ) : List (κ × α) → Option α
  | [] => none
  | (k', a) :: entries => if k' = k then some a else getEntries k entries

/-- `get`. -/
def get (map : OrderedMap κ α) (k : κ) : Option α := getEntries k map.entries

/-- There is nothing under a key below all others. -/
theorem getEntries_eq_none (h : ∀ e ∈ entries, k < e.1) : getEntries k entries = none := by
  induction entries with
  | nil => rfl
  | cons e entries ih =>
      rw [getEntries, if_neg (h e List.mem_cons_self).ne']
      exact ih fun e' he' => h e' (List.mem_cons_of_mem _ he')

/-- The entries are what the keys are looked up as. -/
theorem mem_iff_getEntries (h : entries.Pairwise fun a b => a.1 < b.1) {a : α} :
    (k, a) ∈ entries ↔ getEntries k entries = some a := by
  induction entries with
  | nil => simp [getEntries]
  | cons e entries ih =>
      obtain ⟨hhead, htail⟩ := List.pairwise_cons.1 h
      obtain ⟨k', a'⟩ := e
      rw [getEntries, List.mem_cons, Prod.mk.injEq]
      split_ifs with heq
      · subst heq
        refine ⟨?_, fun hsome => .inl ⟨rfl, (Option.some.inj hsome).symm⟩⟩
        rintro (⟨-, rfl⟩ | hmem)
        · rfl
        · exact absurd (hhead _ hmem) (lt_irrefl _)
      · rw [← ih htail]
        exact ⟨fun h => h.resolve_left fun h => heq h.1.symm, .inr⟩

/-- The value of `k` changes, and no other. -/
theorem getEntries_upsertEntries (h : entries.Pairwise fun a b => a.1 < b.1) (j : κ) :
    getEntries j (upsertEntries k init f entries) =
      if j = k then some (f ((getEntries k entries).getD init)) else getEntries j entries := by
  induction entries with
  | nil => simp [upsertEntries, getEntries, eq_comm]
  | cons e entries ih =>
      obtain ⟨hhead, htail⟩ := List.pairwise_cons.1 h
      obtain ⟨k', a⟩ := e
      rcases lt_trichotomy k k' with hlt | rfl | hgt
      · have hnone : getEntries k ((k', a) :: entries) = none := by
          refine getEntries_eq_none fun e he => ?_
          obtain rfl | he := List.mem_cons.1 he
          · exact hlt
          · exact hlt.trans (hhead e he)
        rw [upsertEntries, if_pos hlt, hnone]
        by_cases hj : j = k
        · rw [hj, getEntries, if_pos rfl, if_pos rfl]
          rfl
        · rw [getEntries, if_neg (Ne.symm hj), if_neg hj]
      · rw [upsertEntries, if_neg (lt_irrefl _), if_pos rfl]
        by_cases hj : j = k
        · rw [hj, getEntries, if_pos rfl, if_pos rfl, getEntries, if_pos rfl]
          rfl
        · rw [getEntries, if_neg (Ne.symm hj), if_neg hj, getEntries, if_neg (Ne.symm hj)]
      · have hrest : getEntries k ((k', a) :: entries) = getEntries k entries := if_neg hgt.ne
        rw [upsertEntries, if_neg hgt.not_gt, if_neg hgt.ne', hrest, getEntries, ih htail, getEntries]
        by_cases hj : j = k
        · rw [if_pos hj, if_pos hj, if_neg (by rw [hj]; exact hgt.ne)]
        · rw [if_neg hj, if_neg hj]

variable {map : OrderedMap κ α}

/-- An entry is what its key gives. -/
theorem mem_entries_iff {a : α} : (k, a) ∈ map.entries ↔ map.get k = some a :=
  mem_iff_getEntries map.sorted

/-- `upsert` changes the value of `k` and no other. -/
theorem get_upsert (map : OrderedMap κ α) (j : κ) : (map.upsert k init f).get j =
    if j = k then some (f ((map.get k).getD init)) else map.get j :=
  getEntries_upsertEntries map.sorted j

/-- Two changes under one key are one. -/
theorem upsert_upsert (map : OrderedMap κ α) (k : κ) (f' : α → α) :
    (map.upsert k init f).upsert k init f' = map.upsert k init (f' ∘ f) := by
  have hentries : ∀ entries : List (κ × α),
      upsertEntries k init f' (upsertEntries k init f entries) =
        upsertEntries k init (f' ∘ f) entries := by
    intro entries
    induction entries with
    | nil => simp [upsertEntries]
    | cons e entries ih =>
        rcases lt_trichotomy k e.1 with hlt | heq | hgt
        · simp [upsertEntries, hlt]
        · simp [upsertEntries, heq]
        · simp [upsertEntries, hgt.not_gt, hgt.ne', ih]
  unfold upsert
  simp only [hentries]

/-! ### A measure of the entries -/

section Sum

variable {M : Type} [AddCommMonoid M] (g : α → M)

/-- The sum of a measure over the entries. -/
def sumOf (map : OrderedMap κ α) : M := (map.entries.map fun e => g e.2).sum

variable {g} {d : M}

/-- A change that adds to the measure adds to the sum. -/
theorem sumOf_upsert (hinit : g init = 0) (hstep : ∀ a, g (f a) = g a + d)
    (map : OrderedMap κ α) (k : κ) : (map.upsert k init f).sumOf g = map.sumOf g + d := by
  have hentries : ∀ entries : List (κ × α),
      ((upsertEntries k init f entries).map fun e => g e.2).sum =
        (entries.map fun e => g e.2).sum + d := by
    intro entries
    induction entries with
    | nil => simp [upsertEntries, hinit, hstep]
    | cons e entries ih =>
        rw [upsertEntries]
        split_ifs
        · simp [hinit, hstep, add_comm]
        · simp [hstep, add_assoc, add_comm d]
        · simp [ih, add_assoc]
  exact hentries map.entries

end Sum

/-- A change that brings something in brings it into the map. -/
theorem exists_upsert {P : α → Prop} {Q : Prop} (hinit : ¬P init) (hstep : ∀ a, P (f a) ↔ P a ∨ Q)
    (map : OrderedMap κ α) (k : κ) :
    (∃ e ∈ (map.upsert k init f).entries, P e.2) ↔ (∃ e ∈ map.entries, P e.2) ∨ Q := by
  have hentries : ∀ entries : List (κ × α),
      (∃ e ∈ upsertEntries k init f entries, P e.2) ↔ (∃ e ∈ entries, P e.2) ∨ Q := by
    intro entries
    induction entries with
    | nil => simp [upsertEntries, hinit, hstep]
    | cons e entries ih =>
        rw [upsertEntries]
        split_ifs
        · simp [hinit, hstep, or_comm]
        · simp [hstep, or_right_comm]
        · rw [List.exists_mem_cons_iff, ih, List.exists_mem_cons_iff, or_assoc]
  exact hentries map.entries

/-! ### Loops -/

section Fold

variable {ι : Type} (key : ι → κ) (init : α) (step : ι → α → α)

/-- The loop that files every item under its key. -/
def upsertAll (items : List ι) (map : OrderedMap κ α) : OrderedMap κ α :=
  items.foldl (fun map i => map.upsert (key i) init (step i)) map

/-- The value of a key depends on the items of that key only. -/
theorem get_upsertAll (items : List ι) (map : OrderedMap κ α) (k : κ) :
    (upsertAll key init step items map).get k =
      (items.filter fun i => key i = k).foldl (fun a i => some (step i (a.getD init)))
        (map.get k) := by
  unfold upsertAll
  induction items generalizing map with
  | nil => rfl
  | cons i items ih =>
      rw [List.foldl_cons, ih, get_upsert]
      by_cases hk : key i = k
      · simp [hk]
      · simp [hk, Ne.symm hk]

/-- **What a loop files under a key**: what its items make of the default, in their
order. -/
theorem mem_upsertAll_empty {items : List ι} {k : κ} {a : α} :
    (k, a) ∈ (upsertAll key init step items empty).entries ↔
      (items.filter fun i => key i = k) ≠ [] ∧
        (items.filter fun i => key i = k).foldl (fun a i => step i a) init = a := by
  have hsome : ∀ (is : List ι) (a : α), is.foldl (fun a i => some (step i (a.getD init)))
      (some a) = some (is.foldl (fun a i => step i a) a) := by
    intro is
    induction is with
    | nil => intro a; rfl
    | cons i is ih => intro a; exact ih (step i a)
  rw [mem_entries_iff, get_upsertAll]
  cases items.filter fun i => key i = k with
  | nil => simp [get, getEntries, empty]
  | cons i rest =>
      rw [List.foldl_cons, hsome, Option.some.injEq]
      exact (and_iff_right (List.cons_ne_nil _ _)).symm

/-- Two maps with the same entries are one. -/
theorem eq_of_mem_iff {map map' : OrderedMap κ α}
    (h : ∀ e, e ∈ map.entries ↔ e ∈ map'.entries) : map = map' := by
  have hnodup : ∀ map : OrderedMap κ α, map.entries.Nodup := fun map =>
    map.sorted.imp fun hlt heq => absurd (congrArg Prod.fst heq) hlt.ne
  have hperm := (List.perm_ext_iff_of_nodup (hnodup map) (hnodup map')).2 h
  have hentries : map.entries = map'.entries :=
    hperm.eq_of_pairwise (fun _ _ _ _ hab hba => absurd hba hab.not_gt) map.sorted map'.sorted
  cases map
  cases map'
  cases hentries
  rfl

/-- **A loop whose steps commute** may take the items in any order. -/
theorem upsertAll_perm {items items' : List ι} (h : items.Perm items')
    (hcomm : ∀ i j a, step j (step i a) = step i (step j a)) :
    upsertAll key init step items empty = upsertAll key init step items' empty := by
  refine eq_of_mem_iff fun e => ?_
  have hfilter := h.filter fun i => key i = e.1
  rw [mem_upsertAll_empty, mem_upsertAll_empty, hfilter.foldl_eq' fun i _ j _ a => hcomm i j a,
    ← List.length_pos_iff, hfilter.length_eq, List.length_pos_iff]

/-- **The sum over a loop's map** is the sum of what the items add. -/
theorem sumOf_upsertAll_empty {M : Type} [AddCommMonoid M] {g : α → M} {d : ι → M}
    (hinit : g init = 0) (hstep : ∀ i a, g (step i a) = g a + d i) (items : List ι) :
    (upsertAll key init step items empty).sumOf g = (items.map d).sum := by
  have hall : ∀ map : OrderedMap κ α,
      (upsertAll key init step items map).sumOf g = map.sumOf g + (items.map d).sum := by
    unfold upsertAll
    induction items with
    | nil => intro map; simp
    | cons i items ih =>
        intro map
        rw [List.foldl_cons, ih, sumOf_upsert hinit (hstep i), List.map_cons, List.sum_cons,
          add_assoc]
  rw [hall]
  simp [sumOf, empty]

/-- **What some entry of a loop's map has**: what some item brings in. -/
theorem exists_upsertAll_empty {P : α → Prop} {Q : ι → Prop} (hinit : ¬P init)
    (hstep : ∀ i a, P (step i a) ↔ P a ∨ Q i) (items : List ι) :
    (∃ e ∈ (upsertAll key init step items empty).entries, P e.2) ↔ ∃ i ∈ items, Q i := by
  have hall : ∀ map : OrderedMap κ α,
      (∃ e ∈ (upsertAll key init step items map).entries, P e.2) ↔
        (∃ e ∈ map.entries, P e.2) ∨ ∃ i ∈ items, Q i := by
    unfold upsertAll
    induction items with
    | nil => simp
    | cons i items ih =>
        intro map
        rw [List.foldl_cons, ih, exists_upsert hinit (hstep i), List.exists_mem_cons_iff, or_assoc]
  rw [hall]
  exact or_iff_right fun ⟨_, h, _⟩ => absurd h List.not_mem_nil

end Fold

end OrderedMap

end Lib
end Maja
