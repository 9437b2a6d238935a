/-
# What the merge does, without its heap

A `MergeView` is the merge with its bookkeeping taken away: what the streams still
have, the packets that are read and not emitted, how far every stream is read, and
what was emitted.  It moves in two ways: a stream that is not retired is pulled,
or a pending packet is emitted that nothing pending and nothing unread precedes.

Everything about the order and the number of the packets is proved here, of the
two moves.  `Maja.Mergecap.MergeRefines` shows that `merge_batches` makes no
others, and that it makes them until none is left.
-/

import Maja.Mergecap.Merge
import Mathlib.Algebra.BigOperators.Group.Finset.Basic
import Mathlib.Algebra.Order.BigOperators.Group.Finset
import Mathlib.Logic.Relation
import Mathlib.Order.Std
import Mathlib.Tactic.Abel

namespace Maja
namespace Mergecap

open Lib

variable {n : ℕ} {T : Type}

/-! ### Batches -/

/-- The minimum of a batch that has packets. -/
theorem min_eq_some {batch : Batch T} (h : batch ≠ []) :
    (batch.map Prod.fst).min? = some (batchMin batch) := by
  obtain ⟨m, hm⟩ := Option.isSome_iff_exists.1
    (List.isSome_min?_iff.2 (by simpa using h : batch.map Prod.fst ≠ []))
  rw [batchMin, hm, Option.getD_some]

/-- A batch starts no later than any of its packets. -/
theorem batchMin_le {batch : Batch T} {p : I64 × T} (h : p ∈ batch) : batchMin batch ≤ p.1 := by
  have hmin := min_eq_some (List.ne_nil_of_mem h)
  exact (List.min?_eq_some_iff.1 hmin).2 p.1 (List.mem_map_of_mem h)

/-! ### The view and its moves -/

/-- The merge without its bookkeeping. -/
structure MergeView (n : ℕ) (T : Type) where
  /-- What every stream still has. -/
  streams : Fin n → List (Batch T)
  /-- The packets that are read and not emitted. -/
  pending : Multiset (HeapEntry n T)
  lowerBound : Fin n → I64
  /-- The packets that are emitted, oldest first. -/
  emitted : List (HeapEntry n T)

namespace MergeView

/-- Pull a stream: take its next batch in, or retire it. -/
def pull (v : MergeView n T) (index : Fin n) : MergeView n T :=
  match v.streams index with
  | [] => { v with lowerBound := Function.update v.lowerBound index I64.MAX }
  | batch :: rest =>
      { v with
        streams := Function.update v.streams index rest
        pending := (entriesOf index batch : Multiset (HeapEntry n T)) + v.pending
        lowerBound := Function.update v.lowerBound index (batchMin batch) }

/-- The view with one more packet pending. -/
def hold (v : MergeView n T) (entry : HeapEntry n T) : MergeView n T :=
  { v with pending := entry ::ₘ v.pending }

/-- The view with one more packet emitted. -/
def emit (v : MergeView n T) (entry : HeapEntry n T) : MergeView n T :=
  { v with emitted := v.emitted ++ [entry] }

/-- The moves of the merge. -/
inductive Step : MergeView n T → MergeView n T → Prop where
  /-- Pull a stream that is not retired. -/
  | pull (v : MergeView n T) (index : Fin n) (h : v.lowerBound index ≠ I64.MAX) :
      Step v (v.pull index)
  /-- Emit a pending packet that nothing pending and nothing unread precedes. -/
  | emit (v : MergeView n T) (entry : HeapEntry n T)
      (hbound : ∀ index, entry.timestamp ≤ v.lowerBound index)
      (hpending : ∀ x ∈ v.pending, entry.timestamp ≤ x.timestamp) :
      Step (v.hold entry) (v.emit entry)

/-- Any number of moves. -/
abbrev Run : MergeView n T → MergeView n T → Prop := Relation.ReflTransGen Step

/-- Nothing is pending and every stream is retired: no move is left. -/
structure Halted (v : MergeView n T) : Prop where
  pending : v.pending = 0
  retired : ∀ index, v.lowerBound index = I64.MAX

/-- The view at the start. -/
def init (streams : Fin n → List (Batch T)) : MergeView n T := ⟨streams, 0, fun _ => I64.MIN, []⟩

/-- Holding back an entry keeps the streams. -/
@[simp] theorem hold_streams (v : MergeView n T) (entry : HeapEntry n T) :
    (v.hold entry).streams = v.streams := rfl

/-- Holding back an entry keeps the bounds. -/
@[simp] theorem hold_lowerBound (v : MergeView n T) (entry : HeapEntry n T) :
    (v.hold entry).lowerBound = v.lowerBound := rfl

/-- An entry that is held back is pending. -/
@[simp] theorem hold_pending (v : MergeView n T) (entry : HeapEntry n T) :
    (v.hold entry).pending = entry ::ₘ v.pending := rfl

/-- Holding back an entry keeps what was emitted. -/
@[simp] theorem hold_emitted (v : MergeView n T) (entry : HeapEntry n T) :
    (v.hold entry).emitted = v.emitted := rfl

/-- Holding a packet back does not change what a pull does. -/
theorem pull_hold (v : MergeView n T) (entry : HeapEntry n T) (index : Fin n) :
    (v.hold entry).pull index = (v.pull index).hold entry := by
  unfold pull
  rw [hold_streams]
  cases v.streams index with
  | nil => rfl
  | cons batch rest => simp [hold, Multiset.add_cons]

/-- A stream at its end is retired. -/
theorem pull_of_nil {v : MergeView n T} {index : Fin n} (h : v.streams index = []) :
    v.pull index = { v with lowerBound := Function.update v.lowerBound index I64.MAX } := by
  simp [pull, h]

/-- A batch is pulled, and an empty one retires its stream. -/
theorem pull_of_cons {v : MergeView n T} {index : Fin n} {batch : Batch T}
    {rest : List (Batch T)} (h : v.streams index = batch :: rest) :
    v.pull index = { v with
      streams := Function.update v.streams index rest
      pending := (entriesOf index batch : Multiset (HeapEntry n T)) + v.pending
      lowerBound := Function.update v.lowerBound index (batchMin batch) } := by
  simp [pull, h]

/-- What holds at the start and is kept by both moves holds all along a run. -/
theorem Run.invariant {v w : MergeView n T} (P : MergeView n T → Prop)
    (hstep : ∀ v w, P v → Step v w → P w) (h : Run v w) (hv : P v) : P w := by
  induction h with
  | refl => exact hv
  | tail _ hs ih => exact hstep _ _ ih hs

/-! ### Every move makes progress -/

/-- What one stream has left to do: its batches, its end unless it is retired,
and its packets. -/
def streamWork (v : MergeView n T) (index : Fin n) : ℕ :=
  (v.streams index).length + (if v.lowerBound index = I64.MAX then 0 else 1) +
    (v.streams index).flatten.length

/-- What is left to do. -/
def work (v : MergeView n T) : ℕ := ∑ index, v.streamWork index + v.pending.card

/-- An entry that is held back is still work. -/
theorem work_hold (v : MergeView n T) (entry : HeapEntry n T) :
    (v.hold entry).work = v.work + 1 := by
  have hstream : ∀ index, (v.hold entry).streamWork index = v.streamWork index := fun _ => rfl
  simp only [work, hstream, hold_pending, Multiset.card_cons]
  omega

/-- A pull of a stream that is not retired makes progress. -/
theorem work_pull_lt {v : MergeView n T} {index : Fin n} (h : v.lowerBound index ≠ I64.MAX) :
    (v.pull index).work < v.work := by
  have hother : ∀ j ∈ Finset.univ.erase index,
      (v.pull index).streamWork j = v.streamWork j := by
    intro j hj
    have hne : j ≠ index := Finset.ne_of_mem_erase hj
    cases hs : v.streams index with
    | nil => simp [pull_of_nil hs, streamWork, Function.update_of_ne hne]
    | cons batch rest => simp [pull_of_cons hs, streamWork, Function.update_of_ne hne]
  have hself : (v.pull index).streamWork index + (v.pull index).pending.card <
      v.streamWork index + v.pending.card := by
    cases hs : v.streams index with
    | nil => simp [pull_of_nil hs, streamWork, hs, h]
    | cons batch rest =>
      simp only [pull_of_cons hs, streamWork, hs, Function.update_self, if_neg h, entriesOf,
        Multiset.card_add, Multiset.coe_card, List.length_map, List.length_cons,
        List.flatten_cons, List.length_append]
      split_ifs <;> omega
  have hsum : ∀ w : MergeView n T, w.work =
      (∑ j ∈ Finset.univ.erase index, w.streamWork j) +
        (w.streamWork index + w.pending.card) := by
    intro w
    rw [work, ← Finset.sum_erase_add Finset.univ _ (Finset.mem_univ index)]
    omega
  rw [hsum, hsum v, Finset.sum_congr rfl hother]
  exact Nat.add_lt_add_left hself _

/-- A step leaves less work. -/
theorem Step.work_lt {v w : MergeView n T} (h : Step v w) : w.work < v.work := by
  cases h with
  | pull _ index h => exact work_pull_lt h
  | emit v entry _ _ =>
    have hemit : (v.emit entry).work = v.work := rfl
    rw [hemit, work_hold]
    omega

/-- Steps leave less work. -/
theorem work_lt_of_steps {v w : MergeView n T} (h : Relation.TransGen Step v w) :
    w.work < v.work := by
  induction h with
  | single hstep => exact hstep.work_lt
  | tail _ hstep ih => exact hstep.work_lt.trans ih

/-! ### Order -/

/-- The streams are sorted by the start of their batches, no stream has a batch
that starts before its bound, and what was emitted is in order and precedes
everything to come. -/
structure Ordered (v : MergeView n T) : Prop where
  base : ∀ index, (v.streams index).Pairwise fun a b => batchMin a ≤ batchMin b
  ahead : ∀ index, ∀ batch ∈ v.streams index, v.lowerBound index ≤ batchMin batch
  sorted : v.emitted.Pairwise fun a b => a.timestamp ≤ b.timestamp
  pending : ∀ x ∈ v.emitted, ∀ y ∈ v.pending, x.timestamp ≤ y.timestamp
  unread : ∀ x ∈ v.emitted, ∀ index, ∀ batch ∈ v.streams index, x.timestamp ≤ batchMin batch

/-- Streams whose batches begin in order start in order. -/
theorem Ordered.init {streams : Fin n → List (Batch T)}
    (h : ∀ index, (streams index).Pairwise fun a b => batchMin a ≤ batchMin b) :
    Ordered (init streams) where
  base := h
  ahead _ batch _ := (batchMin batch).property.1
  sorted := .nil
  pending := by simp [MergeView.init]
  unread := by simp [MergeView.init]

/-- A pull keeps the order. -/
theorem Ordered.pull {v : MergeView n T} (hv : Ordered v) (index : Fin n) :
    Ordered (v.pull index) := by
  cases hs : v.streams index with
  | nil =>
    rw [pull_of_nil hs]
    refine ⟨hv.base, fun j batch hbatch => ?_, hv.sorted, hv.pending, hv.unread⟩
    by_cases hj : j = index
    · subst hj
      simp [hs] at hbatch
    · simpa [Function.update_of_ne hj] using hv.ahead j batch hbatch
  | cons first rest =>
    rw [pull_of_cons hs]
    have hbase := hv.base index
    rw [hs, List.pairwise_cons] at hbase
    have hmem : ∀ j, ∀ batch ∈ Function.update v.streams index rest j, batch ∈ v.streams j := by
      intro j batch hbatch
      by_cases hj : j = index
      · subst hj
        rw [Function.update_self] at hbatch
        exact hs ▸ List.mem_cons_of_mem _ hbatch
      · rwa [Function.update_of_ne hj] at hbatch
    refine ⟨fun j => ?_, fun j batch hbatch => ?_, hv.sorted, fun x hx y hy => ?_,
      fun x hx j batch hbatch => hv.unread x hx j batch (hmem j batch hbatch)⟩
    · by_cases hj : j = index
      · subst hj
        simpa using hbase.2
      · simpa [Function.update_of_ne hj] using hv.base j
    · by_cases hj : j = index
      · subst hj
        simpa using hbase.1 batch (by simpa using hbatch)
      · simpa [Function.update_of_ne hj] using hv.ahead j batch (hmem j batch hbatch)
    · rcases Multiset.mem_add.1 hy with hy | hy
      · obtain ⟨p, hp, rfl⟩ := List.mem_map.1 (Multiset.mem_coe.1 hy)
        calc x.timestamp ≤ batchMin first := hv.unread x hx index first (by simp [hs])
          _ ≤ p.1 := batchMin_le hp
      · exact hv.pending x hx y hy

/-- Emitting an entry that nothing precedes keeps the order. -/
theorem Ordered.emit {v : MergeView n T} {entry : HeapEntry n T} (hv : Ordered (v.hold entry))
    (hbound : ∀ index, entry.timestamp ≤ v.lowerBound index)
    (hpending : ∀ x ∈ v.pending, entry.timestamp ≤ x.timestamp) : Ordered (v.emit entry) where
  base := hv.base
  ahead := hv.ahead
  sorted := by
    refine List.pairwise_append.2 ⟨hv.sorted, List.pairwise_singleton _ _, fun x hx y hy => ?_⟩
    rw [List.mem_singleton.1 hy]
    exact hv.pending x hx entry (Multiset.mem_cons_self _ _)
  pending x hx y hy := by
    rcases List.mem_append.1 hx with hx | hx
    · exact hv.pending x hx y (Multiset.mem_cons_of_mem hy)
    · rw [List.mem_singleton.1 hx]
      exact hpending y hy
  unread x hx index batch hbatch := by
    rcases List.mem_append.1 hx with hx | hx
    · exact hv.unread x hx index batch hbatch
    · rw [List.mem_singleton.1 hx]
      exact (hbound index).trans (hv.ahead index batch hbatch)

/-- Both moves keep the order. -/
theorem Ordered.step {v w : MergeView n T} (hv : Ordered v) (h : Step v w) : Ordered w := by
  cases h with
  | pull _ index _ => exact hv.pull index
  | emit v entry hbound hpending => exact hv.emit hbound hpending

/-! ### Number -/

/-- Every packet of a stream, as an entry of the heap. -/
def packetsOf (index : Fin n) (batches : List (Batch T)) : Multiset (HeapEntry n T) :=
  (entriesOf index batches.flatten : List (HeapEntry n T))

/-- Every packet of every stream. -/
def allPackets (streams : Fin n → List (Batch T)) : Multiset (HeapEntry n T) :=
  ∑ index, packetsOf index (streams index)

/-- Every packet the merge knows: emitted, pending or unread. -/
def ledger (v : MergeView n T) : Multiset (HeapEntry n T) :=
  (v.emitted : Multiset (HeapEntry n T)) + v.pending + allPackets v.streams

/-- The packets of a stream are those of its first batch and of the others. -/
theorem packetsOf_cons (index : Fin n) (batch : Batch T) (rest : List (Batch T)) :
    packetsOf index (batch :: rest) =
      (entriesOf index batch : Multiset (HeapEntry n T)) + packetsOf index rest := by
  simp [packetsOf, entriesOf]

/-- A pull moves packets from a stream to the pending ones. -/
theorem ledger_pull (v : MergeView n T) (index : Fin n) : (v.pull index).ledger = v.ledger := by
  cases hs : v.streams index with
  | nil => rw [pull_of_nil hs]; rfl
  | cons batch rest =>
    have hsum : ∀ streams : Fin n → List (Batch T), allPackets streams =
        (∑ j ∈ Finset.univ.erase index, packetsOf j (streams j)) +
          packetsOf index (streams index) := fun streams =>
      (Finset.sum_erase_add Finset.univ _ (Finset.mem_univ index)).symm
    have hother : ∑ j ∈ Finset.univ.erase index,
        packetsOf j (Function.update v.streams index rest j) =
        ∑ j ∈ Finset.univ.erase index, packetsOf j (v.streams j) := by
      refine Finset.sum_congr rfl fun j hj => ?_
      rw [Function.update_of_ne (Finset.ne_of_mem_erase hj)]
    rw [pull_of_cons hs]
    simp only [ledger]
    rw [hsum, hsum v.streams, hother, Function.update_self, hs, packetsOf_cons]
    abel

/-- An emit moves a packet from the pending ones to the emitted ones. -/
theorem ledger_emit (v : MergeView n T) (entry : HeapEntry n T) :
    (v.emit entry).ledger = (v.hold entry).ledger := by
  simp only [ledger, MergeView.emit, hold, ← Multiset.coe_add, Multiset.coe_singleton,
    ← Multiset.singleton_add]
  abel

/-- Both moves keep every packet. -/
theorem Step.ledger_eq {v w : MergeView n T} (h : Step v w) : w.ledger = v.ledger := by
  cases h with
  | pull _ index _ => exact ledger_pull v index
  | emit v entry _ _ => exact ledger_emit v entry

/-! ### Retired streams -/

/-- What a stream still has when it is retired: the batches behind the first one
that starts at `i64::MAX`, which is also the mark of a stream that has ended. -/
def unreadOf : List (Batch T) → List (Batch T)
  | [] => []
  | batch :: rest => if batchMin batch = I64.MAX then rest else unreadOf rest

/-- A stream is read up to its end exactly when no batch before the last one
starts at `i64::MAX`. -/
theorem unreadOf_eq_nil {batches : List (Batch T)} :
    unreadOf batches = [] ↔ ∀ batch ∈ batches.dropLast, batchMin batch ≠ I64.MAX := by
  induction batches with
  | nil => simp [unreadOf]
  | cons batch rest ih =>
    cases rest with
    | nil => simp [unreadOf]
    | cons next rest =>
      rw [unreadOf, List.dropLast_cons_cons]
      split_ifs with h
      · simp [h]
      · rw [ih]
        simp [h]

/-- What a stream still has is the end of it. -/
theorem unreadOf_suffix (batches : List (Batch T)) : unreadOf batches <:+ batches := by
  induction batches with
  | nil => exact List.suffix_rfl
  | cons batch rest ih =>
    rw [unreadOf]
    split_ifs
    · exact List.suffix_cons _ _
    · exact ih.trans (List.suffix_cons _ _)

/-- A retired stream has what `unreadOf` says, an open one will have. -/
def Retiring (streams : Fin n → List (Batch T)) (v : MergeView n T) : Prop :=
  ∀ index, (if v.lowerBound index = I64.MAX then v.streams index
    else unreadOf (v.streams index)) = unreadOf (streams index)

/-- Before the first step no stream is retired. -/
theorem Retiring.init (streams : Fin n → List (Batch T)) : Retiring streams (init streams) := by
  intro index
  have hopen : I64.MIN ≠ I64.MAX := by decide
  exact if_neg hopen

/-- A step retires a stream at its end or at an empty batch only. -/
theorem Retiring.step {streams : Fin n → List (Batch T)} {v w : MergeView n T}
    (hv : Retiring streams v) (h : Step v w) : Retiring streams w := by
  cases h with
  | emit v entry _ _ => exact hv
  | pull _ index hopen =>
    intro j
    by_cases hj : j = index
    · subst hj
      have hself := hv j
      rw [if_neg hopen] at hself
      rw [← hself]
      cases hs : v.streams j with
      | nil => simp [pull_of_nil hs, hs, unreadOf]
      | cons batch rest => simp [pull_of_cons hs, unreadOf]
    · have hother := hv j
      cases hs : v.streams index with
      | nil => simpa [pull_of_nil hs, Function.update_of_ne hj] using hother
      | cons batch rest => simpa [pull_of_cons hs, Function.update_of_ne hj] using hother

/-- What the streams of a merge that has halted still have. -/
theorem Halted.streams_eq {streams : Fin n → List (Batch T)} {v : MergeView n T}
    (hrun : Run (MergeView.init streams) v) (h : Halted v) :
    v.streams = fun index => unreadOf (streams index) := by
  have hretiring : Retiring streams v :=
    hrun.invariant (Retiring streams) (fun _ _ hv hs => hv.step hs) (Retiring.init streams)
  funext index
  have hindex := hretiring index
  rwa [if_pos (h.retired index)] at hindex

/-- **What a merge that has halted has emitted**: every packet but those behind a
batch that starts at `i64::MAX`. -/
theorem Halted.emitted_add {streams : Fin n → List (Batch T)} {v : MergeView n T}
    (hrun : Run (MergeView.init streams) v) (h : Halted v) :
    (v.emitted : Multiset (HeapEntry n T)) + allPackets (fun index => unreadOf (streams index)) =
      allPackets streams := by
  have hledger : v.ledger = (MergeView.init streams).ledger :=
    hrun.invariant (fun w => w.ledger = (MergeView.init streams).ledger)
      (fun _ _ hv hs => hs.ledger_eq.trans hv) rfl
  have hinit : (MergeView.init streams).ledger = allPackets streams := by
    simp [ledger, MergeView.init]
  rw [← hinit, ← hledger, ledger, h.pending, h.streams_eq hrun, add_zero]

end MergeView

end Mergecap
end Maja
