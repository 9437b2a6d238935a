/-
# The k-way merge

`merge_batches`, `pull` and the order of `HeapEntry` of
`tools/maja-mergecap/src/main.rs`, over an arbitrary lawful heap, so that nothing
depends on which of several equal entries `BinaryHeap::pop` takes.

`streams`, `in_flight` and `lower_bound` are indexed by the same readers, so they
are functions of a reader's index.  What `emit` does may depend on the packets it
was given before; `emitted` keeps the entries whose values it was called with,
oldest first.  Both loops run on fuel; `budget` is enough of it.
-/

import Maja.Lib.BinaryHeap
import Maja.Lib.Word
import Mathlib.Algebra.BigOperators.Fin
import Mathlib.Logic.Function.Basic

namespace Maja
namespace Mergecap

open Lib

/-- A batch of a stream: the packets of every parallel group of one input packet,
with their timestamps. -/
abbrev Batch (T : Type) : Type := List (I64 × T)

/-- `HeapEntry`. -/
structure HeapEntry (n : ℕ) (T : Type) where
  timestamp : I64
  reader : Fin n
  value : T
  deriving DecidableEq, Repr

namespace HeapEntry

variable {n : ℕ} {T : Type}

/-- `HeapEntry::cmp`, reversed so that the heap pops the smallest timestamp and,
among equals, the smallest reader. -/
def cmp (a b : HeapEntry n T) : Ordering :=
  (compare b.timestamp a.timestamp).then (compare b.reader a.reader)

/-- `a <= b`. -/
def le (a b : HeapEntry n T) : Prop := a.cmp b ≠ .gt

instance : DecidableRel (le : HeapEntry n T → HeapEntry n T → Prop) := fun a b =>
  inferInstanceAs (Decidable (a.cmp b ≠ .gt))

/-- An entry comes later in the heap when its timestamp is greater, or equal and its
reader is. -/
theorem le_iff {a b : HeapEntry n T} :
    a.le b ↔ b.timestamp < a.timestamp ∨ b.timestamp = a.timestamp ∧ b.reader ≤ a.reader := by
  rw [le, cmp]
  rcases lt_trichotomy b.timestamp a.timestamp with h | h | h
  · simp [compare_lt_iff_lt.2 h, h]
  · rw [compare_eq_iff_eq.2 h]
    constructor
    · exact fun hle => .inr ⟨h, compare_le_iff_le.1 hle⟩
    · exact fun hle => compare_le_iff_le.2 (hle.resolve_left h.not_lt).2
  · simp [compare_gt_iff_gt.2 h, h.not_gt, h.ne']

/-- An entry that another does not exceed is no earlier. -/
theorem timestamp_le_of_le {a b : HeapEntry n T} (h : a.le b) : b.timestamp ≤ a.timestamp := by
  rcases le_iff.1 h with h | h
  · exact h.le
  · exact h.1.le

instance : Std.Total (le : HeapEntry n T → HeapEntry n T → Prop) := ⟨fun a b => by
  rw [le_iff, le_iff]
  rcases lt_trichotomy a.timestamp b.timestamp with h | h | h
  · exact .inr (.inl h)
  · rcases le_total a.reader b.reader with h' | h'
    · exact .inr (.inr ⟨h, h'⟩)
    · exact .inl (.inr ⟨h.symm, h'⟩)
  · exact .inl (.inl h)⟩

instance : IsTrans (HeapEntry n T) le := ⟨fun a b c hab hbc => by
  rw [le_iff] at hab hbc ⊢
  rcases hab with hab | ⟨hab, hab'⟩ <;> rcases hbc with hbc | ⟨hbc, hbc'⟩
  · exact .inl (hbc.trans hab)
  · exact .inl (hbc ▸ hab)
  · exact .inl (hab ▸ hbc)
  · exact .inr ⟨hbc.trans hab, hbc'.trans hab'⟩⟩

end HeapEntry

/-- The minimum timestamp of a batch, `i64::MAX` for an empty one. -/
def batchMin {T : Type} (batch : Batch T) : I64 := ((batch.map Prod.fst).min?).getD I64.MAX

/-- The heap entries of a batch of `reader`. -/
def entriesOf {n : ℕ} {T : Type} (reader : Fin n) (batch : Batch T) : List (HeapEntry n T) :=
  batch.map fun p => ⟨p.1, reader, p.2⟩

section Merge

variable {n : ℕ} {T ε : Type} (H : BinaryHeap (HeapEntry n T) HeapEntry.le)

/-- The local variables of `merge_batches`. -/
structure MergeState where
  /-- What every stream still has. -/
  streams : Fin n → List (Batch T)
  heap : H.Carrier
  inFlight : Fin n → ℕ
  lowerBound : Fin n → I64
  /-- The entries whose values `emit` was called with. -/
  emitted : List (HeapEntry n T)

variable {H}

/-- `pull`. -/
def pull (index : Fin n) (s : MergeState H) : MergeState H :=
  match s.streams index with
  | [] => { s with lowerBound := Function.update s.lowerBound index I64.MAX }
  | batch :: rest =>
      let s := { s with streams := Function.update s.streams index rest }
      if batch.isEmpty then
        { s with lowerBound := Function.update s.lowerBound index I64.MAX }
      else
        { s with
          lowerBound := Function.update s.lowerBound index (batchMin batch)
          inFlight := Function.update s.inFlight index (s.inFlight index + batch.length)
          heap := H.extend s.heap (entriesOf index batch) }

/-- One pass `for index in 0..reader_count`: pull the streams that `due` picks
when their turn comes, and say whether there was one. -/
def pullWhere (due : MergeState H → Fin n → Bool) (s : MergeState H) : Bool × MergeState H :=
  (List.finRange n).foldl
    (fun acc index => if due acc.2 index then (true, pull index acc.2) else acc) (false, s)

/-- The inner loop: read ahead until every stream is known not to hold a packet
earlier than `timestamp`. -/
def readAhead (timestamp : I64) : ℕ → MergeState H → Outcome (ε × MergeState H) (MergeState H)
  | 0, _ => .outOfFuel
  | fuel + 1, s =>
      match pullWhere (fun s index => s.lowerBound index < timestamp) s with
      | (true, s) => readAhead timestamp fuel s
      | (false, s) => .ok s

/-- One turn of the outer loop: `true` goes on, `false` is `return Ok(())`.  The
count of the popped entry's reader is a `usize`. -/
def mergeTurn (emit : List T → T → Except ε Unit) (fuel : ℕ) : Prog (MergeState H) ε Bool :=
  fun s =>
    match H.pop s.heap with
    | none =>
        .ok (pullWhere (fun s index => s.inFlight index = 0 ∧ s.lowerBound index ≠ I64.MAX) s)
    | some (entry, heap) =>
        if s.inFlight entry.reader = 0 then
          .panic
        else do
          let s := { s with
            heap := heap
            inFlight := Function.update s.inFlight entry.reader (s.inFlight entry.reader - 1) }
          let s ← readAhead entry.timestamp fuel s
          if (H.peek s.heap).any (fun next => next.timestamp < entry.timestamp) then
            pure (true, { s with
              inFlight := Function.update s.inFlight entry.reader (s.inFlight entry.reader + 1)
              heap := H.push entry s.heap })
          else
            match emit (s.emitted.map HeapEntry.value) entry.value with
            | .ok () => pure (true, { s with emitted := s.emitted ++ [entry] })
            | .error e => .err (e, { s with emitted := s.emitted ++ [entry] })

/-- The outer loop. -/
def mergeLoop (emit : List T → T → Except ε Unit) : ℕ → Prog (MergeState H) ε Unit
  | 0 => fun _ => .outOfFuel
  | fuel + 1 => do
      if ← mergeTurn emit fuel then
        mergeLoop emit fuel
      else
        pure ()

/-- The state that `merge_batches` starts its loop in. -/
def MergeState.init (H : BinaryHeap (HeapEntry n T) HeapEntry.le)
    (streams : Fin n → List (Batch T)) : MergeState H where
  streams := streams
  heap := H.empty
  inFlight _ := 0
  lowerBound _ := I64.MIN
  emitted := []

/-- Turns enough for the merge: one for every batch, every end of a stream and
every packet. -/
def budget (streams : Fin n → List (Batch T)) : ℕ :=
  ∑ i, ((streams i).length + 1 + (streams i).flatten.length) + 1

/-- `merge_batches`. -/
def mergeBatches (H : BinaryHeap (HeapEntry n T) HeapEntry.le) (emit : List T → T → Except ε Unit)
    (streams : Fin n → List (Batch T)) : Outcome (ε × MergeState H) (Unit × MergeState H) :=
  mergeLoop emit (budget streams) (MergeState.init H streams)

end Merge

end Mergecap
end Maja
