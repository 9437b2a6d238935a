/-
# The merge makes the moves of its view, until none is left

`mergeLoop_refines` carries `merge_batches` over to `MergeView`: every state of
the loop shows a view that the moves reach, every turn is at least one move, and
the loop stops where no move is left.  Since every move makes progress, the fuel
lasts.  What was proved of the moves is then proved of the program:
`mergeBatches_sorted`, and `mergeBatches_conserves` with the exact condition under
which no packet is lost.
-/

import Maja.Mergecap.MergeView
import Mathlib.Data.Multiset.Count

namespace Maja
namespace Mergecap

open Lib

variable {n : ℕ} {T ε : Type} {H : BinaryHeap (HeapEntry n T) HeapEntry.le}

namespace MergeState

/-- What a state of the loop shows. -/
def view (s : MergeState H) : MergeView n T := ⟨s.streams, H.elems s.heap, s.lowerBound, s.emitted⟩

/-- `in_flight` counts the packets of every reader in the heap. -/
def Counted (s : MergeState H) : Prop :=
  ∀ index, s.inFlight index = (H.elems s.heap).countP fun entry => entry.reader = index

/-- The view of the first state. -/
theorem view_init (streams : Fin n → List (Batch T)) :
    (init H streams).view = MergeView.init streams := by
  simp [view, init, MergeView.init, H.elems_empty]

/-- Before the first pull the counts are right. -/
theorem counted_init (streams : Fin n → List (Batch T)) : Counted (init H streams) := by
  intro index
  simp [init, H.elems_empty]

end MergeState

open MergeState

/-- The entries of a batch are all of its stream. -/
theorem countP_entriesOf (index j : Fin n) (batch : Batch T) :
    ((entriesOf index batch : List (HeapEntry n T)) : Multiset (HeapEntry n T)).countP
      (fun entry => entry.reader = j) = if index = j then batch.length else 0 := by
  rw [entriesOf, Multiset.coe_countP, List.countP_map]
  by_cases h : index = j
  · rw [if_pos h, List.countP_eq_length]
    simp [h]
  · rw [if_neg h, List.countP_eq_zero]
    simp [h]

/-! ### Pulling -/

/-- The view of a pull is a pull of the view. -/
theorem view_pull (index : Fin n) (s : MergeState H) :
    (pull index s).view = s.view.pull index := by
  cases hs : s.streams index with
  | nil =>
    have hv : s.view.streams index = [] := hs
    rw [MergeView.pull_of_nil hv]
    simp [pull, hs, view]
  | cons batch rest =>
    have hv : s.view.streams index = batch :: rest := hs
    rw [MergeView.pull_of_cons hv]
    cases batch with
    | nil => simp [pull, hs, view, entriesOf, batchMin]
    | cons p batch => simp [pull, hs, view]

/-- A pull keeps the counts right. -/
theorem counted_pull {s : MergeState H} (h : Counted s) (index : Fin n) :
    Counted (pull index s) := by
  intro j
  have hj := h j
  cases hs : s.streams index with
  | nil => simpa [Mergecap.pull, hs] using hj
  | cons batch rest =>
    cases batch with
    | nil => simpa [Mergecap.pull, hs] using hj
    | cons p batch =>
      simp only [Mergecap.pull, hs, List.isEmpty_cons, Bool.false_eq_true, if_false,
        H.elems_extend, Multiset.countP_add, countP_entriesOf]
      by_cases hij : j = index
      · subst hij
        rw [Function.update_self, if_pos rfl, hj, Nat.add_comm]
      · rw [Function.update_of_ne hij, if_neg (Ne.symm hij), hj, Nat.zero_add]

/-- One pull of a stream that is not retired. -/
def PullStep (s s' : MergeState H) : Prop :=
  ∃ index, s.lowerBound index ≠ I64.MAX ∧ s' = pull index s

/-- A pull is a step of the view. -/
theorem PullStep.step {s s' : MergeState H} (h : PullStep s s') :
    MergeView.Step s.view s'.view := by
  obtain ⟨index, hopen, rfl⟩ := h
  rw [view_pull]
  exact .pull s.view index hopen

/-- A pull while one packet is held back. -/
theorem PullStep.step_hold {s s' : MergeState H} (h : PullStep s s') (entry : HeapEntry n T) :
    MergeView.Step (s.view.hold entry) (s'.view.hold entry) := by
  obtain ⟨index, hopen, rfl⟩ := h
  rw [view_pull, ← MergeView.pull_hold]
  exact .pull (s.view.hold entry) index hopen

/-- A pull of an open stream keeps the counts right. -/
theorem PullStep.counted {s s' : MergeState H} (h : PullStep s s') (hs : Counted s) :
    Counted s' := by
  obtain ⟨index, -, rfl⟩ := h
  exact counted_pull hs index

/-- Any number of pulls. -/
abbrev Pulls : MergeState H → MergeState H → Prop := Relation.ReflTransGen PullStep

/-- Any number of pulls keeps the counts right. -/
theorem Pulls.counted {s s' : MergeState H} (h : Pulls s s') (hs : Counted s) : Counted s' := by
  induction h with
  | refl => exact hs
  | tail _ hstep ih => exact hstep.counted ih

/-- Pulls are a run of the view while one packet is held back. -/
theorem Pulls.run_hold {s s' : MergeState H} (h : Pulls s s') (entry : HeapEntry n T) :
    MergeView.Run (s.view.hold entry) (s'.view.hold entry) :=
  h.lift (fun t : MergeState H => t.view.hold entry) fun _ _ hstep => hstep.step_hold entry

/-- A pass pulls the streams that are due, and does nothing when none is. -/
theorem pullWhere_spec (due : MergeState H → Fin n → Bool)
    (hdue : ∀ s index, due s index = true → s.lowerBound index ≠ I64.MAX) (s : MergeState H) :
    (pullWhere due s = (false, s) ∧ ∀ index, due s index = false) ∨
      ∃ s', pullWhere due s = (true, s') ∧ Relation.TransGen PullStep s s' := by
  have hfold : ∀ (l : List (Fin n)) (acc : Bool × MergeState H),
      (l.foldl (fun acc index => if due acc.2 index then (true, pull index acc.2) else acc) acc =
        acc ∧ ∀ index ∈ l, due acc.2 index = false) ∨
      ∃ s', l.foldl (fun acc index => if due acc.2 index then (true, pull index acc.2) else acc)
        acc = (true, s') ∧ Relation.TransGen PullStep acc.2 s' := by
    intro l
    induction l with
    | nil => intro acc; exact .inl ⟨rfl, by simp⟩
    | cons index l ih =>
      intro acc
      rw [List.foldl_cons]
      by_cases hd : due acc.2 index = true
      · right
        have hstep : PullStep acc.2 (pull index acc.2) := ⟨index, hdue _ _ hd, rfl⟩
        rw [if_pos hd]
        rcases ih (true, pull index acc.2) with ⟨heq, -⟩ | ⟨s', heq, hpulls⟩
        · exact ⟨_, heq, .single hstep⟩
        · exact ⟨s', heq, .head hstep hpulls⟩
      · rw [if_neg hd]
        rcases ih acc with ⟨heq, hnone⟩ | hsome
        · refine .inl ⟨heq, fun j hj => ?_⟩
          rcases List.mem_cons.1 hj with rfl | hj
          · exact Bool.eq_false_iff.2 hd
          · exact hnone j hj
        · exact .inr hsome
  rcases hfold (List.finRange n) (false, s) with ⟨heq, hnone⟩ | hsome
  · exact .inl ⟨heq, fun index => hnone index (List.mem_finRange index)⟩
  · exact .inr hsome

/-- Pulls leave less work. -/
theorem work_lt_of_pulls {s s' : MergeState H} (h : Relation.TransGen PullStep s s') :
    s'.view.work < s.view.work :=
  MergeView.work_lt_of_steps (h.lift MergeState.view fun _ _ hstep => hstep.step)

/-- Reading ahead comes to an end, with every stream read up to `timestamp`. -/
theorem readAhead_spec (timestamp : I64) {fuel : ℕ} {s : MergeState H}
    (hfuel : s.view.work < fuel) :
    ∃ s', (readAhead timestamp fuel s : Outcome (ε × MergeState H) _) = .ok s' ∧ Pulls s s' ∧
      ∀ index, timestamp ≤ s'.lowerBound index := by
  induction fuel generalizing s with
  | zero => omega
  | succ fuel ih =>
    have hdue : ∀ (t : MergeState H) (index : Fin n),
        decide (t.lowerBound index < timestamp) = true → t.lowerBound index ≠ I64.MAX := by
      intro t index hlt hmax
      rw [decide_eq_true_eq, hmax] at hlt
      exact absurd hlt (not_lt.2 timestamp.property.2)
    rcases pullWhere_spec (fun t index => decide (t.lowerBound index < timestamp)) hdue s with
      ⟨heq, hnone⟩ | ⟨s', heq, hpulls⟩
    · refine ⟨s, by rw [readAhead, heq], .refl, fun index => ?_⟩
      exact not_lt.1 (of_decide_eq_false (hnone index))
    · have hwork := work_lt_of_pulls hpulls
      obtain ⟨t, ht, hst, hbound⟩ := ih (show s'.view.work < fuel by omega)
      exact ⟨t, by rw [readAhead, heq]; exact ht, hpulls.to_reflTransGen.trans hst, hbound⟩

/-! ### One turn -/

/-- The state that has an entry taken out of its heap. -/
def popped (s : MergeState H) (entry : HeapEntry n T) (heap : H.Carrier) : MergeState H :=
  { s with
    heap := heap
    inFlight := Function.update s.inFlight entry.reader (s.inFlight entry.reader - 1) }

/-- A popped entry that is held back is in the view as before. -/
theorem view_popped {s : MergeState H} {entry : HeapEntry n T} {heap : H.Carrier}
    (h : H.pop s.heap = some (entry, heap)) : (popped s entry heap).view.hold entry = s.view := by
  simp [view, popped, MergeView.hold, H.elems_pop _ _ _ h]

/-- A popped entry was counted, and the counts stay right without it. -/
theorem counted_popped {s : MergeState H} {entry : HeapEntry n T} {heap : H.Carrier}
    (hs : Counted s) (h : H.pop s.heap = some (entry, heap)) :
    s.inFlight entry.reader ≠ 0 ∧ Counted (popped s entry heap) := by
  have hcount := fun j => (hs j).trans
    (congrArg (Multiset.countP fun e : HeapEntry n T => e.reader = j) (H.elems_pop _ _ _ h))
  simp only [Multiset.countP_cons] at hcount
  refine ⟨by simp [hcount entry.reader], fun j => ?_⟩
  by_cases hj : j = entry.reader
  · subst hj
    simp [popped, hcount entry.reader]
  · simp only [popped, Function.update_of_ne hj, hcount j, if_neg (Ne.symm hj), Nat.add_zero]

/-- Putting the entry back shows the held view. -/
theorem view_putBack (s : MergeState H) (entry : HeapEntry n T) (count : Fin n → ℕ) :
    ({ s with inFlight := count, heap := H.push entry s.heap } : MergeState H).view =
      s.view.hold entry := by
  simp [view, MergeView.hold, H.elems_push]

/-- Putting an entry back keeps the counts right. -/
theorem counted_putBack {s : MergeState H} (hs : Counted s) (entry : HeapEntry n T) :
    Counted ({ s with
      inFlight := Function.update s.inFlight entry.reader (s.inFlight entry.reader + 1)
      heap := H.push entry s.heap } : MergeState H) := by
  intro j
  simp only [H.elems_push, Multiset.countP_cons]
  by_cases hj : j = entry.reader
  · subst hj
    simp [hs entry.reader]
  · simp [Function.update_of_ne hj, hs j, Ne.symm hj]

/-- The rest of a turn, once the streams were read ahead. -/
def afterReadAhead (emit : List T → T → Except ε Unit) (entry : HeapEntry n T)
    (t : MergeState H) : Outcome (ε × MergeState H) (Bool × MergeState H) :=
  if (H.peek t.heap).any (fun next => next.timestamp < entry.timestamp) then
    .ok (true, { t with
      inFlight := Function.update t.inFlight entry.reader (t.inFlight entry.reader + 1)
      heap := H.push entry t.heap })
  else
    match emit (t.emitted.map HeapEntry.value) entry.value with
    | .ok () => .ok (true, { t with emitted := t.emitted ++ [entry] })
    | .error e => .err (e, { t with emitted := t.emitted ++ [entry] })

/-- **What one turn of the outer loop does**: it stops where no move is left, and
otherwise makes at least one move. -/
theorem mergeTurn_spec (emit : List T → T → Except ε Unit) {fuel : ℕ} {s : MergeState H}
    (hs : Counted s) (hfuel : s.view.work ≤ fuel) :
    (mergeTurn emit fuel s = .ok (false, s) ∧ s.view.Halted) ∨
    (∃ s', mergeTurn emit fuel s = .ok (true, s') ∧ Counted s' ∧
      Relation.TransGen MergeView.Step s.view s'.view) ∨
    ∃ e s', mergeTurn emit fuel s = .err (e, s') ∧
      Relation.TransGen MergeView.Step s.view s'.view := by
  cases hpop : H.pop s.heap with
  | none =>
    have hempty : H.elems s.heap = 0 := (H.pop_eq_none _).1 hpop
    rcases pullWhere_spec
      (fun t : MergeState H => fun index =>
        decide (t.inFlight index = 0 ∧ t.lowerBound index ≠ I64.MAX))
      (fun t index h => (of_decide_eq_true h).2) s with ⟨heq, hnone⟩ | ⟨s', heq, hpulls⟩
    · refine .inl ⟨by rw [mergeTurn, hpop]; exact congrArg Outcome.ok heq, hempty, fun index => ?_⟩
      have hcount : s.inFlight index = 0 := by rw [hs index, hempty, Multiset.countP_zero]
      by_contra hopen
      exact of_decide_eq_false (hnone index) ⟨hcount, hopen⟩
    · refine .inr (.inl ⟨s', by rw [mergeTurn, hpop]; exact congrArg Outcome.ok heq,
        Pulls.counted hpulls.to_reflTransGen hs, ?_⟩)
      exact hpulls.lift MergeState.view fun _ _ hstep => hstep.step
  | some p =>
    obtain ⟨entry, heap⟩ := p
    obtain ⟨hne, hcounted⟩ := counted_popped hs hpop
    have hview := view_popped hpop
    have hwork : (popped s entry heap).view.work < fuel := by
      have := MergeView.work_hold (popped s entry heap).view entry
      rw [hview] at this
      omega
    obtain ⟨t, hread, hpulls, hbound⟩ := @readAhead_spec n T ε H entry.timestamp fuel _ hwork
    have hrun := hpulls.run_hold entry
    rw [hview] at hrun
    have htcounted := hpulls.counted hcounted
    have hturn : mergeTurn emit fuel s = afterReadAhead emit entry t := by
      simp only [mergeTurn, hpop, if_neg hne]
      rw [popped] at hread
      rw [hread]
      rfl
    unfold afterReadAhead at hturn
    by_cases hearlier :
        (H.peek t.heap).any (fun next => next.timestamp < entry.timestamp) = true
    · rw [if_pos hearlier] at hturn
      refine .inr (.inl ⟨_, hturn, counted_putBack htcounted entry, ?_⟩)
      rw [view_putBack]
      -- an earlier packet on the heap was not there when the entry was popped
      rcases Relation.reflTransGen_iff_eq_or_transGen.1 hpulls with heq | htrans
      · cases hpeek : H.peek t.heap with
        | none => simp [hpeek] at hearlier
        | some next =>
          have hlt : next.timestamp < entry.timestamp := by simpa [hpeek] using hearlier
          have hmem : next ∈ H.elems heap := by
            have := (H.le_of_peek hpeek).1
            rwa [heq] at this
          exact absurd (HeapEntry.timestamp_le_of_le (H.le_of_pop _ _ _ hpop next hmem))
            (not_le.2 hlt)
      · rw [← hview]
        exact htrans.lift (fun t : MergeState H => t.view.hold entry)
          fun _ _ hstep => hstep.step_hold entry
    · rw [if_neg hearlier] at hturn
      have hpending : ∀ x ∈ H.elems t.heap, entry.timestamp ≤ x.timestamp := by
        intro x hx
        cases hpeek : H.peek t.heap with
        | none => rw [H.peek_eq_none.1 hpeek] at hx; simp at hx
        | some next =>
          have hnext : entry.timestamp ≤ next.timestamp := by simpa [hpeek] using hearlier
          rcases (H.le_of_peek hpeek).2 x hx with rfl | hle
          · exact hnext
          · exact hnext.trans (HeapEntry.timestamp_le_of_le hle)
      have hemit : Relation.TransGen MergeView.Step s.view (t.view.emit entry) :=
        Relation.TransGen.tail' hrun (.emit t.view entry hbound hpending)
      cases hcall : emit (t.emitted.map HeapEntry.value) entry.value with
      | ok u =>
        rw [hcall] at hturn
        exact .inr (.inl ⟨_, hturn, htcounted, hemit⟩)
      | error e =>
        rw [hcall] at hturn
        exact .inr (.inr ⟨e, _, hturn, hemit⟩)

/-! ### The loop -/

/-- **The loop refines the view**: given fuel for the work left, it ends, in a
state that shows a view that the moves reach, and when it ends without an error
no move is left. -/
theorem mergeLoop_refines (emit : List T → T → Except ε Unit) {fuel : ℕ} {s : MergeState H}
    (hs : Counted s) (hfuel : s.view.work < fuel) :
    (∃ s', mergeLoop emit fuel s = .ok ((), s') ∧ MergeView.Run s.view s'.view ∧
      s'.view.Halted) ∨
    ∃ e s', mergeLoop emit fuel s = .err (e, s') ∧ MergeView.Run s.view s'.view := by
  induction fuel generalizing s with
  | zero => omega
  | succ fuel ih =>
    rcases mergeTurn_spec emit hs (show s.view.work ≤ fuel by omega) with
      ⟨hturn, hhalt⟩ | ⟨s', hturn, hs', hrun⟩ | ⟨e, s', hturn, hrun⟩
    · exact .inl ⟨s, by simp [mergeLoop, hturn], .refl, hhalt⟩
    · have hlt := MergeView.work_lt_of_steps hrun
      have hloop : mergeLoop emit (fuel + 1) s = mergeLoop emit fuel s' := by
        simp [mergeLoop, hturn]
      rw [hloop]
      rcases ih hs' (by omega) with ⟨t, ht, hrest, hhalt⟩ | ⟨e, t, ht, hrest⟩
      · exact .inl ⟨t, ht, hrun.to_reflTransGen.trans hrest, hhalt⟩
      · exact .inr ⟨e, t, ht, hrun.to_reflTransGen.trans hrest⟩
    · exact .inr ⟨e, s', by simp [mergeLoop, hturn], hrun.to_reflTransGen⟩

/-- The budget covers the work of the whole merge. -/
theorem work_init_lt (streams : Fin n → List (Batch T)) :
    (MergeView.init streams).work < budget streams := by
  have hopen : I64.MIN ≠ I64.MAX := by decide
  simp [MergeView.work, MergeView.streamWork, MergeView.init, hopen, budget]

/-- `merge_batches` ends, whatever the streams and whatever `emit` does. -/
theorem mergeBatches_refines (emit : List T → T → Except ε Unit)
    (streams : Fin n → List (Batch T)) :
    (∃ s, mergeBatches H emit streams = .ok ((), s) ∧
      MergeView.Run (MergeView.init streams) s.view ∧ s.view.Halted) ∨
    ∃ e s, mergeBatches H emit streams = .err (e, s) ∧
      MergeView.Run (MergeView.init streams) s.view := by
  have hloop := mergeLoop_refines emit (@counted_init n T H streams)
    (by rw [view_init]; exact work_init_lt streams)
  rwa [view_init] at hloop

/-- From sorted streams, the merge stops in a state that shows an ordered view. -/
theorem mergeBatches_ordered (H : BinaryHeap (HeapEntry n T) HeapEntry.le)
    (emit : List T → T → Except ε Unit) {streams : Fin n → List (Batch T)}
    (hsorted : ∀ index, (streams index).Pairwise fun a b => batchMin a ≤ batchMin b) :
    ∃ s, (mergeBatches H emit streams = .ok ((), s) ∨
      ∃ e, mergeBatches H emit streams = .err (e, s)) ∧ s.view.Ordered := by
  have hkeep : ∀ {v : MergeView n T}, MergeView.Run (MergeView.init streams) v → v.Ordered :=
    fun hrun => hrun.invariant MergeView.Ordered (fun _ _ hv hstep => hv.step hstep)
      (.init hsorted)
  rcases @mergeBatches_refines n T ε H emit streams with ⟨s, hs, hrun, -⟩ | ⟨e, s, hs, hrun⟩
  · exact ⟨s, .inl hs, hkeep hrun⟩
  · exact ⟨s, .inr ⟨e, hs⟩, hkeep hrun⟩

/-- What was emitted is in non-decreasing timestamp order. -/
def EmittedInOrder (s : MergeState H) : Prop :=
  s.emitted.Pairwise fun a b => a.timestamp ≤ b.timestamp

/-- **The merge is sorted.**  From streams whose batches start in non-decreasing
order, `merge_batches` emits in non-decreasing timestamp order, however the
packets of a batch and the batches of a stream overlap, and also when an `emit`
fails. -/
theorem mergeBatches_sorted (H : BinaryHeap (HeapEntry n T) HeapEntry.le)
    (emit : List T → T → Except ε Unit) (streams : Fin n → List (Batch T))
    (hsorted : ∀ index, (streams index).Pairwise fun a b => batchMin a ≤ batchMin b) :
    ∃ s, (mergeBatches H emit streams = .ok ((), s) ∨
        ∃ e, mergeBatches H emit streams = .err (e, s)) ∧ EmittedInOrder s := by
  obtain ⟨s, hs, hordered⟩ := mergeBatches_ordered H emit hsorted
  exact ⟨s, hs, hordered.sorted⟩

/-- Two streams on a heap kept as a list, the second with a batch whose packets
reach past the start of its next one. -/
def jitteredStreams : Fin 2 → List (Batch ℕ) :=
  ![[[(I64.ofInt 3, 0)]],
    [[(I64.ofInt 0, 1), (I64.ofInt 90, 2)], [(I64.ofInt 5, 3), (I64.ofInt 95, 4)]]]

/-- The merge of the two is sorted. -/
theorem mergeBatches_sorted_jittered :
    ∃ s, (mergeBatches (BinaryHeap.sorted HeapEntry.le) (fun _ _ => .ok ()) jitteredStreams =
          (.ok ((), s) : Outcome (Unit × _) _) ∨
        ∃ e, mergeBatches (BinaryHeap.sorted HeapEntry.le) (fun _ _ => .ok ()) jitteredStreams =
          (.err (e, s) : Outcome (Unit × _) _)) ∧
      EmittedInOrder s :=
  mergeBatches_sorted _ _ _ (by decide)

/-! ### Conservation -/

/-- Every packet of every stream was emitted exactly once. -/
def Conserved (streams : Fin n → List (Batch T)) (s : MergeState H) : Prop :=
  (s.emitted : Multiset (HeapEntry n T)) = MergeView.allPackets streams

/-- There is no packet when every stream is empty. -/
theorem allPackets_eq_zero {streams : Fin n → List (Batch T)} :
    MergeView.allPackets streams = 0 ↔ ∀ index, (streams index).flatten = [] := by
  simp only [MergeView.allPackets, Finset.sum_eq_zero_iff, Finset.mem_univ, true_implies]
  simp [MergeView.packetsOf, entriesOf]

/-- **When the merge conserves packets.**  From streams of non-empty batches,
`merge_batches` always returns, and if no `emit` fails it has emitted every packet
of every batch of every stream exactly once if and only if no batch but the last
of its stream starts at `i64::MAX`: a batch that does retires its stream, and the
batches behind it are never read. -/
theorem mergeBatches_conserves (H : BinaryHeap (HeapEntry n T) HeapEntry.le)
    (emit : List T → T → Except ε Unit) (streams : Fin n → List (Batch T))
    (hne : ∀ index, ∀ batch ∈ streams index, batch ≠ []) :
    (mergeBatches H emit streams).Returns ∧
      ∀ s, mergeBatches H emit streams = .ok ((), s) →
        (Conserved streams s ↔
          ∀ index, ∀ batch ∈ (streams index).dropLast, batchMin batch ≠ I64.MAX) := by
  have hlost : ∀ index, (MergeView.unreadOf (streams index)).flatten = [] ↔
      ∀ batch ∈ (streams index).dropLast, batchMin batch ≠ I64.MAX := by
    intro index
    rw [← MergeView.unreadOf_eq_nil, List.flatten_eq_nil_iff]
    constructor
    · intro h
      refine List.eq_nil_iff_forall_not_mem.2 fun batch hbatch => ?_
      exact hne index batch ((MergeView.unreadOf_suffix _).mem hbatch) (h batch hbatch)
    · intro h
      simp [h]
  rcases @mergeBatches_refines n T ε H emit streams with ⟨s, hs, hrun, hhalt⟩ | ⟨e, s, hs, -⟩
  · rw [hs]
    refine ⟨by simp, fun s' hs' => ?_⟩
    obtain rfl : s = s' := by simpa using hs'
    have hall := hhalt.emitted_add hrun
    have hiff : Conserved streams s ↔
        MergeView.allPackets (fun index => MergeView.unreadOf (streams index)) = 0 := by
      rw [Conserved, ← hall]
      constructor
      · intro h
        exact add_eq_left.1 h.symm
      · intro h
        rw [h, add_zero]
        rfl
    rw [hiff, allPackets_eq_zero]
    exact forall_congr' hlost
  · rw [hs]
    exact ⟨by simp, fun s' hs' => by simp at hs'⟩

/-- The packets of the two streams are all emitted, as none starts at
`i64::MAX`. -/
theorem mergeBatches_conserves_jittered :
    (mergeBatches (BinaryHeap.sorted HeapEntry.le) (fun _ _ => (.ok () : Except Unit Unit))
        jitteredStreams).Returns ∧
      ∀ s, mergeBatches (BinaryHeap.sorted HeapEntry.le) (fun _ _ => (.ok () : Except Unit Unit))
          jitteredStreams = .ok ((), s) →
        (Conserved jitteredStreams s ↔
          ∀ index, ∀ batch ∈ (jitteredStreams index).dropLast, batchMin batch ≠ I64.MAX) :=
  mergeBatches_conserves _ _ _ (by decide)

/-- One stream with a packet at `i64::MAX` in front of another packet. -/
def retiredStream : Fin 1 → List (Batch ℕ) := ![[[(I64.MAX, 0)], [(I64.ofInt 0, 1)]]]

/-- **The merge loses packets.**  The first packet retires the stream, and the
second is never emitted. -/
theorem mergeBatches_drops :
    ∃ s, mergeBatches (BinaryHeap.sorted HeapEntry.le) (fun _ _ => (.ok () : Except Unit Unit))
        retiredStream = .ok ((), s) ∧ ¬Conserved retiredStream s := by
  refine ⟨_, rfl, fun h => ?_⟩
  exact absurd (congrArg Multiset.card h) (by decide)

end Mergecap
end Maja
