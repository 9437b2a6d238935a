/-
# Ties in the merge

Entries of one stream with one timestamp compare equal, so that `pop` may take any
of them first.  While the greatest entries of the heap are all the same packet, the
merge emits a stream as the stream delivers it: what it has emitted, what waits in
the heap and what is unread are the stream, cut in three (`Queues`), and the entry
that is popped is the first that waits.  Where two different packets tie, a lawful
heap may swap them (`mergeBatches_swaps`), although a test of the merge expects the
order of arrival.
-/

import Maja.Mergecap.MergeRefines

namespace Maja
namespace Mergecap

open Lib

variable {n : ℕ} {T ε : Type} {H : BinaryHeap (HeapEntry n T) HeapEntry.le}

/-- No entry of the heap exceeds the entry. -/
def HeapEntry.Greatest (entry : HeapEntry n T) (entries : Multiset (HeapEntry n T)) : Prop :=
  ∀ x ∈ entries, x.le entry

namespace MergeState

/-- The documentation of `pop` settles which packet it takes: the greatest entries
of the heap, which have one timestamp and one stream, are one packet. -/
def Untied (s : MergeState H) : Prop :=
  ∀ x ∈ H.elems s.heap, ∀ y ∈ H.elems s.heap, x.Greatest (H.elems s.heap) →
    y.Greatest (H.elems s.heap) → x = y

end MergeState

open MergeState

/-- The states in which a turn of the merge begins, with the fuel that is left. -/
inductive Turns (H : BinaryHeap (HeapEntry n T) HeapEntry.le) (emit : List T → T → Except ε Unit)
    (streams : Fin n → List (Batch T)) : ℕ → MergeState H → Prop
  | init : Turns H emit streams (budget streams) (MergeState.init H streams)
  | turn {fuel : ℕ} {s s' : MergeState H} : Turns H emit streams (fuel + 1) s →
      mergeTurn emit fuel s = .ok (true, s') → Turns H emit streams fuel s'

/-- The packets of every stream are in non-decreasing timestamp order. -/
def StreamsSorted (streams : Fin n → List (Batch T)) : Prop :=
  ∀ index, (streams index).flatten.Pairwise fun a b => a.1 ≤ b.1

/-- Packets of one stream with one timestamp are emitted in the order in which the
stream delivers them. -/
def KeepsOrder (streams : Fin n → List (Batch T)) (s : MergeState H) : Prop :=
  ∀ index timestamp,
    (s.emitted.filter fun entry => entry.reader = index ∧ entry.timestamp = timestamp).map
        HeapEntry.value <+:
      ((streams index).flatten.filter fun packet => packet.1 = timestamp).map Prod.snd

/-! ### The queues of the streams -/

namespace MergeView

/-- The packets of a stream that wait, in the order in which the stream delivered
them: behind what is emitted and in front of what is unread. -/
structure Queues (streams : Fin n → List (Batch T)) (v : MergeView n T)
    (waiting : Fin n → List (HeapEntry n T)) : Prop where
  pending : ∀ index, (waiting index : Multiset (HeapEntry n T)) =
    v.pending.filter fun entry => entry.reader = index
  delivered : ∀ index, (v.emitted.filter fun entry => entry.reader = index) ++ waiting index ++
    entriesOf index (v.streams index).flatten = entriesOf index (streams index).flatten

variable {streams : Fin n → List (Batch T)} {v : MergeView n T} {entry : HeapEntry n T}
  {waiting : Fin n → List (HeapEntry n T)}

/-- Before the first pull nothing was read of any stream. -/
theorem Queues.init (streams : Fin n → List (Batch T)) :
    Queues streams (init streams) fun _ => [] :=
  ⟨fun _ => rfl, fun _ => rfl⟩

/-- The entries of a batch, and of packets behind it. -/
theorem entriesOf_append (index : Fin n) (xs ys : Batch T) :
    entriesOf index (xs ++ ys) = entriesOf index xs ++ entriesOf index ys := List.map_append

/-- The entries of a batch belong to its stream. -/
theorem filter_entriesOf (index j : Fin n) (batch : Batch T) :
    ((entriesOf index batch : List (HeapEntry n T)) : Multiset (HeapEntry n T)).filter
      (fun entry => entry.reader = j) =
        if index = j then
          ((entriesOf index batch : List (HeapEntry n T)) : Multiset (HeapEntry n T))
        else 0 := by
  have hreader : ∀ x : HeapEntry n T,
      x ∈ ((entriesOf index batch : List (HeapEntry n T)) : Multiset (HeapEntry n T)) →
        x.reader = index := by
    intro x hx
    obtain ⟨p, -, rfl⟩ := List.mem_map.1 (Multiset.mem_coe.1 hx)
    rfl
  split_ifs with h
  · exact Multiset.filter_eq_self.2 fun x hx => (hreader x hx).trans h
  · exact Multiset.filter_eq_nil.2 fun x hx hj => h ((hreader x hx).symm.trans hj)

/-- A pull appends to the queue of its stream. -/
theorem Queues.pull (h : Queues streams v waiting) (index : Fin n) :
    ∃ waiting', Queues streams (v.pull index) waiting' ∧ ∀ j, waiting j <+: waiting' j := by
  cases hs : v.streams index with
  | nil =>
      rw [pull_of_nil hs]
      exact ⟨waiting, ⟨h.pending, h.delivered⟩, fun j => List.prefix_rfl⟩
  | cons batch rest =>
      rw [pull_of_cons hs]
      refine ⟨Function.update waiting index (waiting index ++ entriesOf index batch),
        ⟨fun j => ?_, fun j => ?_⟩, fun j => ?_⟩
      · rw [Multiset.filter_add, filter_entriesOf, ← h.pending j]
        by_cases hj : j = index
        · subst hj
          rw [Function.update_self, if_pos rfl, ← Multiset.coe_add, add_comm]
        · rw [Function.update_of_ne hj, if_neg (Ne.symm hj), zero_add]
      · have hdelivered := h.delivered j
        by_cases hj : j = index
        · subst hj
          rw [hs, List.flatten_cons, entriesOf_append] at hdelivered
          simpa using hdelivered
        · simpa [Function.update_of_ne hj] using hdelivered
      · by_cases hj : j = index
        · subst hj
          rw [Function.update_self]
          exact List.prefix_append _ _
        · rw [Function.update_of_ne hj]

/-- An emit takes the first packet off its queue. -/
theorem Queues.emit {rest : List (HeapEntry n T)} (h : Queues streams (v.hold entry) waiting)
    (hfirst : waiting entry.reader = entry :: rest) :
    Queues streams (v.emit entry) (Function.update waiting entry.reader rest) := by
  constructor
  · intro j
    have hpending := h.pending j
    rw [hold_pending] at hpending
    by_cases hj : j = entry.reader
    · subst hj
      rw [hfirst,
        Multiset.filter_cons_of_pos (p := fun e : HeapEntry n T => e.reader = entry.reader) _ rfl,
        ← Multiset.cons_coe] at hpending
      rw [Function.update_self]
      exact (Multiset.cons_inj_right entry).1 hpending
    · rw [Multiset.filter_cons_of_neg (p := fun e : HeapEntry n T => e.reader = j) _
        (Ne.symm hj)] at hpending
      rw [Function.update_of_ne hj]
      exact hpending
  · intro j
    have hdelivered := h.delivered j
    by_cases hj : j = entry.reader
    · subst hj
      rw [hfirst] at hdelivered
      simpa [MergeView.emit, List.filter_append] using hdelivered
    · simpa [MergeView.emit, List.filter_append, Function.update_of_ne hj, Ne.symm hj]
        using hdelivered

/-- Packets that wait are in order. -/
theorem Queues.sorted (hsorted : StreamsSorted streams) (h : Queues streams v waiting)
    (index : Fin n) : (waiting index).Pairwise fun a b => a.timestamp ≤ b.timestamp := by
  have hall : (entriesOf index (streams index).flatten : List (HeapEntry n T)).Pairwise
      fun a b => a.timestamp ≤ b.timestamp := List.pairwise_map.2 (hsorted index)
  rw [← h.delivered index] at hall
  exact (List.pairwise_append.1 (List.pairwise_append.1 hall).1).2.1

/-- What is emitted of a stream is the start of it. -/
theorem Queues.emitted_prefix (h : Queues streams v waiting) (index : Fin n) :
    (v.emitted.filter fun entry => entry.reader = index) <+:
      entriesOf index (streams index).flatten :=
  ⟨waiting index ++ entriesOf index (v.streams index).flatten, by
    rw [← List.append_assoc, h.delivered index]⟩

end MergeView

/-! ### One turn -/

section Turn

variable {streams : Fin n → List (Batch T)} {s s' : MergeState H} {entry : HeapEntry n T}
  {heap : H.Carrier} {fuel : ℕ} {emit : List T → T → Except ε Unit}
  {waiting : Fin n → List (HeapEntry n T)}

/-- A turn pulls; or it pops an entry, pulls, and puts the entry back or emits it. -/
def TurnTo (s s' : MergeState H) : Prop :=
  Pulls s s' ∨ ∃ entry heap t, H.pop s.heap = some (entry, heap) ∧
    Pulls (popped s entry heap) t ∧ (s'.view = t.view.hold entry ∨ s'.view = t.view.emit entry)

/-- A pass over the streams is a number of pulls. -/
theorem pullWhere_pulls (due : MergeState H → Fin n → Bool)
    (hdue : ∀ s index, due s index = true → s.lowerBound index ≠ I64.MAX) (s : MergeState H) :
    Pulls s (pullWhere due s).2 := by
  rcases pullWhere_spec due hdue s with ⟨heq, -⟩ | ⟨s', heq, hpulls⟩
  · rw [heq]
  · rw [heq]
    exact hpulls.to_reflTransGen

/-- Reading ahead pulls. -/
theorem readAhead_pulls {timestamp : I64}
    (h : (readAhead timestamp fuel s : Outcome (ε × MergeState H) _) = .ok s') : Pulls s s' := by
  induction fuel generalizing s with
  | zero => cases h
  | succ fuel ih =>
      have hpulls := pullWhere_pulls (fun s index => decide (s.lowerBound index < timestamp))
        (fun t index hlt hmax => by
          rw [decide_eq_true_eq, hmax] at hlt
          exact absurd hlt (not_lt.2 timestamp.property.2)) s
      rw [readAhead] at h
      split at h
      · rename_i t heq
        rw [heq] at hpulls
        exact hpulls.trans (ih h)
      · rename_i t heq
        rw [heq] at hpulls
        obtain rfl := Outcome.ok.inj h
        exact hpulls

/-- Reading ahead does not fail. -/
theorem readAhead_ne_err {timestamp : I64} {e : ε × MergeState H} :
    (readAhead timestamp fuel s : Outcome (ε × MergeState H) _) ≠ .err e := by
  induction fuel generalizing s with
  | zero => simp [readAhead]
  | succ fuel ih =>
      rw [readAhead]
      split
      · exact ih
      · simp

/-- Behind a pop, a turn reads ahead and then decides about the entry. -/
theorem mergeTurn_of_pop (hpop : H.pop s.heap = some (entry, heap))
    (hcount : s.inFlight entry.reader ≠ 0) :
    mergeTurn emit fuel s = (readAhead entry.timestamp fuel (popped s entry heap) >>= fun t =>
      if (H.peek t.heap).any (fun next => next.timestamp < entry.timestamp) then
        .ok (true, { t with
          inFlight := Function.update t.inFlight entry.reader (t.inFlight entry.reader + 1)
          heap := H.push entry t.heap })
      else
        match emit (t.emitted.map HeapEntry.value) entry.value with
        | .ok () => .ok (true, { t with emitted := t.emitted ++ [entry] })
        | .error e => .err (e, { t with emitted := t.emitted ++ [entry] })) := by
  simp only [mergeTurn, hpop, if_neg hcount]
  rfl

/-- **What a turn does**, whether it goes on, stops, or an `emit` fails. -/
theorem mergeTurn_turnTo
    (h : (∃ more, mergeTurn emit fuel s = .ok (more, s')) ∨
      ∃ e, mergeTurn emit fuel s = .err (e, s')) : TurnTo s s' := by
  cases hpop : H.pop s.heap with
  | none =>
      left
      have hturn : mergeTurn emit fuel s = .ok (pullWhere
          (fun s index => s.inFlight index = 0 ∧ s.lowerBound index ≠ I64.MAX) s) := by
        rw [mergeTurn, hpop]
      have hpulls := pullWhere_pulls
        (fun s index => decide (s.inFlight index = 0 ∧ s.lowerBound index ≠ I64.MAX))
        (fun t index hdue => (of_decide_eq_true hdue).2) s
      rw [hturn] at h
      obtain ⟨more, h⟩ | ⟨e, h⟩ := h
      · rw [Outcome.ok.inj h] at hpulls
        exact hpulls
      · cases h
  | some top =>
      obtain ⟨entry, heap⟩ := top
      by_cases hcount : s.inFlight entry.reader = 0
      · have hturn : mergeTurn emit fuel s = .panic := by simp [mergeTurn, hpop, hcount]
        simp [hturn] at h
      rw [mergeTurn_of_pop hpop hcount] at h
      cases hread : (readAhead entry.timestamp fuel (popped s entry heap) :
          Outcome (ε × MergeState H) _) with
      | ok t =>
          rw [hread, Outcome.ok_bind] at h
          refine .inr ⟨entry, heap, t, hpop, readAhead_pulls hread, ?_⟩
          split_ifs at h with hearlier
          · left
            obtain ⟨more, h⟩ | ⟨e, h⟩ := h
            · obtain rfl := (Prod.mk.inj (Outcome.ok.inj h)).2
              exact view_putBack t entry _
            · cases h
          · right
            cases hcall : emit (t.emitted.map HeapEntry.value) entry.value with
            | ok u =>
                rw [hcall] at h
                obtain ⟨more, h⟩ | ⟨e, h⟩ := h
                · obtain rfl := (Prod.mk.inj (Outcome.ok.inj h)).2
                  rfl
                · cases h
            | error err =>
                rw [hcall] at h
                obtain ⟨more, h⟩ | ⟨e, h⟩ := h
                · cases h
                · obtain rfl := (Prod.mk.inj (Outcome.err.inj h)).2
                  rfl
      | err e => exact absurd hread readAhead_ne_err
      | panic => simp [hread] at h
      | outOfFuel => simp [hread] at h

/-- Pulls leave what waits in front, also while an entry is held back. -/
theorem Pulls.queues (h : Pulls s s') (held : MergeView n T → MergeView n T)
    (hheld : ∀ v index, (held v).pull index = held (v.pull index))
    (hq : MergeView.Queues streams (held s.view) waiting) :
    ∃ waiting', MergeView.Queues streams (held s'.view) waiting' ∧
      ∀ j, waiting j <+: waiting' j := by
  induction h with
  | refl => exact ⟨waiting, hq, fun j => List.prefix_rfl⟩
  | tail _ hstep ih =>
      obtain ⟨index, -, rfl⟩ := hstep
      obtain ⟨waiting₁, hq₁, hprefix₁⟩ := ih
      obtain ⟨waiting₂, hq₂, hprefix₂⟩ := hq₁.pull index
      rw [view_pull, ← hheld]
      exact ⟨waiting₂, hq₂, fun j => (hprefix₁ j).trans (hprefix₂ j)⟩

/-- **The entry that is popped is the first that waits**, if nothing ties with it. -/
theorem waiting_eq_cons (hsorted : StreamsSorted streams)
    (hq : MergeView.Queues streams s.view waiting) (huntied : s.Untied)
    (hpop : H.pop s.heap = some (entry, heap)) :
    ∃ rest, waiting entry.reader = entry :: rest := by
  have helems := H.elems_pop _ _ _ hpop
  have hmem : entry ∈ H.elems s.heap := by
    rw [helems]
    exact Multiset.mem_cons_self _ _
  have hgreatest : entry.Greatest (H.elems s.heap) := by
    intro x hx
    rw [helems] at hx
    rcases Multiset.mem_cons.1 hx with rfl | hx
    · exact HeapEntry.le_iff.2 (.inr ⟨rfl, le_rfl⟩)
    · exact H.le_of_pop _ _ _ hpop x hx
  have hwaits : ∀ x, x ∈ waiting entry.reader ↔ x ∈ H.elems s.heap ∧ x.reader = entry.reader := by
    intro x
    rw [← Multiset.mem_coe, hq.pending, Multiset.mem_filter]
    rfl
  have hentry := (hwaits entry).2 ⟨hmem, rfl⟩
  have hinorder := hq.sorted hsorted entry.reader
  cases hwaiting : waiting entry.reader with
  | nil =>
      rw [hwaiting] at hentry
      cases hentry
  | cons first rest =>
      obtain ⟨hfirst, hreader⟩ := (hwaits first).1 (by rw [hwaiting]; exact List.mem_cons_self)
      rw [hwaiting] at hentry hinorder
      have hle : first.timestamp ≤ entry.timestamp := by
        rcases List.mem_cons.1 hentry with rfl | hentry
        · exact le_rfl
        · exact (List.pairwise_cons.1 hinorder).1 entry hentry
      have hge := HeapEntry.timestamp_le_of_le (hgreatest first hfirst)
      have hsame : first.timestamp = entry.timestamp := le_antisymm hle hge
      -- the first that waits compares equal to the popped entry
      have hfirstGreatest : first.Greatest (H.elems s.heap) := by
        intro x hx
        rw [HeapEntry.le_iff, hsame, hreader, ← HeapEntry.le_iff]
        exact hgreatest x hx
      exact ⟨rest, by rw [huntied first hfirst entry hmem hfirstGreatest hgreatest]⟩

/-- **A turn keeps the queues.** -/
theorem TurnTo.queues (h : TurnTo s s') (hsorted : StreamsSorted streams)
    (hq : MergeView.Queues streams s.view waiting) (huntied : s.Untied) :
    ∃ waiting', MergeView.Queues streams s'.view waiting' := by
  rcases h with hpulls | ⟨entry, heap, t, hpop, hpulls, hview⟩
  · obtain ⟨waiting', hq', -⟩ := hpulls.queues id (fun _ _ => rfl) hq
    exact ⟨waiting', hq'⟩
  · obtain ⟨rest, hfirst⟩ := waiting_eq_cons hsorted hq huntied hpop
    rw [← view_popped hpop] at hq
    obtain ⟨waiting', hq', hprefix⟩ :=
      hpulls.queues (fun v => v.hold entry) (fun v index => MergeView.pull_hold v entry index) hq
    rcases hview with hview | hview
    · exact ⟨waiting', hview ▸ hq'⟩
    · have hstill := hprefix entry.reader
      rw [hfirst] at hstill
      obtain ⟨more, hmore⟩ := hstill
      rw [hview]
      exact ⟨_, hq'.emit hmore.symm⟩

end Turn

/-! ### Whole runs -/

section Run

variable {streams : Fin n → List (Batch T)} {s s' : MergeState H} {fuel : ℕ}
  {emit : List T → T → Except ε Unit} {waiting : Fin n → List (HeapEntry n T)}

/-- Every turn of an untied run begins with the streams in their queues. -/
theorem Turns.queues (hsorted : StreamsSorted streams)
    (huntied : ∀ fuel s, Turns H emit streams fuel s → s.Untied)
    (h : Turns H emit streams fuel s) : ∃ waiting, MergeView.Queues streams s.view waiting := by
  induction h with
  | init =>
      rw [view_init]
      exact ⟨_, MergeView.Queues.init streams⟩
  | turn hs hturn ih =>
      obtain ⟨waiting, hq⟩ := ih
      exact (mergeTurn_turnTo (.inl ⟨true, hturn⟩)).queues hsorted hq (huntied _ _ hs)

/-- An untied run ends with the streams in their queues. -/
theorem mergeLoop_queues (hsorted : StreamsSorted streams)
    (huntied : ∀ fuel s, Turns H emit streams fuel s → s.Untied) (hs : Turns H emit streams fuel s)
    (h : mergeLoop emit fuel s = .ok ((), s') ∨ ∃ e, mergeLoop emit fuel s = .err (e, s')) :
    ∃ waiting, MergeView.Queues streams s'.view waiting := by
  induction fuel generalizing s with
  | zero => simp [mergeLoop] at h
  | succ fuel ih =>
      obtain ⟨waiting, hq⟩ := hs.queues hsorted huntied
      cases hturn : mergeTurn emit fuel s with
      | ok result =>
          obtain ⟨more, t⟩ := result
          cases more with
          | true =>
              refine ih (hs.turn hturn) ?_
              simpa [mergeLoop, hturn] using h
          | false =>
              have hlast : t = s' := by simpa [mergeLoop, hturn] using h
              subst hlast
              exact (mergeTurn_turnTo (.inl ⟨false, hturn⟩)).queues hsorted hq (huntied _ _ hs)
      | err failed =>
          obtain ⟨e, t⟩ := failed
          have hlast : t = s' := by simpa [mergeLoop, hturn] using h
          subst hlast
          exact (mergeTurn_turnTo (.inr ⟨e, hturn⟩)).queues hsorted hq (huntied _ _ hs)
      | panic => simp [mergeLoop, hturn] at h
      | outOfFuel => simp [mergeLoop, hturn] at h

/-- In their queues, the streams keep their order. -/
theorem MergeView.Queues.keepsOrder (h : MergeView.Queues streams s.view waiting) :
    KeepsOrder streams s := by
  intro index timestamp
  have hprefix := ((h.emitted_prefix index).filter
    fun entry => decide (entry.timestamp = timestamp)).map HeapEntry.value
  have hemitted : (s.emitted.filter fun entry => entry.reader = index ∧ entry.timestamp = timestamp) =
      (s.emitted.filter fun entry => entry.reader = index).filter
        fun entry => entry.timestamp = timestamp := by
    rw [List.filter_filter]
    exact List.filter_congr fun entry _ => by rw [Bool.decide_and, Bool.and_comm]
  have hstream : ((entriesOf index (streams index).flatten : List (HeapEntry n T)).filter
      fun entry => entry.timestamp = timestamp).map HeapEntry.value =
        ((streams index).flatten.filter fun packet => packet.1 = timestamp).map Prod.snd := by
    rw [entriesOf, List.filter_map, List.map_map]
    rfl
  rw [hstream] at hprefix
  rw [hemitted]
  exact hprefix

/-! Streams without different packets at one time have no ties. -/

/-- Pulls keep the packets that are accounted for. -/
theorem ledger_of_pulls (h : Pulls s s') : s'.view.ledger = s.view.ledger := by
  induction h with
  | refl => rfl
  | tail _ hstep ih => exact hstep.step.ledger_eq.trans ih

/-- A turn keeps every packet. -/
theorem TurnTo.ledger_eq (h : TurnTo s s') : s'.view.ledger = s.view.ledger := by
  rcases h with hpulls | ⟨entry, heap, t, hpop, hpulls, hview⟩
  · exact ledger_of_pulls hpulls
  · have hheld : (t.view.hold entry).ledger = s.view.ledger := by
      rw [← view_popped hpop]
      have hrun := hpulls.run_hold entry
      exact hrun.invariant (fun v => v.ledger = ((popped s entry heap).view.hold entry).ledger)
        (fun _ _ hv hstep => hstep.ledger_eq.trans hv) rfl
    rcases hview with hview | hview
    · rw [hview, hheld]
    · rw [hview, MergeView.ledger_emit, hheld]

/-- After any turns every packet is accounted for once. -/
theorem Turns.ledger_eq (h : Turns H emit streams fuel s) :
    s.view.ledger = MergeView.allPackets streams := by
  induction h with
  | init => simp [view_init, MergeView.ledger, MergeView.init]
  | turn _ hturn ih => exact (mergeTurn_turnTo (.inl ⟨true, hturn⟩)).ledger_eq.trans ih

/-- Only packets of the streams are in the heap. -/
theorem Turns.mem_stream (h : Turns H emit streams fuel s) {entry : HeapEntry n T}
    (hentry : entry ∈ H.elems s.heap) :
    (entry.timestamp, entry.value) ∈ (streams entry.reader).flatten := by
  have hmem : entry ∈ MergeView.allPackets streams := by
    rw [← h.ledger_eq]
    exact Multiset.mem_add.2 (.inl (Multiset.mem_add.2 (.inr hentry)))
  obtain ⟨index, -, hindex⟩ := Multiset.mem_sum.1 hmem
  obtain ⟨packet, hpacket, rfl⟩ := List.mem_map.1 (Multiset.mem_coe.1 hindex)
  exact hpacket

/-- Where the packets of a stream with one timestamp are one packet, there are no
ties. -/
theorem Turns.untied (h : Turns H emit streams fuel s)
    (hsame : ∀ index, ∀ p ∈ (streams index).flatten, ∀ q ∈ (streams index).flatten,
      p.1 = q.1 → p = q) : s.Untied := by
  intro x hx y hy hxtop hytop
  have hxy := HeapEntry.le_iff.1 (hytop x hx)
  have hyx := HeapEntry.le_iff.1 (hxtop y hy)
  have htime : x.timestamp = y.timestamp :=
    le_antisymm (HeapEntry.timestamp_le_of_le (hxtop y hy))
      (HeapEntry.timestamp_le_of_le (hytop x hx))
  have hreader : x.reader = y.reader := by
    rw [htime] at hxy hyx
    exact le_antisymm (hyx.resolve_left (lt_irrefl _)).2 (hxy.resolve_left (lt_irrefl _)).2
  have hpacket := hsame x.reader _ (h.mem_stream hx) _ (hreader ▸ h.mem_stream hy) htime
  obtain ⟨-, hvalue⟩ := Prod.ext_iff.1 hpacket
  cases x
  cases y
  simp_all

/-- **When the merge keeps the order of each stream.**  From sorted streams, in
every run in which no turn begins with two different packets tied for the greatest
entry of the heap, the packets of one stream with one timestamp are emitted in the
order of the stream: at every turn, and in the end. -/
theorem mergeBatches_keepsOrder (H : BinaryHeap (HeapEntry n T) HeapEntry.le)
    (emit : List T → T → Except ε Unit) (streams : Fin n → List (Batch T))
    (hsorted : StreamsSorted streams)
    (huntied : ∀ fuel s, Turns H emit streams fuel s → s.Untied) :
    (∀ fuel s, Turns H emit streams fuel s → KeepsOrder streams s) ∧
      ∃ s, (mergeBatches H emit streams = .ok ((), s) ∨
        ∃ e, mergeBatches H emit streams = .err (e, s)) ∧ KeepsOrder streams s := by
  constructor
  · intro fuel s hs
    obtain ⟨waiting, hq⟩ := hs.queues hsorted huntied
    exact hq.keepsOrder
  · have hend : ∀ s, (mergeBatches H emit streams = .ok ((), s) ∨
        ∃ e, mergeBatches H emit streams = .err (e, s)) → KeepsOrder streams s := by
      intro s hs
      obtain ⟨waiting, hq⟩ := mergeLoop_queues hsorted huntied .init hs
      exact hq.keepsOrder
    rcases @mergeBatches_refines n T ε H emit streams with ⟨s, hs, -⟩ | ⟨e, s, hs, -⟩
    · exact ⟨s, .inl hs, hend s (.inl hs)⟩
    · exact ⟨s, .inr ⟨e, hs⟩, hend s (.inr ⟨e, hs⟩)⟩

/-- Two streams that tie with each other, but not with themselves. -/
def crossTied : Fin 2 → List (Batch ℕ) :=
  ![[[(I64.ofInt 5, 0)], [(I64.ofInt 7, 1)]], [[(I64.ofInt 5, 2)], [(I64.ofInt 9, 3)]]]

/-- They keep their orders. -/
theorem mergeBatches_keepsOrder_crossTied :
    ∃ s, (mergeBatches (BinaryHeap.sorted HeapEntry.le) (fun _ _ => .ok ()) crossTied =
          (.ok ((), s) : Outcome (Unit × _) _) ∨
        ∃ e, mergeBatches (BinaryHeap.sorted HeapEntry.le) (fun _ _ => .ok ()) crossTied =
          (.err (e, s) : Outcome (Unit × _) _)) ∧
      KeepsOrder crossTied s :=
  (mergeBatches_keepsOrder (BinaryHeap.sorted HeapEntry.le) (fun _ _ => .ok ()) crossTied
    (by unfold StreamsSorted; decide) (fun _ _ h => h.untied (by decide))).2

/-- One stream with two packets at one time. -/
def selfTied : Fin 1 → List (Batch ℕ) := ![[[(I64.ofInt 5, 0), (I64.ofInt 5, 1)]]]

/-- **The merge swaps packets of one stream**: of two that compare equal, a heap
that keeps its documentation takes the later one first. -/
theorem mergeBatches_swaps : StreamsSorted selfTied ∧
    ∃ s, mergeBatches (BinaryHeap.sorted HeapEntry.le) (fun _ _ => (.ok () : Except Unit Unit))
        selfTied = .ok ((), s) ∧ s.emitted.map HeapEntry.value = [1, 0] ∧
      ¬KeepsOrder selfTied s := by
  refine ⟨by unfold StreamsSorted; decide, _, rfl, rfl, fun h => ?_⟩
  exact absurd (h 0 (I64.ofInt 5)) (by decide)

end Run

end Mergecap
end Maja
