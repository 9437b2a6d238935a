/-
# The merge of streams that are called

`merge_batches` once more, now with streams whose `next` is a call that changes a
state common to all of them: what a stream hands out then depends on when it is
pulled.  The loops are those of `Maja.Mergecap.Merge`, with the call in the place of
the list.

When a stream is pulled depends on timestamps only.  So if the batches can be
foretold up to what `erase` takes away, the merge makes the moves of the view of the
foretold streams (`mergeCalls_refines`), and what was proved of these moves holds
here.  The state of the streams goes its own way: what every call keeps holds at the
end.
-/

import Maja.Mergecap.MergeRefines

namespace Maja
namespace Mergecap

open Lib MergeState

variable {n : ℕ} {T σ : Type} {H : BinaryHeap (HeapEntry n T) HeapEntry.le}

/-- The local variables of `merge_batches`, and the state of the streams.  The
streams of the variables are the answers that are not used yet. -/
abbrev CallState (H : BinaryHeap (HeapEntry n T) HeapEntry.le) (σ : Type) : Type := MergeState H × σ

/-- `next` of every stream. -/
abbrev Streams (n : ℕ) (T σ : Type) : Type := Fin n → Prog σ Empty (Option (Batch T))

section Program

variable (next : Streams n T σ)

/-- `pull`. -/
def pullCall (index : Fin n) : Prog (CallState H σ) Empty Unit := fun (s, w) =>
  match next index w with
  | .ok (answer, w) =>
    .ok ((), pull index { s with streams := Function.update s.streams index answer.toList }, w)
  | .err (e, _) => e.elim
  | .panic => .panic
  | .outOfFuel => .outOfFuel

/-- One pass `for index in 0..reader_count`. -/
def pullCallsWhere (due : MergeState H → Fin n → Bool) : Prog (CallState H σ) Empty Bool :=
  (List.finRange n).foldlM (fun pulled index => do
    let (s, _) ← Prog.get
    if due s index then do
      pullCall next index
      pure true
    else pure pulled) false

/-- The inner loop. -/
def readAheadCalls (timestamp : I64) : ℕ → Prog (CallState H σ) Empty Unit
  | 0 => fun _ => .outOfFuel
  | fuel + 1 => do
    if ← pullCallsWhere next (fun s index => s.lowerBound index < timestamp) then
      readAheadCalls timestamp fuel
    else pure ()

/-- One turn of the outer loop, where no `emit` fails. -/
def mergeTurnCalls (fuel : ℕ) : Prog (CallState H σ) Empty Bool := fun (s, w) =>
  match H.pop s.heap with
  | none =>
    pullCallsWhere next (fun s index => s.inFlight index = 0 ∧ s.lowerBound index ≠ I64.MAX) (s, w)
  | some (entry, heap) =>
    if s.inFlight entry.reader = 0 then .panic
    else do
      let s := { s with
        heap := heap
        inFlight := Function.update s.inFlight entry.reader (s.inFlight entry.reader - 1) }
      let ((), s, w) ← readAheadCalls next entry.timestamp fuel (s, w)
      if (H.peek s.heap).any (fun next => next.timestamp < entry.timestamp) then
        pure (true, { s with
          inFlight := Function.update s.inFlight entry.reader (s.inFlight entry.reader + 1)
          heap := H.push entry s.heap }, w)
      else pure (true, { s with emitted := s.emitted ++ [entry] }, w)

/-- The outer loop. -/
def mergeLoopCalls : ℕ → Prog (CallState H σ) Empty Unit
  | 0 => fun _ => .outOfFuel
  | fuel + 1 => do
    if ← mergeTurnCalls next fuel then mergeLoopCalls fuel else pure ()

/-- `merge_batches`. -/
def mergeCalls (H : BinaryHeap (HeapEntry n T) HeapEntry.le) (fuel : ℕ) (w : σ) :
    Outcome (Empty × CallState H σ) (Unit × CallState H σ) :=
  mergeLoopCalls next fuel (MergeState.init H fun _ => [], w)

end Program

/-! ### Foretold streams -/

/-- A batch without what `erase` takes away. -/
def eraseBatch {T₀ : Type} (erase : T → T₀) (batch : Batch T) : Batch T₀ :=
  batch.map fun p => (p.1, erase p.2)

/-- An entry without what `erase` takes away. -/
def HeapEntry.erase {T₀ : Type} (erase : T → T₀) (entry : HeapEntry n T) : HeapEntry n T₀ :=
  ⟨entry.timestamp, entry.reader, erase entry.value⟩

/-- The values of entries. -/
def valuesOf (entries : Multiset (HeapEntry n T)) : Multiset T := entries.map HeapEntry.value

/-- `foretold w retired streams`: from the state on, the streams hand these batches out,
but for what `erase` takes away, in whatever order they are called; a retired stream is
not called any more.  `kept w values` holds of the values that were handed out on the way
to the state. -/
structure Foretells {T₀ : Type} (next : Streams n T σ) (erase : T → T₀)
    (foretold : σ → (Fin n → Prop) → (Fin n → List (Batch T₀)) → Prop)
    (kept : σ → Multiset T → Prop) : Prop where
  call : ∀ index w retired streams, foretold w retired streams → ¬retired index →
    ¬(next index w).Returns ∨ ∃ answer w', next index w = .ok (answer, w') ∧
      (answer.map (eraseBatch erase)).toList = (streams index).take 1 ∧
      ∀ retired' : Fin n → Prop, (∀ j, retired j → retired' j) →
        (streams index = [] → retired' index) →
        foretold w' retired' (Function.update streams index (streams index).tail)
  keep : ∀ index w retired streams values answer w', foretold w retired streams →
    ¬retired index → kept w values → next index w = .ok (answer, w') →
    kept w' ((answer.getD []).map Prod.snd + values)

/-- Every call of a stream that is not retired returns. -/
def CallsReturn {T₀ : Type} (next : Streams n T σ)
    (foretold : σ → (Fin n → Prop) → (Fin n → List (Batch T₀)) → Prop) : Prop :=
  ∀ index w retired streams, foretold w retired streams → ¬retired index → (next index w).Returns

/-- The entries of an erased batch are the erased entries. -/
theorem entriesOf_eraseBatch {T₀ : Type} (erase : T → T₀) (index : Fin n) (batch : Batch T) :
    entriesOf index (eraseBatch erase batch) = (entriesOf index batch).map (HeapEntry.erase erase) := by
  simp [entriesOf, eraseBatch, HeapEntry.erase, Function.comp_def]

/-- The least timestamp of a batch does not depend on what is erased. -/
theorem batchMin_eraseBatch {T₀ : Type} (erase : T → T₀) (batch : Batch T) :
    batchMin (eraseBatch erase batch) = batchMin batch := by
  simp [batchMin, eraseBatch, Function.comp_def]

section Refines

variable {T₀ : Type} {next : Streams n T σ} {erase : T → T₀}
  {foretold : σ → (Fin n → Prop) → (Fin n → List (Batch T₀)) → Prop} {kept : σ → Multiset T → Prop}

/-- What a state shows of the foretold streams. -/
def callView (erase : T → T₀) (s : MergeState H) (streams : Fin n → List (Batch T₀)) :
    MergeView n T₀ :=
  ⟨streams, (H.elems s.heap).map (HeapEntry.erase erase), s.lowerBound,
    s.emitted.map (HeapEntry.erase erase)⟩

/-- The stream of an index is not called any more. -/
def MergeView.Retired (v : MergeView n T₀) (index : Fin n) : Prop := v.lowerBound index = I64.MAX

/-- The state shows the view, while the entries of `held` are out of the heap. -/
structure Shows (erase : T → T₀)
    (foretold : σ → (Fin n → Prop) → (Fin n → List (Batch T₀)) → Prop)
    (kept : σ → Multiset T → Prop) (held : Multiset (HeapEntry n T)) (x : CallState H σ)
    (v : MergeView n T₀) : Prop where
  counted : x.1.Counted
  answers : ∀ index, x.1.streams index = []
  view : v = callView erase x.1 v.streams
  foretold : foretold x.2 v.Retired v.streams
  kept : kept x.2 (valuesOf (H.elems x.1.heap + (held + (x.1.emitted : Multiset (HeapEntry n T)))))

/-- One pull of a view whose stream is not retired. -/
def ViewPull (v v' : MergeView n T₀) : Prop :=
  ∃ index, v.lowerBound index ≠ I64.MAX ∧ v' = v.pull index

/-- A pull is a step of the merge. -/
theorem ViewPull.step {v v' : MergeView n T₀} (h : ViewPull v v') : MergeView.Step v v' := by
  obtain ⟨index, hopen, rfl⟩ := h
  exact .pull v index hopen

/-- A pull is a step while one packet is held back, too. -/
theorem ViewPull.step_hold {v v' : MergeView n T₀} (h : ViewPull v v') (entry : HeapEntry n T₀) :
    MergeView.Step (v.hold entry) (v'.hold entry) := by
  obtain ⟨index, hopen, rfl⟩ := h
  rw [← MergeView.pull_hold]
  exact .pull (v.hold entry) index hopen

/-- A view of an answer is the pull of the foretold batch. -/
theorem callView_pull {s : MergeState H} {streams : Fin n → List (Batch T₀)} {index : Fin n}
    (answer : Option (Batch T))
    (hanswer : (answer.map (eraseBatch erase)).toList = (streams index).take 1) :
    callView erase (pull index { s with streams := Function.update s.streams index answer.toList })
        (Function.update streams index (streams index).tail) =
      (callView erase s streams).pull index := by
  rcases hs : streams index with _ | ⟨batch₀, rest⟩
  · obtain rfl : answer = none := by simpa [hs] using hanswer
    rw [MergeView.pull_of_nil hs]
    have hself : Function.update streams index [] = streams := by
      rw [← hs, Function.update_eq_self]
    simp [callView, pull, hself]
  · obtain ⟨batch, rfl, rfl⟩ : ∃ batch, answer = some batch ∧ eraseBatch erase batch = batch₀ := by
      rcases answer with _ | batch
      · simp [hs] at hanswer
      · exact ⟨batch, rfl, by simpa [hs] using hanswer⟩
    rw [MergeView.pull_of_cons hs]
    rcases batch with _ | ⟨p, batch⟩
    · simp [callView, pull, batchMin, entriesOf, eraseBatch]
    · have hmin := batchMin_eraseBatch erase (p :: batch)
      have hentries := entriesOf_eraseBatch erase index (p :: batch)
      simp [callView, pull, hmin, hentries]

/-- What a pull with an answer leaves of the answers, and in the heap. -/
theorem pull_answer (s : MergeState H) (index : Fin n) (answer : Option (Batch T)) :
    let s' := pull index { s with streams := Function.update s.streams index answer.toList }
    s'.streams = Function.update s.streams index [] ∧ s'.emitted = s.emitted ∧
      H.elems s'.heap = entriesOf index (answer.getD []) + H.elems s.heap := by
  rcases answer with _ | (_ | ⟨p, batch⟩)
  · simp [pull, entriesOf]
  · simp [pull, entriesOf]
  · simp [pull]

/-- **One pull of a stream is one pull of the view.** -/
theorem pullCall_spec (hnext : Foretells next erase foretold kept) {held : Multiset (HeapEntry n T)}
    {x : CallState H σ} {v : MergeView n T₀} (hx : Shows erase foretold kept held x v)
    {index : Fin n} (hopen : v.lowerBound index ≠ I64.MAX) :
    (¬(pullCall next index x).Returns ∧ ¬CallsReturn next foretold) ∨
    ∃ x', pullCall next index x = .ok ((), x') ∧
      Shows erase foretold kept held x' (v.pull index) := by
  obtain ⟨s, w⟩ := x
  rcases hnext.call index w v.Retired v.streams hx.foretold hopen with
    hcall | ⟨answer, w', hcall, hanswer, hrest⟩
  · refine .inl ⟨fun hreturns => hcall ?_, fun hall => hcall (hall _ _ _ _ hx.foretold hopen)⟩
    rw [pullCall] at hreturns
    rcases hrun : next index w with r | ⟨e, _⟩ | _ | _
    · trivial
    · exact e.elim
    · rw [hrun] at hreturns
      exact hreturns
    · rw [hrun] at hreturns
      exact hreturns
  · right
    obtain ⟨hstreams, hemitted, helems⟩ := pull_answer s index answer
    have hpulled : (v.pull index).streams =
        Function.update v.streams index (v.streams index).tail := by
      rcases hs : v.streams index with _ | ⟨batch, rest⟩
      · rw [MergeView.pull_of_nil hs, List.tail_nil, ← hs, Function.update_eq_self]
      · rw [MergeView.pull_of_cons hs, List.tail_cons]
    have hcounted : Counted { s with streams := Function.update s.streams index answer.toList } :=
      hx.counted
    refine ⟨_, by rw [pullCall, hcall], counted_pull hcounted index, ?_, ?_, ?_, ?_⟩
    · intro j
      rw [hstreams]
      by_cases hj : j = index
      · rw [hj, Function.update_self]
      · rw [Function.update_of_ne hj]
        exact hx.answers j
    · rw [hpulled, callView_pull answer hanswer, ← hx.view]
    · rw [hpulled]
      refine hrest _ (fun j hj => ?_) fun hnil => ?_
      · have hne : j ≠ index := fun hji => hopen (hji ▸ hj)
        rcases hs : v.streams index with _ | ⟨batch, rest⟩
        · rw [MergeView.pull_of_nil hs]
          exact (Function.update_of_ne hne ..).trans hj
        · rw [MergeView.pull_of_cons hs]
          exact (Function.update_of_ne hne ..).trans hj
      · rw [MergeView.pull_of_nil hnil]
        exact Function.update_self ..
    · have hkept := hnext.keep index w _ _ _ answer w' hx.foretold hopen hx.kept hcall
      rw [helems, hemitted]
      simpa [valuesOf, entriesOf, add_assoc, Function.comp_def] using hkept

/-- A pass pulls the streams that are due, and does nothing when none is. -/
theorem pullCallsWhere_spec (hnext : Foretells next erase foretold kept)
    (due : MergeState H → Fin n → Bool)
    (hdue : ∀ s index, due s index = true → s.lowerBound index ≠ I64.MAX)
    {held : Multiset (HeapEntry n T)} {x : CallState H σ} {v : MergeView n T₀}
    (hx : Shows erase foretold kept held x v) :
    (¬(pullCallsWhere next due x).Returns ∧ ¬CallsReturn next foretold) ∨
    (pullCallsWhere next due x = .ok (false, x) ∧ ∀ index, due x.1 index = false) ∨
    ∃ x' v', pullCallsWhere next due x = .ok (true, x') ∧ Shows erase foretold kept held x' v' ∧
      Relation.TransGen ViewPull v v' := by
  let pass : Bool → Fin n → Prog (CallState H σ) Empty Bool := fun pulled index => do
    let (s, _) ← Prog.get
    if due s index then do
      pullCall next index
      pure true
    else pure pulled
  have hpass : ∀ pulled index (x : CallState H σ), pass pulled index x =
      if due x.1 index then pullCall next index x >>= fun r => .ok (true, r.2)
      else .ok (pulled, x) := by
    intro pulled index x
    show (if due x.1 index then _ else _ : Prog (CallState H σ) Empty Bool) x = _
    split_ifs <;> rfl
  have hfold : ∀ (l : List (Fin n)) (pulled : Bool) (x : CallState H σ) (v : MergeView n T₀),
      Shows erase foretold kept held x v →
      (¬(l.foldlM pass pulled x).Returns ∧ ¬CallsReturn next foretold) ∨
      (l.foldlM pass pulled x = .ok (pulled, x) ∧ ∀ index ∈ l, due x.1 index = false) ∨
      ∃ x' v', l.foldlM pass pulled x = .ok (true, x') ∧ Shows erase foretold kept held x' v' ∧
        Relation.TransGen ViewPull v v' := by
    intro l
    induction l with
    | nil =>
      intro pulled x v _
      exact .inr (.inl ⟨rfl, by simp⟩)
    | cons index l ih =>
      intro pulled x v hx
      have hcons : (index :: l).foldlM pass pulled x =
          pass pulled index x >>= fun r => l.foldlM pass r.1 r.2 := rfl
      rw [hcons, hpass]
      by_cases hd : due x.1 index = true
      · have hopen : v.lowerBound index ≠ I64.MAX := by
          rw [hx.view]
          exact hdue _ _ hd
        rw [if_pos hd]
        rcases pullCall_spec hnext hx hopen with ⟨hcall, hnot⟩ | ⟨x₁, hcall, hx₁⟩
        · exact .inl ⟨fun h => hcall (Outcome.returns_bind.1 (Outcome.returns_bind.1 h).1).1, hnot⟩
        · rw [hcall, Outcome.ok_bind, Outcome.ok_bind]
          rcases ih true x₁ _ hx₁ with hfails | ⟨heq, -⟩ | ⟨x₂, v₂, heq, hx₂, hpulls⟩
          · exact .inl hfails
          · exact .inr (.inr ⟨x₁, _, heq, hx₁, .single ⟨index, hopen, rfl⟩⟩)
          · exact .inr (.inr ⟨x₂, v₂, heq, hx₂, .head ⟨index, hopen, rfl⟩ hpulls⟩)
      · rw [if_neg hd, Outcome.ok_bind]
        rcases ih pulled x v hx with hfails | ⟨heq, hnone⟩ | hsome
        · exact .inl hfails
        · refine .inr (.inl ⟨heq, fun j hj => ?_⟩)
          rcases List.mem_cons.1 hj with rfl | hj
          · exact Bool.eq_false_iff.2 hd
          · exact hnone j hj
        · exact .inr (.inr hsome)
  rcases hfold (List.finRange n) false x v hx with hfails | ⟨heq, hnone⟩ | hsome
  · exact .inl hfails
  · exact .inr (.inl ⟨heq, fun index => hnone index (List.mem_finRange index)⟩)
  · exact .inr (.inr hsome)

/-- Reading ahead that returns has read every stream up to `timestamp`. -/
theorem readAheadCalls_spec (hnext : Foretells next erase foretold kept) (timestamp : I64)
    {fuel : ℕ} {held : Multiset (HeapEntry n T)} {x : CallState H σ} {v : MergeView n T₀}
    (hx : Shows erase foretold kept held x v) :
    (¬(readAheadCalls next timestamp fuel x).Returns ∧
      (CallsReturn next foretold → fuel ≤ v.work)) ∨
    ∃ x' v', readAheadCalls next timestamp fuel x = .ok ((), x') ∧
      Shows erase foretold kept held x' v' ∧ Relation.ReflTransGen ViewPull v v' ∧
      ∀ index, timestamp ≤ v'.lowerBound index := by
  induction fuel generalizing x v with
  | zero => exact .inl ⟨id, fun _ => Nat.zero_le _⟩
  | succ fuel ih =>
    have hdue : ∀ (s : MergeState H) (index : Fin n),
        decide (s.lowerBound index < timestamp) = true → s.lowerBound index ≠ I64.MAX := by
      intro s index hlt hmax
      rw [decide_eq_true_eq, hmax] at hlt
      exact absurd hlt (not_lt.2 timestamp.property.2)
    rw [readAheadCalls, Prog.bind_apply]
    rcases pullCallsWhere_spec hnext (fun s index => decide (s.lowerBound index < timestamp)) hdue hx
      with ⟨hfails, hnot⟩ | ⟨heq, hnone⟩ | ⟨x₁, v₁, heq, hx₁, hpulls⟩
    · exact .inl ⟨fun h => hfails (Outcome.returns_bind.1 h).1, fun hall => absurd hall hnot⟩
    · refine .inr ⟨x, v, by rw [heq]; rfl, hx, .refl, fun index => ?_⟩
      rw [hx.view]
      exact not_lt.1 (of_decide_eq_false (hnone index))
    · rw [heq]
      have hlt : v₁.work < v.work :=
        MergeView.work_lt_of_steps (hpulls.lift id fun _ _ hstep => hstep.step)
      rcases ih hx₁ with ⟨hfails, hwork⟩ | ⟨x₂, v₂, hread, hx₂, hrest, hbound⟩
      · exact .inl ⟨hfails, fun hall => Nat.succ_le_of_lt ((hwork hall).trans_lt hlt)⟩
      · exact .inr ⟨x₂, v₂, hread, hx₂, hpulls.to_reflTransGen.trans hrest, hbound⟩

/-! ### One turn -/

/-- An entry of the heap is held back, or the other way round. -/
theorem cons_add_zero_add (entry : HeapEntry n T) (heap emitted : Multiset (HeapEntry n T)) :
    entry ::ₘ heap + (0 + emitted) = heap + ({entry} + emitted) := by
  rw [← Multiset.singleton_add]
  abel

/-- Holding an entry back shows the view that has it. -/
theorem callView_popped {s : MergeState H} {entry : HeapEntry n T} {heap : H.Carrier}
    (h : H.pop s.heap = some (entry, heap)) (streams : Fin n → List (Batch T₀)) :
    (callView erase (popped s entry heap) streams).hold (entry.erase erase) =
      callView erase s streams := by
  simp [callView, popped, MergeView.hold, H.elems_pop _ _ _ h]

/-- **What one turn of the outer loop does**: it does not return, or it stops where no move is
left, or it makes at least one move. -/
theorem mergeTurnCalls_spec (hnext : Foretells next erase foretold kept) {fuel : ℕ}
    {x : CallState H σ} {v : MergeView n T₀} (hx : Shows erase foretold kept 0 x v) :
    (¬(mergeTurnCalls next fuel x).Returns ∧ (CallsReturn next foretold → fuel < v.work)) ∨
    (mergeTurnCalls next fuel x = .ok (false, x) ∧ v.Halted) ∨
    ∃ x' v', mergeTurnCalls next fuel x = .ok (true, x') ∧ Shows erase foretold kept 0 x' v' ∧
      Relation.TransGen MergeView.Step v v' := by
  obtain ⟨s, w⟩ := x
  cases hpop : H.pop s.heap with
  | none =>
    have hempty : H.elems s.heap = 0 := (H.pop_eq_none _).1 hpop
    have hturn : mergeTurnCalls next fuel (s, w) = pullCallsWhere next
        (fun s index => s.inFlight index = 0 ∧ s.lowerBound index ≠ I64.MAX) (s, w) := by
      rw [mergeTurnCalls, hpop]
    rw [hturn]
    rcases pullCallsWhere_spec hnext
      (fun (t : MergeState H) index => decide (t.inFlight index = 0 ∧ t.lowerBound index ≠ I64.MAX))
      (fun t index h => (of_decide_eq_true h).2) hx with
      ⟨hfails, hnot⟩ | ⟨heq, hnone⟩ | ⟨x₁, v₁, heq, hx₁, hpulls⟩
    · exact .inl ⟨hfails, fun hall => absurd hall hnot⟩
    · refine .inr (.inl ⟨heq, ?_, fun index => ?_⟩)
      · rw [hx.view]
        simp [callView, hempty]
      · have hcount : s.inFlight index = 0 := by
          rw [hx.counted index, hempty, Multiset.countP_zero]
        rw [hx.view]
        by_contra hopen
        exact of_decide_eq_false (hnone index) ⟨hcount, hopen⟩
    · exact .inr (.inr ⟨x₁, v₁, heq, hx₁, hpulls.lift id fun _ _ hstep => hstep.step⟩)
  | some top =>
    obtain ⟨entry, heap⟩ := top
    obtain ⟨hne, hcounted⟩ := counted_popped hx.counted hpop
    have hheld : (callView erase (popped s entry heap) v.streams).hold (entry.erase erase) =
        callView erase s v.streams := callView_popped hpop v.streams
    rw [← hx.view] at hheld
    have hpopped : Shows erase foretold kept {entry} (popped s entry heap, w)
        (callView erase (popped s entry heap) v.streams) := by
      have hretired : v.Retired = (callView erase (popped s entry heap) v.streams).Retired :=
        (congrArg MergeView.Retired hx.view).trans rfl
      refine ⟨hcounted, hx.answers, rfl, hretired ▸ hx.foretold, ?_⟩
      have hkept := hx.kept
      rw [H.elems_pop _ _ _ hpop, cons_add_zero_add] at hkept
      exact hkept
    have hturn : mergeTurnCalls next fuel (s, w) =
        readAheadCalls next entry.timestamp fuel (popped s entry heap, w) >>= fun r =>
          if (H.peek r.2.1.heap).any (fun next => next.timestamp < entry.timestamp) then
            .ok (true, { r.2.1 with
              inFlight := Function.update r.2.1.inFlight entry.reader
                (r.2.1.inFlight entry.reader + 1)
              heap := H.push entry r.2.1.heap }, r.2.2)
          else .ok (true, { r.2.1 with emitted := r.2.1.emitted ++ [entry] }, r.2.2) := by
      simp only [mergeTurnCalls, hpop, if_neg hne]
      rfl
    rw [hturn]
    rcases readAheadCalls_spec hnext entry.timestamp hpopped with
      ⟨hfails, hwork⟩ | ⟨⟨t, w'⟩, v', hread, hx', hpulls, hbound⟩
    · refine .inl ⟨fun h => hfails (Outcome.returns_bind.1 h).1, fun hall => ?_⟩
      rw [← hheld, MergeView.work_hold]
      exact Nat.lt_succ_of_le (hwork hall)
    rw [hread, Outcome.ok_bind]
    have hrun : MergeView.Run v (v'.hold (entry.erase erase)) := by
      rw [← hheld]
      exact hpulls.lift (fun u : MergeView n T₀ => u.hold (entry.erase erase))
        fun _ _ hstep => hstep.step_hold _
    have hview' := hx'.view
    by_cases hearlier :
        (H.peek t.heap).any (fun next => next.timestamp < entry.timestamp) = true
    · rw [if_pos hearlier]
      refine .inr (.inr ⟨_, v'.hold (entry.erase erase), rfl, ?_, ?_⟩)
      · refine ⟨counted_putBack hx'.counted entry, hx'.answers, ?_, hx'.foretold, ?_⟩
        · rw [hview']
          simp [callView, MergeView.hold, H.elems_push]
        · have hkept := hx'.kept
          rw [H.elems_push, cons_add_zero_add]
          exact hkept
      · -- an earlier packet on the heap was not there when the entry was popped
        rcases Relation.reflTransGen_iff_eq_or_transGen.1 hpulls with heq | htrans
        · exfalso
          obtain ⟨next, hpeek, hlt⟩ := Option.any_eq_true _ _ |>.1 hearlier
          have hmem : next.erase erase ∈ v'.pending := by
            rw [hview']
            exact Multiset.mem_map_of_mem _ (H.le_of_peek hpeek).1
          rw [heq] at hmem
          obtain ⟨y, hy, hyeq⟩ := Multiset.mem_map.1 hmem
          have htime : (y.erase erase).timestamp = (next.erase erase).timestamp := by rw [hyeq]
          have htime : y.timestamp = next.timestamp := htime
          have hle := HeapEntry.timestamp_le_of_le (H.le_of_pop _ _ _ hpop y hy)
          rw [htime] at hle
          exact absurd (of_decide_eq_true hlt) (not_lt.2 hle)
        · rw [← hheld]
          exact htrans.lift (fun u : MergeView n T₀ => u.hold (entry.erase erase))
            fun _ _ hstep => hstep.step_hold _
    · rw [if_neg hearlier]
      have hpending : ∀ x ∈ v'.pending, (entry.erase erase).timestamp ≤ x.timestamp := by
        intro x hx
        rw [hview'] at hx
        obtain ⟨y, hy, rfl⟩ := Multiset.mem_map.1 hx
        show entry.timestamp ≤ y.timestamp
        cases hpeek : H.peek t.heap with
        | none => rw [H.peek_eq_none.1 hpeek] at hy; simp at hy
        | some next =>
          have hnext : entry.timestamp ≤ next.timestamp := by simpa [hpeek] using hearlier
          rcases (H.le_of_peek hpeek).2 y hy with rfl | hle
          · exact hnext
          · exact hnext.trans (HeapEntry.timestamp_le_of_le hle)
      refine .inr (.inr ⟨_, v'.emit (entry.erase erase), rfl, ?_,
        Relation.TransGen.tail' hrun (.emit v' (entry.erase erase) hbound hpending)⟩)
      refine ⟨hx'.counted, hx'.answers, ?_, hx'.foretold, ?_⟩
      · rw [hview']
        simp [callView, MergeView.emit]
      · have hkept := hx'.kept
        have hsame : (0 : Multiset (HeapEntry n T)) + ((t.emitted ++ [entry] : List _) : Multiset _) =
            {entry} + (t.emitted : Multiset _) := by
          rw [← Multiset.coe_add, Multiset.coe_singleton]
          abel
        show kept w' (valuesOf (H.elems t.heap + (0 + _)))
        rw [hsame]
        exact hkept

/-! ### The loop -/

/-- **The loop refines the view of the foretold streams**: it does not return, or it ends
where no move is left.  It returns if the calls do and the fuel is more than the work. -/
theorem mergeLoopCalls_refines (hnext : Foretells next erase foretold kept) (fuel : ℕ)
    {x : CallState H σ} {v : MergeView n T₀} (hx : Shows erase foretold kept 0 x v) :
    (¬(mergeLoopCalls next fuel x).Returns ∧ (CallsReturn next foretold → fuel ≤ v.work)) ∨
    ∃ x' v', mergeLoopCalls next fuel x = .ok ((), x') ∧ Shows erase foretold kept 0 x' v' ∧
      MergeView.Run v v' ∧ v'.Halted := by
  induction fuel generalizing x v with
  | zero => exact .inl ⟨id, fun _ => Nat.zero_le _⟩
  | succ fuel ih =>
    rw [mergeLoopCalls, Prog.bind_apply]
    rcases mergeTurnCalls_spec hnext hx with
      ⟨hfails, hwork⟩ | ⟨hturn, hhalt⟩ | ⟨x₁, v₁, hturn, hx₁, hrun⟩
    · exact .inl ⟨fun h => hfails (Outcome.returns_bind.1 h).1, hwork⟩
    · exact .inr ⟨x, v, by rw [hturn]; rfl, hx, .refl, hhalt⟩
    · rw [hturn]
      rcases ih hx₁ with ⟨hfails, hwork⟩ | ⟨x₂, v₂, hloop, hx₂, hrest, hhalt⟩
      · exact .inl ⟨hfails, fun hall =>
          Nat.succ_le_of_lt ((hwork hall).trans_lt (MergeView.work_lt_of_steps hrun))⟩
      · exact .inr ⟨x₂, v₂, hloop, hx₂, hrun.to_reflTransGen.trans hrest, hhalt⟩

/-- **The merge of called streams**: if the batches are foretold, `merge_batches`
does not return from a call, or it ends as the merge of the foretold streams does, and what the
calls keep holds of what it has emitted.  It ends if the calls return and the fuel covers the
budget. -/
theorem mergeCalls_refines (H : BinaryHeap (HeapEntry n T) HeapEntry.le)
    (hnext : Foretells next erase foretold kept) {w : σ} {streams : Fin n → List (Batch T₀)}
    (hforetold : foretold w (fun _ => False) streams) (hkept : kept w 0) (fuel : ℕ) :
    (¬(mergeCalls next H fuel w).Returns ∧
      (CallsReturn next foretold → fuel < budget streams)) ∨
    ∃ s w' v, mergeCalls next H fuel w = .ok ((), s, w') ∧
      MergeView.Run (MergeView.init streams) v ∧ v.Halted ∧
      v.emitted = s.emitted.map (HeapEntry.erase erase) ∧ foretold w' v.Retired v.streams ∧
      kept w' (s.emitted.map HeapEntry.value : Multiset T) := by
  have hinit : Shows erase foretold kept 0 (MergeState.init H fun _ => [], w)
      (MergeView.init streams) := by
    have hopen : (MergeView.init streams).Retired = fun _ => False :=
      funext fun _ => eq_false (show ¬I64.MIN = I64.MAX by decide)
    refine ⟨counted_init _, fun _ => rfl, ?_, hopen.symm ▸ hforetold, ?_⟩
    · simp [callView, MergeState.init, MergeView.init, H.elems_empty]
    · simpa [MergeState.init, valuesOf, H.elems_empty] using hkept
  rcases mergeLoopCalls_refines hnext fuel hinit with
    ⟨hfails, hwork⟩ | ⟨⟨s, w'⟩, v, hloop, hx, hrun, hhalt⟩
  · exact .inl ⟨hfails, fun hall => (hwork hall).trans_lt (work_init_lt streams)⟩
  · refine .inr ⟨s, w', v, hloop, hrun, hhalt, ?_, hx.foretold, ?_⟩
    · exact congrArg MergeView.emitted hx.view
    · have hpending : (H.elems s.heap).map (HeapEntry.erase erase) = 0 :=
        (congrArg MergeView.pending hx.view).symm.trans hhalt.pending
      have hkept := hx.kept
      rw [Multiset.map_eq_zero.1 hpending, zero_add, zero_add] at hkept
      simpa [valuesOf] using hkept

end Refines

end Mergecap
end Maja
