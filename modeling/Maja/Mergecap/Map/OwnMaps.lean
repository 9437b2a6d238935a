/-
# A merge of files that share nothing

What a file hands out is its own affair when it shares no allocation: its batches are
rewritten one after the other, whatever is read of the other files in between
(`rewriteBatches`).  So the whole merge is foretold, and if it returns, it has written
the packets of all files, in the order of their timestamps (`mergeCalls_own`).
-/

import Maja.Mergecap.Map.Replayed
import Maja.Mergecap.Map.SharedMerge

namespace Maja
namespace Mergecap

open Lib Capture

variable {ρ : Type} [StdRng ρ]

/-! ### The batches of one file -/

/-- What the rewriter of a file makes of its batches, up to one on which it does not
return. -/
def rewriteBatches (checks : Bool) : MapRewriter ρ → List (List PacketRecord) → List (List Written)
  | _, [] => []
  | rewriter, items :: batches =>
    match rewriteBatch checks items rewriter with
    | .ok (written, rewriter) => written :: rewriteBatches checks rewriter batches
    | .err _ => []
    | .panic => []
    | .outOfFuel => []

/-- A batch as the merge is given it. -/
def stampedWritten (written : List Written) : Batch Written :=
  written.map fun made => (made.packet.timestamp, made)

/-- Rewriting keeps the timestamps of a batch. -/
theorem rewriteBatch_stamps {checks : Bool} {items : List PacketRecord} {written : List Written}
    {rewriter rewriter' : MapRewriter ρ}
    (h : rewriteBatch checks items rewriter = .ok (written, rewriter')) :
    (stampedWritten written).map Prod.fst = (stamped items).map Prod.fst := by
  have htags := congrArg (List.map Prod.fst) (rewriteBatch_tags h)
  have hitems : (tagged items).map Prod.fst = (stamped items).map Prod.fst := by
    have hzip : items.zipIdx.map Prod.fst = items := List.zipIdx_map_fst ..
    calc (tagged items).map Prod.fst
        = (items.zipIdx.map Prod.fst).map PacketRecord.timestamp := by
          rw [tagged, List.map_map, List.map_map]
          rfl
      _ = (stamped items).map Prod.fst := by
          rw [hzip, stamped, List.map_map]
          rfl
  rw [← hitems, ← htags, stampedWritten, List.map_map, List.map_map]
  rfl

/-- What is made of the batches has their timestamps, as far as it goes. -/
theorem rewriteBatches_stamps (checks : Bool) (rewriter : MapRewriter ρ)
    (batches : List (List PacketRecord)) :
    ((rewriteBatches checks rewriter batches).map stampedWritten).map (List.map Prod.fst) <+:
      (batches.map stamped).map (List.map Prod.fst) := by
  induction batches generalizing rewriter with
  | nil => exact List.prefix_rfl
  | cons items batches ih =>
    rw [rewriteBatches]
    rcases hbatch : rewriteBatch checks items rewriter with ⟨written, rewriter'⟩ | e | _ | _
    · simp only [List.map_cons]
      rw [rewriteBatch_stamps hbatch]
      exact (List.prefix_cons_inj _).2 (ih rewriter')
    all_goals exact List.nil_prefix

/-- What is made of an item differs from it in the data. -/
theorem exists_of_mem_rewriteItems {checks : Bool} {origin : PacketRecord}
    {items : List (PacketRecord × ℕ)} {written : List Written} {rewriter rewriter' : MapRewriter ρ}
    (h : rewriteItems checks origin items rewriter = .ok (written, rewriter')) {made : Written}
    (hmade : made ∈ written) : ∃ x ∈ items, ∃ data, made.packet = { x.1 with data } := by
  induction items generalizing rewriter written with
  | nil =>
    obtain ⟨rfl, -⟩ := Prod.mk.inj (Outcome.ok.inj h)
    cases hmade
  | cons x items ih =>
    obtain ⟨item, group⟩ := x
    obtain ⟨⟨packet, rewriter₁⟩, hitem, h⟩ := Outcome.bind_eq_ok.1 h
    obtain ⟨⟨rest, rewriter₂⟩, hrest, h⟩ := Outcome.bind_eq_ok.1 h
    obtain ⟨rfl, rfl⟩ := Prod.mk.inj (Outcome.ok.inj h)
    obtain rfl | hmade := List.mem_cons.1 hmade
    · refine ⟨_, List.mem_cons_self, ?_⟩
      unfold rewriteItem at hitem
      split_ifs at hitem
      · obtain ⟨parsed, -, hitem⟩ := Outcome.bind_eq_ok.1 hitem
        obtain ⟨r, -, hitem⟩ := Outcome.bind_eq_ok.1 hitem
        obtain ⟨rfl, -⟩ := Prod.mk.inj (Outcome.ok.inj hitem)
        exact ⟨_, rfl⟩
      · obtain ⟨rfl, -⟩ := Prod.mk.inj (Outcome.ok.inj hitem)
        exact ⟨_, rfl⟩
    · obtain ⟨x, hx, hdata⟩ := ih hrest hmade
      exact ⟨x, List.mem_cons_of_mem _ hx, hdata⟩

/-- What is made of batches differs from their packets in the data. -/
theorem exists_of_mem_rewriteBatches {checks : Bool} {rewriter : MapRewriter ρ}
    {batches : List (List PacketRecord)} {made : Written}
    (h : made ∈ (rewriteBatches checks rewriter batches).flatten) :
    ∃ items ∈ batches, ∃ p ∈ items, ∃ data, made.packet = { p with data } := by
  induction batches generalizing rewriter with
  | nil => cases h
  | cons items batches ih =>
    rw [rewriteBatches] at h
    rcases hbatch : rewriteBatch checks items rewriter with ⟨written, rewriter'⟩ | e | _ | _
    · rw [hbatch] at h
      obtain h | h := List.mem_append.1 h
      · cases items with
        | nil =>
          obtain ⟨rfl, -⟩ := Prod.mk.inj (Outcome.ok.inj hbatch)
          cases h
        | cons origin items =>
          obtain ⟨x, hx, hdata⟩ := exists_of_mem_rewriteItems hbatch h
          exact ⟨_, List.mem_cons_self, x.1, List.fst_mem_of_mem_zipIdx hx, hdata⟩
      · obtain ⟨items', hitems', hrest⟩ := ih h
        exact ⟨items', List.mem_cons_of_mem _ hitems', hrest⟩
    all_goals
      rw [hbatch] at h
      cases h

/-- A batch starts at the least of its timestamps. -/
theorem batchMin_congr {T T' : Type} {batch : Batch T} {batch' : Batch T'}
    (h : batch.map Prod.fst = batch'.map Prod.fst) : batchMin batch = batchMin batch' := by
  rw [batchMin, batchMin, h]

/-- What holds of where batches start holds of what is made of them. -/
theorem rewriteBatches_pairwise {checks : Bool} {rewriter : MapRewriter ρ}
    {batches : List (List PacketRecord)} (h : BatchesInOrder batches) :
    ((rewriteBatches checks rewriter batches).map stampedWritten).Pairwise
      fun a b => batchMin a ≤ batchMin b := by
  have hstamps := rewriteBatches_stamps checks rewriter batches
  have hmin : ∀ {T : Type} (bs : List (Batch T)), bs.map batchMin =
      (bs.map (List.map Prod.fst)).map fun stamps => (stamps.min?).getD I64.MAX := fun bs => by
    rw [List.map_map]
    rfl
  have hsub := (hstamps.map fun stamps => (stamps.min?).getD I64.MAX).sublist
  rw [← hmin, ← hmin] at hsub
  exact List.pairwise_map.1 ((List.pairwise_map.2 h).sublist hsub)

/-- No more batches are made than packets. -/
theorem length_rewriteBatches_le (checks : Bool) (rewriter : MapRewriter ρ)
    {batches : List (List PacketRecord)} (hne : ∀ items ∈ batches, items ≠ []) :
    (rewriteBatches checks rewriter batches).length ≤
      (rewriteBatches checks rewriter batches).flatten.length := by
  rw [List.length_flatten, ← Nat.one_mul (rewriteBatches checks rewriter batches).length,
    ← List.length_map (f := List.length), Nat.one_mul]
  refine List.length_le_sum_of_one_le _ fun k hk => ?_
  obtain ⟨written, hwritten, rfl⟩ := List.mem_map.1 hk
  have hmem := List.mem_map_of_mem (f := List.map Prod.fst)
    (List.mem_map_of_mem (f := stampedWritten) hwritten)
  obtain ⟨batch, hbatch, hstamps⟩ :=
    List.mem_map.1 ((rewriteBatches_stamps checks rewriter batches).subset hmem)
  obtain ⟨items, hitems, rfl⟩ := List.mem_map.1 hbatch
  have hlength := congrArg List.length hstamps
  simp only [stamped, stampedWritten, List.length_map] at hlength
  rw [← hlength]
  exact List.length_pos_of_ne_nil (hne items hitems)

/-- What is made of packets before the end of time does not look like the end of a
file. -/
theorem unreadOf_rewritten {checks : Bool} {rewriter : MapRewriter ρ}
    {batches : List (List PacketRecord)}
    (hfits : ∀ items ∈ batches, ∃ p ∈ items, p.timestamp < I64.MAX) :
    MergeView.unreadOf ((rewriteBatches checks rewriter batches).map stampedWritten) = [] := by
  refine MergeView.unreadOf_eq_nil.2 fun batch hbatch hmax => ?_
  have hmem := List.mem_map_of_mem (f := List.map Prod.fst) (List.mem_of_mem_dropLast hbatch)
  obtain ⟨batch', hbatch', hstamps⟩ :=
    List.mem_map.1 ((rewriteBatches_stamps checks rewriter batches).subset hmem)
  obtain ⟨items, hitems, rfl⟩ := List.mem_map.1 hbatch'
  obtain ⟨p, hp, hlt⟩ := hfits items hitems
  have hle : batchMin (stamped items) ≤ p.timestamp :=
    batchMin_le (p := (p.timestamp, p)) (List.mem_map.2 ⟨p, hp, rfl⟩)
  rw [batchMin_congr hstamps, hmax] at hle
  exact absurd hlt (not_lt.2 hle)

/-- The rewriter returns on every batch. -/
def RewritesAll (checks : Bool) (rewriter : MapRewriter ρ) (batches : List (List PacketRecord)) :
    Prop :=
  (rewriteBatches checks rewriter batches).length = batches.length

/-- Rewriting batches is rewriting the first and then the others. -/
theorem rewritesAll_cons {checks : Bool} {rewriter : MapRewriter ρ} {items : List PacketRecord}
    {batches : List (List PacketRecord)} (h : RewritesAll checks rewriter (items :: batches)) :
    ∃ written rewriter', rewriteBatch checks items rewriter = .ok (written, rewriter') ∧
      RewritesAll checks rewriter' batches := by
  rw [RewritesAll, rewriteBatches] at h
  rcases hbatch : rewriteBatch checks items rewriter with ⟨written, rewriter'⟩ | e | _ | _
  · rw [hbatch] at h
    exact ⟨written, rewriter', rfl, Nat.succ.inj h⟩
  all_goals
    rw [hbatch] at h
    cases h

/-- Nothing is lost from lists by maps of their members. -/
theorem length_flatten_map {α β : Type} (f : α → β) (as : List (List α)) :
    (as.map (List.map f)).flatten.length = as.flatten.length := by
  rw [← List.map_flatten, List.length_map]

/-- The packets that are made of batches, counted: no more than there are, and if as many,
the rewriter has returned on every batch. -/
theorem length_rewriteBatches (checks : Bool) (rewriter : MapRewriter ρ)
    (batches : List (List PacketRecord)) :
    (rewriteBatches checks rewriter batches).flatten.length ≤ batches.flatten.length ∧
      ((∀ items ∈ batches, items ≠ []) →
        (rewriteBatches checks rewriter batches).flatten.length = batches.flatten.length →
        RewritesAll checks rewriter batches) := by
  obtain ⟨rest, hrest⟩ := rewriteBatches_stamps checks rewriter batches
  have hsum := congrArg (fun l : List (List I64) => l.flatten.length) hrest
  simp only [List.flatten_append, List.length_append, length_flatten_map] at hsum
  have hmade : ((rewriteBatches checks rewriter batches).map stampedWritten).flatten.length =
      (rewriteBatches checks rewriter batches).flatten.length := length_flatten_map _ _
  have hitems : (batches.map stamped).flatten.length = batches.flatten.length :=
    length_flatten_map _ _
  rw [hmade, hitems] at hsum
  refine ⟨by omega, fun hne hlength => ?_⟩
  have hnil : rest = [] := by
    rw [List.eq_nil_iff_forall_not_mem]
    intro stamps hstamps
    have hempty : stamps = [] := List.length_eq_zero_iff.1 (by
      have := (List.sublist_flatten_of_mem hstamps).length_le
      omega)
    have hmem : stamps ∈ (batches.map stamped).map (List.map Prod.fst) :=
      hrest ▸ List.mem_append_right _ hstamps
    obtain ⟨batch, hbatch, rfl⟩ := List.mem_map.1 hmem
    obtain ⟨items, hitems, rfl⟩ := List.mem_map.1 hbatch
    exact hne items hitems (by simpa [stamped] using hempty)
  have hcount := congrArg List.length hrest
  simpa [hnil, RewritesAll] using hcount

/-! ### The merge -/

variable {n : ℕ}

omit [StdRng ρ] in
/-- A file that shares nothing works on its own allocation. -/
theorem OpenFile.borrowed_own {file : OpenFile ρ} (hshared : file.shared = none)
    (runtime : MapRuntime ρ) : file.borrowed runtime = file.rewriter := by
  rw [OpenFile.borrowed, hshared]
  rfl

/-- What a file that shares nothing will hand out, and if `returns`, that its rewriter
returns on all of it. -/
def FileMakes (checks : Bool) (returns : Prop) (file : OpenFile ρ) (stream : List (Batch Written)) :
    Prop :=
  file.shared = none ∧ ∃ batches, Items PacketReader.next file.reader batches ∧
    (returns → RewritesAll checks file.rewriter batches) ∧
    stream = (rewriteBatches checks file.rewriter batches).map stampedWritten

/-- **The files that share nothing are foretold**, and they leave the runtime alone. -/
theorem foretells_own (checks : Bool) (returns : Prop) (runtime : MapRuntime ρ) :
    Foretells (n := n) (MergeFiles.next checks) id (ForetoldBy (FileMakes checks returns))
      fun w _ => w.runtime = runtime where
  call index w retired streams hforetold hopen := by
    obtain ⟨file, hfile, hshared, batches, hitems, hall, hstreams⟩ := hforetold index hopen
    have hlt := (List.getElem?_eq_some_iff.1 hfile).1
    rcases next_foretold checks hfile hitems with
      ⟨hfails, -⟩ | ⟨rfl, reader, hnext⟩ |
        ⟨items, rest, reader, written, rewriter, rfl, hrest, hrewrite, hnext⟩
    · exact .inl hfails
    · refine .inr ⟨none, _, hnext, by simp [hstreams, rewriteBatches], fun retired' hsub hnil => ?_⟩
      exact hforetold.update hsub hlt rfl fun hr => absurd (hnil hstreams) hr
    · rw [OpenFile.borrowed_own hshared] at hrewrite
      rw [rewriteBatches, hrewrite] at hstreams
      refine .inr ⟨_, _, hnext, ?_, fun retired' hsub _ => hforetold.update hsub hlt rfl fun _ => ?_⟩
      · simp [hstreams, eraseBatch, stampedWritten]
      · refine ⟨hshared, rest, hrest, fun hreturns => ?_, by rw [hstreams]; rfl⟩
        obtain ⟨written', rewriter', hrewrite', hall'⟩ := rewritesAll_cons (hall hreturns)
        obtain ⟨-, rfl⟩ := Prod.mk.inj (Outcome.ok.inj (hrewrite.symm.trans hrewrite'))
        exact hall'
  keep index w retired streams values answer w' hforetold hopen hkept hcall := by
    obtain ⟨file, hfile, hshared, batches, hitems, -⟩ := hforetold index hopen
    rcases next_foretold checks hfile hitems with
      ⟨hfails, -⟩ | ⟨rfl, reader, hnext⟩ |
        ⟨items, rest, reader, written, rewriter, rfl, hrest, hrewrite, hnext⟩
    · rw [hcall] at hfails
      exact absurd trivial hfails
    · obtain ⟨-, rfl⟩ := Prod.mk.inj (Outcome.ok.inj (hcall.symm.trans hnext))
      exact hkept
    · obtain ⟨-, rfl⟩ := Prod.mk.inj (Outcome.ok.inj (hcall.symm.trans hnext))
      show file.giveBack rewriter w.runtime = runtime
      rw [OpenFile.giveBack, hshared]
      exact hkept

/-- The calls return if the rewriters do. -/
theorem callsReturn_own (checks : Bool) :
    CallsReturn (n := n) (MergeFiles.next checks (ρ := ρ)) (ForetoldBy (FileMakes checks True)) := by
  intro index w retired streams hforetold hopen
  obtain ⟨file, hfile, hshared, batches, hitems, hall, -⟩ := hforetold index hopen
  rcases next_foretold checks hfile hitems with
    ⟨-, items, rest, rfl, hfails⟩ | ⟨-, reader, hnext⟩ |
      ⟨items, rest, reader, written, rewriter, -, -, -, hnext⟩
  · obtain ⟨written, rewriter, hrewrite, -⟩ := rewritesAll_cons (hall trivial)
    rw [OpenFile.borrowed_own hshared, hrewrite] at hfails
    exact absurd trivial hfails
  all_goals
    rw [hnext]
    trivial

/-- **A merge of files whose rewriters return ends**, with fuel for what is made. -/
theorem mergeCalls_own_returns {checks : Bool} {w : MergeFiles ρ}
    {H : BinaryHeap (HeapEntry w.files.length Written) HeapEntry.le} {fuel : ℕ}
    {batches : Fin w.files.length → List (List PacketRecord)}
    (hshared : ∀ index : Fin w.files.length, w.files[index].shared = none)
    (hitems : ∀ index, Items PacketReader.next w.files[index].reader (batches index))
    (hne : ∀ index, ∀ items ∈ batches index, items ≠ [])
    (hall : ∀ index, RewritesAll checks w.files[index].rewriter (batches index))
    (hfuel : ∑ index, (2 * (rewriteBatches checks w.files[index].rewriter
      (batches index)).flatten.length + 1) < fuel) :
    ∃ s w', mergeCalls (MergeFiles.next checks) H fuel w = .ok ((), s, w') ∧
      w'.runtime = w.runtime := by
  let streams := fun index : Fin w.files.length =>
    (rewriteBatches checks w.files[index].rewriter (batches index)).map stampedWritten
  have hforetold : ForetoldBy (FileMakes checks True) w (fun _ => False) streams := fun index _ =>
    ⟨_, List.getElem?_eq_getElem index.isLt, hshared index, batches index, hitems index,
      fun _ => hall index, rfl⟩
  rcases mergeCalls_refines H (foretells_own checks True w.runtime) hforetold rfl fuel with
    ⟨-, hlow⟩ | ⟨s, w', v, hok, -, -, -, -, hkept⟩
  · have hbudget : budget streams ≤ ∑ index, (2 * (rewriteBatches checks w.files[index].rewriter
        (batches index)).flatten.length + 1) + 1 := by
      refine Nat.succ_le_succ (Finset.sum_le_sum fun index _ => ?_)
      have hlength := length_rewriteBatches_le checks w.files[index].rewriter (hne index)
      have hmade : (streams index).flatten.length = (rewriteBatches checks
        w.files[index].rewriter (batches index)).flatten.length := length_flatten_map _ _
      rw [List.length_map, hmade]
      omega
    exact absurd (hlow (callsReturn_own checks)) (by omega)
  · exact ⟨s, w', hok, hkept⟩

/-- When a reader hands something out, of all its batches. -/
def FileHandsOut (file : OpenFile ρ) (stream : List (Batch Unit)) : Prop :=
  ∃ batches, Items PacketReader.next file.reader batches ∧
    stream = batches.map fun items => items.map fun p => (p.timestamp, ())

/-- **When the readers hand something out is foretold**, whatever the rewriters do. -/
theorem foretells_stamps (checks : Bool) :
    Foretells (n := n) (MergeFiles.next checks (ρ := ρ)) (fun _ => ()) (ForetoldBy FileHandsOut)
      fun _ _ => True where
  call index w retired streams hforetold hopen := by
    obtain ⟨file, hfile, batches, hitems, hstreams⟩ := hforetold index hopen
    have hlt := (List.getElem?_eq_some_iff.1 hfile).1
    rcases next_foretold checks hfile hitems with
      ⟨hfails, -⟩ | ⟨rfl, reader, hnext⟩ |
        ⟨items, rest, reader, written, rewriter, rfl, hrest, hrewrite, hnext⟩
    · exact .inl hfails
    · refine .inr ⟨none, _, hnext, by simp [hstreams], fun retired' hsub hnil => ?_⟩
      exact hforetold.update hsub hlt rfl fun hr => absurd (hnil hstreams) hr
    · refine .inr ⟨_, _, hnext, ?_, fun retired' hsub _ => hforetold.update hsub hlt rfl fun _ =>
        ⟨rest, hrest, by rw [hstreams]; rfl⟩⟩
      have hstamps := congrArg (List.map fun t => (t, ())) (rewriteBatch_stamps hrewrite)
      simp only [stamped, stampedWritten, List.map_map] at hstamps
      simpa [hstreams, eraseBatch, Function.comp_def] using hstamps
  keep := fun _ _ _ _ _ _ _ _ _ _ _ => trivial

/-- The number of packets of the streams. -/
theorem card_allPackets {T : Type} (streams : Fin n → List (Batch T)) :
    (MergeView.allPackets streams).card = ∑ index, (streams index).flatten.length := by
  calc (MergeView.allPackets streams).card
      = ∑ index, (MergeView.packetsOf index (streams index)).card :=
        map_sum Multiset.cardHom _ _
    _ = ∑ index, (streams index).flatten.length :=
        Finset.sum_congr rfl fun index _ => by
          rw [MergeView.packetsOf, Multiset.coe_card, entriesOf, List.length_map]

/-- **A merge that returns has rewritten every batch**: it has emitted a packet for every
packet that the readers hand out. -/
theorem rewritesAll_of_mergeCalls {checks : Bool} {w w' : MergeFiles ρ}
    {H : BinaryHeap (HeapEntry w.files.length Written) HeapEntry.le} {s : MergeState H} {fuel : ℕ}
    {batches : Fin w.files.length → List (List PacketRecord)}
    (hitems : ∀ index, Items PacketReader.next w.files[index].reader (batches index))
    (hfits : ∀ index, ∀ items ∈ batches index, ∃ p ∈ items, p.timestamp < I64.MAX)
    (h : mergeCalls (MergeFiles.next checks) H fuel w = .ok ((), s, w'))
    (hwritten : s.emitted.length = ∑ index,
      (rewriteBatches checks w.files[index].rewriter (batches index)).flatten.length) :
    ∀ index, RewritesAll checks w.files[index].rewriter (batches index) := by
  let streams := fun index : Fin w.files.length =>
    (batches index).map fun items => items.map fun p => (p.timestamp, ())
  have hforetold : ForetoldBy FileHandsOut w (fun _ => False) streams := fun index _ =>
    ⟨_, List.getElem?_eq_getElem index.isLt, batches index, hitems index, rfl⟩
  rcases mergeCalls_refines H (foretells_stamps checks) hforetold trivial fuel with
    ⟨hfails, -⟩ | ⟨s', w'', v, hok, hrun, hhalted, hemitted, -, -⟩
  · rw [h] at hfails
    exact absurd trivial hfails
  obtain ⟨rfl, rfl⟩ := Prod.mk.inj (Prod.mk.inj (Outcome.ok.inj (h.symm.trans hok))).2
  have hunread : ∀ index, MergeView.unreadOf (streams index) = [] := by
    intro index
    refine MergeView.unreadOf_eq_nil.2 fun batch hbatch hmax => ?_
    obtain ⟨items, hmem, rfl⟩ := List.mem_map.1 (List.mem_of_mem_dropLast hbatch)
    obtain ⟨p, hp, hlt⟩ := hfits index items hmem
    have hle : batchMin (items.map fun p => (p.timestamp, ())) ≤ p.timestamp :=
      batchMin_le (p := (p.timestamp, ())) (List.mem_map.2 ⟨p, hp, rfl⟩)
    rw [hmax] at hle
    exact absurd hlt (not_lt.2 hle)
  have hnone : MergeView.allPackets
      (fun _ : Fin w.files.length => ([] : List (Batch Unit))) = 0 :=
    Finset.sum_eq_zero fun _ _ => rfl
  have hall := hhalted.emitted_add hrun
  simp only [hunread, hnone, add_zero, hemitted] at hall
  have hcount : s.emitted.length = ∑ index, (batches index).flatten.length := by
    have hcard := congrArg Multiset.card hall
    rw [card_allPackets, Multiset.coe_card, List.length_map] at hcard
    rw [hcard]
    exact Finset.sum_congr rfl fun index _ => length_flatten_map _ _
  intro index
  have heach := (Finset.sum_eq_sum_iff_of_le fun index _ =>
    (length_rewriteBatches checks w.files[index].rewriter (batches index)).1).1
    (hwritten.symm.trans hcount) index (Finset.mem_univ index)
  refine (length_rewriteBatches checks _ _).2 (fun items hmem hnil => ?_) heach
  obtain ⟨p, hp, -⟩ := hfits index items hmem
  rw [hnil] at hp
  cases hp

/-- **A merge of files that share nothing** has written what each file makes of its
batches, in the order of the timestamps. -/
theorem mergeCalls_own {checks : Bool} {w w' : MergeFiles ρ}
    {H : BinaryHeap (HeapEntry w.files.length Written) HeapEntry.le} {s : MergeState H} {fuel : ℕ}
    {batches : Fin w.files.length → List (List PacketRecord)}
    (hshared : ∀ index : Fin w.files.length, w.files[index].shared = none)
    (hitems : ∀ index, Items PacketReader.next w.files[index].reader (batches index))
    (horder : ∀ index, BatchesInOrder (batches index))
    (hfits : ∀ index, ∀ items ∈ batches index, ∃ p ∈ items, p.timestamp < I64.MAX)
    (h : mergeCalls (MergeFiles.next checks) H fuel w = .ok ((), s, w')) :
    w'.runtime = w.runtime ∧
      ((s.emitted.map HeapEntry.value).Pairwise fun a b =>
        a.packet.timestamp ≤ b.packet.timestamp) ∧
      (s.emitted.map HeapEntry.value).Perm ((List.finRange w.files.length).flatMap fun index =>
        (rewriteBatches checks w.files[index].rewriter (batches index)).flatten) := by
  let streams := fun index : Fin w.files.length =>
    (rewriteBatches checks w.files[index].rewriter (batches index)).map stampedWritten
  have hforetold : ForetoldBy (FileMakes checks False) w (fun _ => False) streams := fun index _ =>
    ⟨_, List.getElem?_eq_getElem index.isLt, hshared index, batches index, hitems index, False.elim,
      rfl⟩
  rcases mergeCalls_refines H (foretells_own checks False w.runtime) hforetold rfl fuel with
    ⟨hfails, -⟩ | ⟨s', w'', v, hok, hrun, hhalted, hemitted, -, hkept⟩
  · rw [h] at hfails
    exact absurd trivial hfails
  · obtain ⟨rfl, rfl⟩ := Prod.mk.inj (Prod.mk.inj (Outcome.ok.inj (h.symm.trans hok))).2
    have herase : s.emitted.map (HeapEntry.erase id) = s.emitted := List.map_id _
    rw [herase] at hemitted
    have hunread : (fun index => MergeView.unreadOf (streams index)) = fun _ => [] :=
      funext fun index => unreadOf_rewritten (hfits index)
    have hnone : MergeView.allPackets
        (fun _ : Fin w.files.length => ([] : List (Batch Written))) = 0 :=
      Finset.sum_eq_zero fun _ _ => rfl
    have hall := hhalted.emitted_add hrun
    rw [hunread, hnone, add_zero, hemitted] at hall
    have hordered : MergeView.Ordered v := hrun.invariant _ (fun _ _ hv hs => hv.step hs)
      (.init fun index => rewriteBatches_pairwise (horder index))
    -- an entry has the timestamp of its packet
    have hstamped : ∀ e ∈ s.emitted, e.timestamp = e.value.packet.timestamp := by
      intro e he
      have hmem : e ∈ MergeView.allPackets streams := hall ▸ Multiset.mem_coe.2 he
      obtain ⟨index, -, hmem⟩ := Multiset.mem_sum.1 hmem
      obtain ⟨p, hp, rfl⟩ := List.mem_map.1 (Multiset.mem_coe.1 hmem)
      obtain ⟨batch, hbatch, hp⟩ := List.mem_flatten.1 hp
      obtain ⟨written, -, rfl⟩ := List.mem_map.1 hbatch
      obtain ⟨made, -, rfl⟩ := List.mem_map.1 hp
      rfl
    refine ⟨hkept, ?_, ?_⟩
    · have hsorted := hordered.sorted
      rw [hemitted] at hsorted
      refine List.pairwise_map.2 (hsorted.imp_of_mem fun {a b} ha hb hab => ?_)
      rw [← hstamped a ha, ← hstamped b hb]
      exact hab
    · have hvalues := congrArg (Multiset.map HeapEntry.value) hall
      rw [values_allPackets, Multiset.map_coe] at hvalues
      refine (Multiset.coe_eq_coe.1 hvalues).trans (.of_eq (List.flatMap_congr fun index _ => ?_))
      show (List.map stampedWritten _).flatten.map Prod.snd = _
      rw [List.map_flatten, List.map_map]
      refine congrArg List.flatten ((List.map_congr_left fun written _ => ?_).trans (List.map_id _))
      rw [Function.comp_apply, stampedWritten, List.map_map]
      exact List.map_id written

end Mergecap
end Maja
