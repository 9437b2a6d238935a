/-
# When the merged output is sorted

The merge is sorted on streams whose batches start in order, and the streams are
replayed files.  `startsInOrder_iff` says when a replayed file is such a stream:
exactly when every group of passes ends before the next start time.  Validation
does not look at that, so `output_sorted_iff` keeps it as the condition, and
`unorderedStarts` is a valid configuration that fails it.
-/

import Maja.Mergecap.MergeRefines
import Maja.Mergecap.Timeline
import Mathlib.Tactic.Choose

namespace Maja
namespace Mergecap

open Lib Capture PacketReader

variable {args : MergeArgs} {src : Source}

/-! ### The minimum of a batch -/

/-- The jitter only delays, and not the first group. -/
theorem jitter_facts (hvalid : src.file.TimelineOk) :
    (∃ offset ∈ src.jitter, offset.val = 0) ∧ ∀ offset ∈ src.jitter, 0 ≤ offset.val := by
  constructor
  · refine ⟨I64.ofInt 0, List.mem_map.2 ⟨0, List.mem_range.2 hvalid.parallel, ?_⟩, rfl⟩
    rw [if_pos (.inl rfl)]
  · intro offset hoffset
    obtain ⟨group, -, rfl⟩ := List.mem_map.1 hoffset
    split_ifs with h
    · exact le_refl (0 : ℤ)
    · have hpos : 0 < src.file.parallelJitterNs := by omega
      have hlt := src.rng.randomRange_lt group _ hpos
      have hjitter := hvalid.parallelJitter
      rw [I64.ofWord_val (by omega)]
      exact Int.natCast_nonneg _

/-- A batch starts where its packet is put. -/
theorem batchMin_stamped (hvalid : src.file.TimelineOk) {items : List PacketRecord} {b : ℤ}
    (h : (items.map fun q => q.timestamp.val) = src.jitter.map fun offset => b + offset.val) :
    (batchMin (stamped items)).val = b := by
  obtain ⟨⟨zero, hzero, hzero'⟩, hnonneg⟩ := jitter_facts hvalid
  have hmem : ∀ x, x ∈ (items.map fun q => q.timestamp.val) ↔
      ∃ offset ∈ src.jitter, b + offset.val = x := by
    intro x
    rw [h, List.mem_map]
  apply le_antisymm
  · obtain ⟨q, hq, hqb⟩ := List.mem_map.1 ((hmem b).2 ⟨zero, hzero, by omega⟩)
    have hle : batchMin (stamped items) ≤ q.timestamp :=
      batchMin_le (List.mem_map.2 ⟨q, hq, rfl⟩)
    rw [← hqb]
    exact hle
  · by_contra hlt
    have hne : stamped items ≠ [] := by
      intro hnil
      have hmap : (items.map fun q => q.timestamp.val) = [] := by simpa [stamped] using hnil
      rw [hmap] at hmem
      simpa using (hmem b).2 ⟨zero, hzero, by omega⟩
    obtain ⟨q, hq, hmin⟩ := List.mem_map.1 (List.min?_mem (min_eq_some hne))
    obtain ⟨r, hr, rfl⟩ := List.mem_map.1 hq
    obtain ⟨offset, hoffset, hsum⟩ := (hmem r.timestamp.val).1 (List.mem_map.2 ⟨r, hr, rfl⟩)
    have := hnonneg offset hoffset
    rw [← hmin] at hlt
    simp only at hlt
    omega

/-- The timestamps that the batches of a replay start at. -/
def bases (args : MergeArgs) (src : Source) : List ℤ :=
  (List.range src.passes).flatMap fun c => src.packets.map (src.base args c)

/-- Lists with the same image under two maps that determine each other. -/
theorem map_eq_of_map_eq {α β γ : Type} {f : α → γ} {g : β → γ} {k : α → β}
    (hk : ∀ a b, f a = g b → k a = b) {as : List α} {bs : List β} (h : as.map f = bs.map g) :
    as.map k = bs := by
  induction as generalizing bs with
  | nil =>
    cases bs with
    | nil => rfl
    | cons b bs => simp at h
  | cons a as ih =>
    cases bs with
    | nil => simp at h
    | cons b bs =>
      rw [List.map_cons, List.map_cons, List.cons.injEq] at h
      rw [List.map_cons, hk a b h.1, ih h.2]

/-- The batches that a reader hands out start at `bases`. -/
theorem exists_items (hvalid : src.file.TimelineOk) (hsat : src.NoSaturation args) :
    ∃ batches, Items next (src.reader args) batches ∧
      (batches.map fun items => (batchMin (stamped items)).val) = bases args src := by
  obtain ⟨batches, hitems, hstamps⟩ := items_timeline hvalid hsat
  have hspread : (List.range src.passes).flatMap (src.passStamps args) =
      (bases args src).map fun b => src.jitter.map fun offset => b + offset.val := by
    rw [bases, List.map_flatMap]
    refine List.flatMap_congr fun c _ => ?_
    rw [Source.passStamps, List.map_map]
    rfl
  rw [hspread] at hstamps
  exact ⟨batches, hitems, map_eq_of_map_eq (fun items b h => batchMin_stamped hvalid h) hstamps⟩

/-! ### Sorted bases -/

/-- The packets of a sorted capture lie between its first and its last one. -/
theorem timestamp_mem_span (hcapture : src.packets.Pairwise fun p q => p.timestamp ≤ q.timestamp)
    {p : PacketRecord} (hp : p ∈ src.packets) :
    src.origin ≤ p.timestamp.val ∧ p.timestamp.val ≤ src.origin + src.span := by
  have hstart : src.origin ≤ p.timestamp.val := by
    cases hpackets : src.packets with
    | nil => simp [hpackets] at hp
    | cons q qs =>
      rw [hpackets] at hp hcapture
      have horigin : src.origin = q.timestamp.val := by simp [Source.origin, hpackets]
      rw [horigin]
      rcases List.mem_cons.1 hp with rfl | hmem
      · exact le_refl _
      · exact List.rel_of_pairwise_cons hcapture hmem
  have hend : p.timestamp.val ≤ src.origin + src.span := by
    obtain ⟨front, q, hpackets⟩ : ∃ front q, src.packets = front ++ [q] :=
      ⟨_, _, (List.dropLast_append_getLast (List.ne_nil_of_mem hp)).symm⟩
    rw [hpackets] at hp hcapture
    have hspan : src.origin + src.span = q.timestamp.val := by simp [Source.span, hpackets]
    rw [hspan]
    rcases List.mem_append.1 hp with hmem | hmem
    · exact (List.pairwise_append.1 hcapture).2.2 p hmem q (List.mem_singleton_self q)
    · rw [List.mem_singleton.1 hmem]
  exact ⟨hstart, hend⟩

/-- Every pass has a packet at its start and one at its end. -/
theorem exists_base (hne : src.packets ≠ []) (c : ℕ) :
    (∃ p ∈ src.packets, src.base args c p = src.passStart args c) ∧
      ∃ p ∈ src.packets, src.base args c p = src.passStart args c + src.span := by
  constructor
  · obtain ⟨p, ps, hpackets⟩ := List.exists_cons_of_ne_nil hne
    exact ⟨p, by simp [hpackets], base_head hpackets⟩
  · refine ⟨src.packets.getLast hne, List.getLast_mem hne, base_last ?_⟩
    exact ⟨_, List.dropLast_append_getLast hne⟩

/-- Two passes are in order when the first one ends before the second starts. -/
theorem pass_le_pass (hcapture : src.packets.Pairwise fun p q => p.timestamp ≤ q.timestamp)
    (hne : src.packets ≠ []) {c c' : ℕ} :
    (∀ x ∈ src.packets.map (src.base args c), ∀ y ∈ src.packets.map (src.base args c'), x ≤ y) ↔
      src.passStart args c + src.span ≤ src.passStart args c' := by
  constructor
  · intro h
    obtain ⟨-, p, hp, hend⟩ := @exists_base args src hne c
    obtain ⟨⟨q, hq, hstart⟩, -⟩ := @exists_base args src hne c'
    rw [← hend, ← hstart]
    exact h _ (List.mem_map_of_mem hp) _ (List.mem_map_of_mem hq)
  · intro h x hx y hy
    obtain ⟨p, hp, rfl⟩ := List.mem_map.1 hx
    obtain ⟨q, hq, rfl⟩ := List.mem_map.1 hy
    have h₁ := (timestamp_mem_span hcapture hp).2
    have h₂ := (timestamp_mem_span hcapture hq).1
    rw [Source.base, Source.base]
    omega

/-- A pass does not end before it starts. -/
theorem span_nonneg (hcapture : src.packets.Pairwise fun p q => p.timestamp ≤ q.timestamp)
    (hne : src.packets ≠ []) : 0 ≤ src.span := by
  obtain ⟨p, hp⟩ := List.exists_mem_of_ne_nil _ hne
  have := timestamp_mem_span hcapture hp
  omega

/-- A relation between the passes that is transitive holds of any two of them when
it holds of neighbours. -/
theorem pairwise_range {n : ℕ} {R : ℕ → ℕ → Prop} (htrans : ∀ a b c, R a b → R b c → R a c) :
    (List.range n).Pairwise R ↔ ∀ c, c + 1 < n → R c (c + 1) := by
  constructor
  · intro h c hc
    have := List.pairwise_iff_getElem.1 h c (c + 1) (by simp; omega) (by simpa using hc) (by omega)
    simpa using this
  · intro h
    refine List.pairwise_iff_getElem.2 fun i j hi hj hij => ?_
    simp only [List.getElem_range]
    rw [List.length_range] at hj
    induction j, hij using Nat.le_induction with
    | base => exact h i hj
    | succ j hij ih => exact htrans i j (j + 1) (ih (by omega)) (h j hj)

/-- The start of the first pass of a group. -/
theorem passStart_group (hrepeat : 0 < src.file.repeatCount) (group : ℕ) :
    src.passStart args (src.file.repeatCount * group) = src.groupStart group + src.shift args := by
  simp [Source.passStart, Nat.mul_div_cancel_left _ hrepeat]

/-- The last pass of a group ends one interval short of where a further one would
start. -/
theorem passStart_lastOfGroup (hrepeat : 0 < src.file.repeatCount) (group : ℕ) :
    src.passStart args (src.file.repeatCount * group + (src.file.repeatCount - 1)) + src.span =
      src.groupStart group + src.shift args + src.file.repeatCount * src.span +
        (src.file.repeatCount - 1 : ℕ) * src.file.repeatIntervalNs.val := by
  have hlt : src.file.repeatCount - 1 < src.file.repeatCount := by omega
  have hdiv : (src.file.repeatCount * group + (src.file.repeatCount - 1)) /
      src.file.repeatCount = group := by
    rw [Nat.mul_add_div hrepeat, Nat.div_eq_of_lt hlt, Nat.add_zero]
  have hmod : (src.file.repeatCount * group + (src.file.repeatCount - 1)) %
      src.file.repeatCount = src.file.repeatCount - 1 := by
    rw [Nat.mul_add_mod, Nat.mod_eq_of_lt hlt]
  rw [Source.passStart, hdiv, hmod]
  obtain ⟨k, hk⟩ := Nat.exists_eq_succ_of_ne_zero hrepeat.ne'
  rw [hk, Nat.succ_sub_one]
  push_cast
  ring

/-- The batches of a replay start in order exactly when its groups do. -/
theorem bases_pairwise_iff (hvalid : src.file.TimelineOk)
    (hcapture : src.packets.Pairwise fun p q => p.timestamp ≤ q.timestamp) :
    (bases args src).Pairwise (fun x y => x ≤ y) ↔ src.StartsInOrder := by
  by_cases hne : src.packets = []
  · have hnil : bases args src = [] := by simp [bases, hne]
    rw [hnil]
    exact iff_of_true List.Pairwise.nil fun h => absurd hne h
  have hrepeat := hvalid.repeatCount
  have hspan := span_nonneg hcapture hne
  have hpass : ∀ c, (src.packets.map (src.base args c)).Pairwise fun x y => x ≤ y := by
    intro c
    refine List.pairwise_map.2 (hcapture.imp fun {p q} hpq => ?_)
    have hval : p.timestamp.val ≤ q.timestamp.val := hpq
    simp only [Source.base]
    omega
  have htrans : ∀ a b c, src.passStart args a + src.span ≤ src.passStart args b →
      src.passStart args b + src.span ≤ src.passStart args c →
      src.passStart args a + src.span ≤ src.passStart args c := by
    intro a b c hab hbc
    omega
  have hneighbours : (bases args src).Pairwise (fun x y => x ≤ y) ↔
      ∀ c, c + 1 < src.passes → src.passStart args c + src.span ≤ src.passStart args (c + 1) := by
    rw [bases, List.pairwise_flatMap, ← pairwise_range htrans]
    simp only [pass_le_pass hcapture hne]
    exact and_iff_right fun c _ => hpass c
  rw [hneighbours]
  constructor
  · -- the last pass of a group and the first one of the next
    intro h _ group hgroup
    have hstep := h (src.file.repeatCount * group + (src.file.repeatCount - 1)) (by
      have hle : src.file.repeatCount * (group + 1 + 1) ≤
          src.file.repeatCount * src.file.startTime.length := Nat.mul_le_mul_left _ hgroup
      rw [Source.passes, Nat.mul_comm src.file.startTime.length]
      rw [Nat.mul_add, Nat.mul_add] at hle
      omega)
    have hnext : src.file.repeatCount * group + (src.file.repeatCount - 1) + 1 =
        src.file.repeatCount * (group + 1) := by
      rw [Nat.mul_add]
      omega
    rw [passStart_lastOfGroup hrepeat, hnext, passStart_group hrepeat] at hstep
    omega
  · intro h c hc
    by_cases hmod : (c + 1) % src.file.repeatCount = 0
    · -- `c` is the last pass of its group
      obtain ⟨group, hgroup⟩ := Nat.dvd_of_mod_eq_zero hmod
      obtain ⟨previous, rfl⟩ : ∃ previous, group = previous + 1 := by
        refine Nat.exists_eq_succ_of_ne_zero fun hzero => ?_
        rw [hzero] at hgroup
        omega
      have hlast : c = src.file.repeatCount * previous + (src.file.repeatCount - 1) := by
        rw [Nat.mul_add] at hgroup
        omega
      have hlt : previous + 1 < src.file.startTime.length := by
        rw [hgroup, Source.passes, Nat.mul_comm] at hc
        exact lt_of_mul_lt_mul_right hc (Nat.zero_le _)
      have horder := h hne previous hlt
      rw [hgroup, hlast, passStart_lastOfGroup hrepeat, passStart_group hrepeat]
      omega
    · rw [passStart_succ hmod]
      have := hvalid.repeatInterval
      omega

/-! ### The merged output -/

/-- The batches of a reader start in non-decreasing order. -/
def BatchesInOrder (batches : List (List PacketRecord)) : Prop :=
  (batches.map stamped).Pairwise fun a b => batchMin a ≤ batchMin b

instance (batches : List (List PacketRecord)) : Decidable (BatchesInOrder batches) :=
  inferInstanceAs (Decidable (List.Pairwise _ _))

/-- A reader's batches start in order exactly when the groups of its file do. -/
theorem exists_items_inOrder (hvalid : src.file.TimelineOk) (hsat : src.NoSaturation args)
    (hcapture : src.packets.Pairwise fun p q => p.timestamp ≤ q.timestamp) :
    ∃ batches, Items next (src.reader args) batches ∧
      (BatchesInOrder batches ↔ src.StartsInOrder) := by
  obtain ⟨batches, hitems, hbases⟩ := exists_items hvalid hsat
  refine ⟨batches, hitems, ?_⟩
  have hiff := @bases_pairwise_iff args src hvalid hcapture
  rw [← hiff, ← hbases, BatchesInOrder, List.pairwise_map, List.pairwise_map]
  rfl

variable {n : ℕ} {ε : Type}

/-- **When the output timeline is sorted.**  From valid files over sorted captures,
as long as nothing saturates, the readers hand out batches that start in
non-decreasing order, and the merge of them is in non-decreasing timestamp order,
exactly when in every file with packets each group of passes ends before the next
start time: its last packet, `repeat` spans and `repeat - 1` intervals behind the
group's start, is not behind the first packet of the next group. -/
theorem output_sorted_iff (H : BinaryHeap (HeapEntry n PacketRecord) HeapEntry.le)
    (emit : List PacketRecord → PacketRecord → Except ε Unit) (args : MergeArgs)
    (sources : Fin n → Source) (hvalid : ∀ i, (sources i).file.validate = .ok ())
    (hcapture : ∀ i, (sources i).packets.Pairwise fun p q => p.timestamp ≤ q.timestamp)
    (hsat : ∀ i, (sources i).NoSaturation args) :
    ∃ batches : Fin n → List (List PacketRecord),
      (∀ i, Items next ((sources i).reader args) (batches i)) ∧
      ∃ s, (mergeBatches H emit (fun i => (batches i).map stamped) = .ok ((), s) ∨
          ∃ e, mergeBatches H emit (fun i => (batches i).map stamped) = .err (e, s)) ∧
        ((∀ i, BatchesInOrder (batches i)) ∧ EmittedInOrder s ↔
          ∀ i, (sources i).StartsInOrder) := by
  have hreaders : ∀ i, ∃ batches, Items next ((sources i).reader args) batches ∧
      (BatchesInOrder batches ↔ (sources i).StartsInOrder) :=
    fun i => exists_items_inOrder (.of_validate (hvalid i)) (hsat i) (hcapture i)
  choose batches hitems horder using hreaders
  refine ⟨batches, hitems, ?_⟩
  by_cases hsorted : ∀ i, BatchesInOrder (batches i)
  · obtain ⟨s, hs, hemitted⟩ := mergeBatches_ordered H emit hsorted
    refine ⟨s, hs, ?_⟩
    exact iff_of_true ⟨hsorted, hemitted.sorted⟩ fun i => (horder i).1 (hsorted i)
  · have hunsorted : ¬∀ i, (sources i).StartsInOrder :=
      fun h => hsorted fun i => (horder i).2 (h i)
    rcases @mergeBatches_refines n PacketRecord ε H emit (fun i => (batches i).map stamped) with
      ⟨s, hs, -, -⟩ | ⟨e, s, hs, -⟩
    · exact ⟨s, .inl hs, iff_of_false (fun h => hsorted h.1) hunsorted⟩
    · exact ⟨s, .inr ⟨e, hs⟩, iff_of_false (fun h => hsorted h.1) hunsorted⟩

/-- A rewriter that is not active. -/
def noRewriter : Rewriter := ⟨Unit, (), false, fun _ _ data _ => (data, ())⟩

/-- A generator that always draws 0. -/
def zeroRng : JitterRng := ⟨fun _ _ => 0, fun _ _ h => h⟩

/-- A capture of one packet at time 0, replayed once at each of two start times. -/
def twoStarts (first second : {s : ℤ // -2 ^ 31 ≤ s ∧ s ≤ 2 ^ 31 - 1}) : Source where
  file := { (default : InputFile) with startTimeField := some [first, second] }
  capture := [.ok ⟨I64.ofInt 0, 0, [], .ethernet⟩]
  rng := zeroRng
  rewriter := noRewriter

/-- Ten seconds apart, the two passes are in order. -/
theorem output_sorted_iff_twoStarts :
    ∃ batches : Fin 1 → List (List PacketRecord),
      (∀ i, Items next ((![twoStarts ⟨0, by decide⟩ ⟨10, by decide⟩] i).reader ⟨none, none⟩)
          (batches i)) ∧
      ∃ s, (mergeBatches (BinaryHeap.sorted HeapEntry.le) (fun _ _ => (.ok () : Except Unit Unit))
            (fun i => (batches i).map stamped) = .ok ((), s) ∨
          ∃ e, mergeBatches (BinaryHeap.sorted HeapEntry.le)
            (fun _ _ => (.ok () : Except Unit Unit)) (fun i => (batches i).map stamped) =
              .err (e, s)) ∧
        ((∀ i, BatchesInOrder (batches i)) ∧ EmittedInOrder s ↔
          ∀ i, (![twoStarts ⟨0, by decide⟩ ⟨10, by decide⟩] i).StartsInOrder) := by
  refine output_sorted_iff _ _ ⟨none, none⟩ ![twoStarts ⟨0, by decide⟩ ⟨10, by decide⟩] ?_ ?_ ?_
  · rw [Fin.forall_fin_one]
    rfl
  · rw [Fin.forall_fin_one]
    exact List.pairwise_singleton _ _
  · rw [Fin.forall_fin_one]
    exact ⟨by decide +kernel, by decide +kernel, by decide +kernel⟩

/-- The start times of `unorderedStarts` are out of order. -/
def unorderedStarts : Source := twoStarts ⟨10, by decide⟩ InputFile.noStart

/-- The batches of `unorderedStarts`. -/
def unorderedBatches : List (List PacketRecord) :=
  [[⟨I64.clamp 10000000000, 0, [], .ethernet⟩], [⟨I64.clamp 0, 0, [], .ethernet⟩]]

/-- **A valid file whose output is not sorted.**  Its batches start at ten seconds
and then at zero, and the merge emits them in that order. -/
theorem unorderedStarts_not_sorted :
    unorderedStarts.file.validate = .ok () ∧
      (unorderedStarts.packets.Pairwise fun p q => p.timestamp ≤ q.timestamp) ∧
      unorderedStarts.NoSaturation ⟨none, none⟩ ∧
      ∃ batches, Items next (unorderedStarts.reader ⟨none, none⟩) batches ∧
        ¬BatchesInOrder batches ∧
        ∃ s, mergeBatches (BinaryHeap.sorted HeapEntry.le)
            (fun _ _ => (.ok () : Except Unit Unit)) ![batches.map stamped] = .ok ((), s) ∧
          ¬EmittedInOrder s := by
  refine ⟨rfl, List.pairwise_singleton _ _,
    ⟨by decide +kernel, by decide +kernel, by decide +kernel⟩, unorderedBatches,
    @items_of_collect _ _ _ next 3 _ _ (by decide +kernel), by decide +kernel, ?_⟩
  have hrun : (mergeBatches (BinaryHeap.sorted HeapEntry.le)
      (fun _ _ => (.ok () : Except Unit Unit)) ![unorderedBatches.map stamped]).toOption.map
        (fun r => r.2.emitted.map fun entry => entry.timestamp) =
      some [I64.clamp 10000000000, I64.clamp 0] := by decide +kernel
  obtain ⟨⟨u, s⟩, hs, hemitted⟩ := Option.map_eq_some_iff.1 hrun
  refine ⟨s, Outcome.toOption_eq_some.1 hs, fun hsorted => ?_⟩
  have hmap : (s.emitted.map fun entry => entry.timestamp).Pairwise fun a b => a ≤ b :=
    List.pairwise_map.2 hsorted
  simp only at hemitted
  rw [hemitted] at hmap
  exact absurd hmap (by decide +kernel)

end Mergecap
end Maja
