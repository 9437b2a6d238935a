/-
# A merge of files that share an allocation

What the readers hand out does not depend on the allocation, but for the bytes, so
the batches of a merge are foretold (`FileReads`).  What the packets are made of
is told by the tables and by what was read (`KeptReads`), and every read keeps that.
So a merge that returns has read all packets of its files, and has made of each what
the tables say at the end (`mergeCalls_shared`).
-/

import Maja.Mergecap.Map.SharedReads
import Maja.Mergecap.Timeline

namespace Maja
namespace Mergecap

open Lib Capture Packet

variable {ρ : Type} [StdRng ρ] {n groups : ℕ}

/-! ### Foretold reads -/

/-- A batch of a packet: one copy for each group, with the bytes of the first. -/
structure GroupBatch (groups : ℕ) (items : List PacketRecord) : Prop where
  length : items.length = groups
  same : ∀ origin ∈ items.head?, SameBytes origin items.zipIdx

/-- The packet that a copy is made of, and its group. -/
abbrev Tag : Type := Option PacketRecord × ℕ

def Written.tag (made : Written) : Tag := (some made.origin, made.group)

/-- A batch, with the tags of its items. -/
def tagged (items : List PacketRecord) : Batch Tag :=
  items.zipIdx.map fun x => (x.1.timestamp, items.head?, x.2)

/-- What the files will hand out is foretold of each file by itself. -/
def ForetoldBy {T : Type} (told : OpenFile ρ → List (Batch T) → Prop) (w : MergeFiles ρ)
    (retired : Fin n → Prop) (streams : Fin n → List (Batch T)) : Prop :=
  ∀ index, ¬retired index → ∃ file, w.files[index.val]? = some file ∧ told file (streams index)

/-- What the reader of a file will hand out. -/
def FileReads (groups : ℕ) (file : OpenFile ρ) (stream : List (Batch Tag)) : Prop :=
  ∃ batches, Items PacketReader.next file.reader batches ∧
    (∀ items ∈ batches, GroupBatch groups items) ∧ stream = batches.map tagged

/-- Rewriting changes the bytes only. -/
theorem rewriteItem_timestamp {checks : Bool} {item item' : PacketRecord} {group : ℕ}
    {rewriter rewriter' : MapRewriter ρ}
    (h : rewriteItem checks item group rewriter = .ok (item', rewriter')) :
    item'.timestamp = item.timestamp := by
  unfold rewriteItem at h
  split_ifs at h
  · obtain ⟨packet, -, h⟩ := Outcome.bind_eq_ok.1 h
    obtain ⟨r, -, h⟩ := Outcome.bind_eq_ok.1 h
    obtain ⟨rfl, -⟩ := Prod.mk.inj (Outcome.ok.inj h)
    rfl
  · obtain ⟨rfl, -⟩ := Prod.mk.inj (Outcome.ok.inj h)
    rfl

/-- The tags of the packets that a batch is made into. -/
theorem rewriteItems_tags {checks : Bool} {origin : PacketRecord} {items : List (PacketRecord × ℕ)}
    {written : List Written} {rewriter rewriter' : MapRewriter ρ}
    (h : rewriteItems checks origin items rewriter = .ok (written, rewriter')) :
    (written.map fun made => (made.packet.timestamp, made.tag)) =
      items.map fun x => (x.1.timestamp, (some origin, x.2)) := by
  induction items generalizing rewriter written with
  | nil =>
    obtain ⟨rfl, -⟩ := Prod.mk.inj (Outcome.ok.inj h)
    rfl
  | cons x items ih =>
    obtain ⟨item, group⟩ := x
    rw [rewriteItems] at h
    obtain ⟨⟨packet, rewriter₁⟩, hitem, h⟩ := Outcome.bind_eq_ok.1 h
    obtain ⟨⟨rest, rewriter₂⟩, hrest, h⟩ := Outcome.bind_eq_ok.1 h
    obtain ⟨rfl, rfl⟩ := Prod.mk.inj (Outcome.ok.inj h)
    rw [List.map_cons, List.map_cons, ih hrest, rewriteItem_timestamp hitem]
    rfl

/-- Rewriting a batch keeps its timestamps and tags. -/
theorem rewriteBatch_tags {checks : Bool} {items : List PacketRecord} {written : List Written}
    {rewriter rewriter' : MapRewriter ρ}
    (h : rewriteBatch checks items rewriter = .ok (written, rewriter')) :
    (written.map fun made => (made.packet.timestamp, made.tag)) = tagged items := by
  cases items with
  | nil =>
    obtain ⟨rfl, -⟩ := Prod.mk.inj (Outcome.ok.inj h)
    rfl
  | cons origin items => exact rewriteItems_tags h

/-- **One call of a foretold reader.**  It returns, unless its rewriter does not. -/
theorem next_foretold (checks : Bool) {index : Fin n} {w : MergeFiles ρ} {file : OpenFile ρ}
    {batches : List (List PacketRecord)} (hfile : w.files[index.val]? = some file)
    (hitems : Items PacketReader.next file.reader batches) :
    (¬(MergeFiles.next checks index w).Returns ∧ ∃ items rest, batches = items :: rest ∧
      ¬(rewriteBatch checks items (file.borrowed w.runtime)).Returns) ∨
    (batches = [] ∧ ∃ reader, MergeFiles.next checks index w =
        .ok (none, { w with files := w.files.set index { file with reader } })) ∨
    ∃ items rest reader written rewriter, batches = items :: rest ∧
      Items PacketReader.next reader rest ∧
      rewriteBatch checks items (file.borrowed w.runtime) = .ok (written, rewriter) ∧
      MergeFiles.next checks index w =
        .ok (some (written.map fun made => (made.packet.timestamp, made)),
          { files := w.files.set index { file with reader, rewriter }
            runtime := file.giveBack rewriter w.runtime
            read := w.read ++ items.head?.toList }) := by
  cases hitems with
  | @done _ reader hnext =>
    refine .inr (.inl ⟨rfl, reader, ?_⟩)
    simp only [MergeFiles.next, hfile, hnext]
  | @next _ reader items rest hnext hrest =>
    rcases hbatch : rewriteBatch checks items (file.borrowed w.runtime) with
      ⟨written, rewriter⟩ | ⟨e, _⟩ | _ | _
    · refine .inr (.inr ⟨items, rest, reader, written, rewriter, rfl, hrest, hbatch, ?_⟩)
      simp only [MergeFiles.next, hfile, hnext, hbatch]
    · exact e.elim
    all_goals
      refine .inl ⟨?_, items, rest, rfl, by rw [hbatch]; exact id⟩
      simp only [MergeFiles.next, hfile, hnext, hbatch]
      exact id

/-! ### What the reads leave -/

section Kept

variable (settings : Settings) (cfg : FlowCfg) (flow : FlowMap) (start : Allocation ρ)

/-- What the groups make of a packet, by these tables. -/
def madeOf (a : Allocation ρ) (groups : ℕ) (origin : PacketRecord) :
    List ((PacketRecord × ℕ) × Option (List UInt8)) :=
  (List.range groups).map fun group =>
    ((origin, group), dataFor ρ settings (targetsBy cfg settings a group origin) origin)

/-- A packet of the output: what it was made of, its group and its bytes. -/
def Written.made (m : Written) : (PacketRecord × ℕ) × Option (List UInt8) :=
  ((m.origin, m.group), some m.packet.data)

/-- The allocation of a map that its files share. -/
abbrev sharedStart (ρ : Type) [StdRng ρ] (settings : Settings) (flow : FlowMap) (cfg : FlowCfg)
    (groups : ℕ) : Allocation ρ :=
  .new cfg settings.seed flow.sharingOrDefault groups

/-- A file of this runtime would borrow this allocation: the one that is there, or a new
one. -/
def Borrowable (groups : ℕ) (runtime : MapRuntime ρ) (a : Allocation ρ) : Prop :=
  (runtime.lookup flow).getD ⟨sharedStart ρ settings flow cfg groups, groups⟩ = ⟨a, groups⟩

/-- Every file shares the allocation of one map, the allocation has answered the ids of
the packets that were read, and what was handed out is what its tables say. -/
def KeptReads (groups : ℕ) (w : MergeFiles ρ) (values : Multiset Written) : Prop :=
  (∀ file ∈ w.files, file.shared = some flow ∧ Plain settings cfg file.rewriter) ∧
  (w.files ≠ [] → (w.runtime.lookup flow).isSome) ∧
  ∃ a, Borrowable settings cfg flow groups w.runtime a ∧
    start.Answers cfg a (w.read.flatMap (idsOf cfg start groups)) ∧
    values.map Written.made = w.read.flatMap (madeOf settings cfg a groups)

end Kept

section Keep

variable {settings : Settings} {cfg : FlowCfg} {flow : FlowMap} {start a a' : Allocation ρ}

/-- The tables say of a packet that was read what they said before. -/
theorem madeOf_eq {read : List PacketRecord} {ks : List SlotId}
    (hanswers : start.Answers cfg a (read.flatMap (idsOf cfg start groups)))
    (hmore : a.Answers cfg a' ks) {origin : PacketRecord} (horigin : origin ∈ read) :
    madeOf settings cfg a' groups origin = madeOf settings cfg a groups origin := by
  refine List.map_congr_left fun group hgroup => ?_
  have hsettled : Settled cfg a group origin := fun j hj => by
    rw [hanswers.slotIndex_eq]
    refine hanswers.known_of_mem (List.mem_flatMap.2 ⟨origin, horigin, ?_⟩)
    exact List.mem_flatMap.2 ⟨group, hgroup, List.mem_map_of_mem hj⟩
  rw [hsettled.targetsBy_eq hmore]

/-- The ids of a batch. -/
theorem idsOf_eq {read : List PacketRecord} {items : List PacketRecord} {origin : PacketRecord}
    (hanswers : start.Answers cfg a (read.flatMap (idsOf cfg start groups)))
    (hlength : items.length = groups) :
    (items.zipIdx.flatMap fun x => (cfg.asks (infoOf ρ origin)).map (a.slotIndex x.2, ·)) =
      idsOf cfg start groups origin := by
  have hgroups : items.zipIdx.map Prod.snd = List.range groups := by
    rw [List.zipIdx_map_snd, hlength, List.range_eq_range']
  rw [idsOf, ← hgroups, List.flatMap_map]
  exact List.flatMap_congr fun x _ => by rw [hanswers.slotIndex_eq]

omit [StdRng ρ] in
/-- What a batch is made into is what the tables say. -/
theorem made_eq {items : List PacketRecord} {origin : PacketRecord} {written : List Written}
    (hlength : items.length = groups)
    (h : List.Forall₂ (MadeBy settings cfg a origin) items.zipIdx written) :
    written.map Written.made = madeOf settings cfg a groups origin := by
  have hgroups : items.zipIdx.map Prod.snd = List.range groups := by
    rw [List.zipIdx_map_snd, hlength, List.range_eq_range']
  rw [madeOf, ← hgroups, List.map_map]
  refine (map_eq_map_of_forall₂ (fun x _ made hmade => ?_) h).symm
  rw [Written.made, hmade.origin_eq, hmade.group_eq, ← hmade.data]
  rfl

/-- The allocation that is there is the one that is borrowed. -/
theorem Borrowable.lookup {runtime : MapRuntime ρ}
    (h : Borrowable settings cfg flow groups runtime a) (hsome : (runtime.lookup flow).isSome) :
    runtime.lookup flow = some ⟨a, groups⟩ := by
  obtain ⟨global, hglobal⟩ := Option.isSome_iff_exists.1 hsome
  rw [Borrowable, hglobal] at h
  rw [hglobal]
  exact congrArg some h

omit [StdRng ρ] in
/-- A rewriter that borrows an allocation works on it. -/
theorem Plain.borrow {rewriter : MapRewriter ρ} (h : Plain settings cfg rewriter) :
    Plain settings cfg (rewriter.borrow a) ∧ (rewriter.borrow a).allocation = some a := by
  obtain ⟨s, hflow, hcfg, hseed⟩ := h.flow
  have hborrowed : (rewriter.borrow a).flow = some { s with allocation := some a } := by
    rw [MapRewriter.borrow, hflow]
    rfl
  exact ⟨⟨h.direct, h.fixChecksum, _, hborrowed, hcfg, hseed⟩,
    by rw [MapRewriter.allocation, hborrowed]; rfl⟩

end Keep

/-! ### The calls -/

omit [StdRng ρ] in
/-- A call of one file leaves what was foretold of the others. -/
theorem ForetoldBy.update {T : Type} {told : OpenFile ρ → List (Batch T) → Prop}
    {w w' : MergeFiles ρ} {retired retired' : Fin n → Prop} {streams : Fin n → List (Batch T)}
    (h : ForetoldBy told w retired streams) (hsub : ∀ j, retired j → retired' j) {index : Fin n}
    {file : OpenFile ρ} (hlt : index.val < w.files.length)
    (hfiles : w'.files = w.files.set index file) {rest : List (Batch T)}
    (hindex : ¬retired' index → told file rest) :
    ForetoldBy told w' retired' (Function.update streams index rest) := by
  intro j hj
  rw [hfiles]
  by_cases hji : j = index
  · subst hji
    rw [Function.update_self]
    exact ⟨file, List.getElem?_set_self hlt, hindex hj⟩
  · rw [Function.update_of_ne hji,
      List.getElem?_set_ne fun heq => hji (Fin.val_injective heq.symm)]
    exact h j fun hr => hj (hsub j hr)

section Calls

variable {settings : Settings} {cfg : FlowCfg} {flow : FlowMap} {start : Allocation ρ}

/-- A call that hands nothing out keeps what was read. -/
theorem KeptReads.set_reader {w : MergeFiles ρ} {values : Multiset Written} {index : ℕ}
    {file : OpenFile ρ} (h : KeptReads settings cfg flow start groups w values)
    (hfile : w.files[index]? = some file) (reader : PacketReader noRewriter) :
    KeptReads settings cfg flow start groups
      { w with files := w.files.set index { file with reader } } values := by
  obtain ⟨hfiles, hshared, hkept⟩ := h
  refine ⟨fun file' hmem => ?_, fun hne => hshared fun hnil => hne (by simp [hnil]), hkept⟩
  obtain hmem | rfl := List.mem_or_eq_of_mem_set hmem
  · exact hfiles file' hmem
  · exact hfiles file (List.mem_of_getElem? hfile)

/-- **A read of a batch keeps what was read**, with one more packet. -/
theorem KeptReads.read_batch (hpools : cfg.OneNetPools) (hrandom : cfg.NoRandom)
    (hgroups : 0 < groups) {w : MergeFiles ρ} {values : Multiset Written} {index : ℕ}
    {file : OpenFile ρ} {items : List PacketRecord} {written : List Written}
    {rewriter : MapRewriter ρ} (h : KeptReads settings cfg flow start groups w values)
    (hfile : w.files[index]? = some file) (hbatch : GroupBatch groups items)
    (hrewrite : rewriteBatch settings.checks items (file.borrowed w.runtime) =
      .ok (written, rewriter)) (reader : PacketReader noRewriter) :
    KeptReads settings cfg flow start groups
      { files := w.files.set index { file with reader, rewriter }
        runtime := file.giveBack rewriter w.runtime
        read := w.read ++ items.head?.toList } (written + values) := by
  obtain ⟨hfiles, hsome, a, hborrow, hanswers, hvalues⟩ := h
  have hmem := List.mem_of_getElem? hfile
  obtain ⟨hshared, hplain⟩ := hfiles file hmem
  have hlookup := hborrow.lookup (hsome (List.ne_nil_of_mem hmem))
  obtain ⟨origin, rest, rfl⟩ : ∃ origin rest, items = origin :: rest := by
    cases items with
    | nil => exact absurd hbatch.length (by simp; omega)
    | cons origin rest => exact ⟨origin, rest, rfl⟩
  have hborrowed : file.borrowed w.runtime = file.rewriter.borrow a := by
    rw [OpenFile.borrowed, hshared, Option.bind_some, hlookup]
  rw [hborrowed] at hrewrite
  obtain ⟨a', hplain', ha', hmore, hmade⟩ := rewriteItems_served hpools hrandom
    (hbatch.same origin rfl) hplain.borrow.1 hplain.borrow.2 hrewrite
  rw [idsOf_eq hanswers hbatch.length] at hmore
  have hgiven : file.giveBack rewriter w.runtime = w.runtime.insert flow ⟨a', groups⟩ := by
    rw [OpenFile.giveBack, hshared]
    dsimp only
    rw [hlookup, ha']
  refine ⟨fun file' hmem' => ?_, fun _ => ?_, a', ?_, ?_, ?_⟩
  · obtain hmem' | rfl := List.mem_or_eq_of_mem_set hmem'
    · exact hfiles file' hmem'
    · exact ⟨hshared, hplain'⟩
  · rw [hgiven, AList.lookup_insert]
    rfl
  · rw [hgiven, Borrowable, AList.lookup_insert]
    rfl
  · rw [List.head?_cons, Option.toList_some, List.flatMap_append, List.flatMap_singleton]
    exact hanswers.trans hmore
  · have hold : w.read.flatMap (madeOf settings cfg a' groups) =
        w.read.flatMap (madeOf settings cfg a groups) :=
      List.flatMap_congr fun o ho => madeOf_eq hanswers hmore ho
    rw [Multiset.map_add, hvalues, Multiset.map_coe, made_eq hbatch.length hmade, List.head?_cons,
      Option.toList_some, List.flatMap_append, List.flatMap_singleton, hold, ← Multiset.coe_add,
      add_comm]

/-- **The readers of files that share an allocation are foretold.** -/
theorem foretells_reads (hpools : cfg.OneNetPools) (hrandom : cfg.NoRandom) (hgroups : 0 < groups) :
    Foretells (n := n) (MergeFiles.next settings.checks) Written.tag
      (ForetoldBy (FileReads groups)) (KeptReads settings cfg flow start groups) where
  call index w retired streams hforetold hopen := by
    obtain ⟨file, hfile, batches, hitems, hbatches, hstreams⟩ := hforetold index hopen
    have hlt := (List.getElem?_eq_some_iff.1 hfile).1
    rcases next_foretold settings.checks hfile hitems with
      ⟨hfails, -⟩ | ⟨rfl, reader, hnext⟩ |
        ⟨items, rest, reader, written, rewriter, rfl, hrest, hrewrite, hnext⟩
    · exact .inl hfails
    · refine .inr ⟨none, _, hnext, by simp [hstreams], fun retired' hsub hnil => ?_⟩
      exact hforetold.update hsub hlt rfl fun hr => absurd (hnil hstreams) hr
    · refine .inr ⟨_, _, hnext, ?_, fun retired' hsub _ => hforetold.update hsub hlt rfl fun _ =>
        ⟨rest, hrest, fun items hmem => hbatches items (List.mem_cons_of_mem _ hmem), ?_⟩⟩
      · have htags := rewriteBatch_tags hrewrite
        simpa [hstreams, eraseBatch, Function.comp_def] using htags
      · rw [hstreams]
        rfl
  keep index w retired streams values answer w' hforetold hopen hkept hcall := by
    obtain ⟨file, hfile, batches, hitems, hbatches, -⟩ := hforetold index hopen
    rcases next_foretold settings.checks hfile hitems with
      ⟨hfails, -⟩ | ⟨rfl, reader, hnext⟩ |
        ⟨items, rest, reader, written, rewriter, rfl, hrest, hrewrite, hnext⟩
    · rw [hcall] at hfails
      exact absurd trivial hfails
    · obtain ⟨rfl, rfl⟩ := Prod.mk.inj (Outcome.ok.inj (hcall.symm.trans hnext))
      simpa using hkept.set_reader hfile reader
    · obtain ⟨rfl, rfl⟩ := Prod.mk.inj (Outcome.ok.inj (hcall.symm.trans hnext))
      have hread := hkept.read_batch hpools hrandom hgroups hfile
        (hbatches items List.mem_cons_self) hrewrite reader
      simpa [Function.comp_def] using hread

end Calls

/-! ### Everything is read -/

/-- The packets of finitely many lists. -/
theorem sum_coe {α : Type} (f : Fin n → List α) :
    ∑ index, (f index : Multiset α) = ((List.finRange n).flatMap f : List α) := by
  have hlist : ∀ l : List (Fin n), (l.map fun index => (f index : Multiset α)).sum =
      (l.flatMap f : List α) := by
    intro l
    induction l with
    | nil => rfl
    | cons index l ih => rw [List.map_cons, List.sum_cons, ih, List.flatMap_cons, Multiset.coe_add]
  rw [Fin.sum_univ_def, hlist]

/-- Going over the places of a list is going over the list. -/
theorem flatMap_finRange {α β : Type} {n : ℕ} {xs : List α} (hn : n = xs.length) (f : α → List β) :
    ((List.finRange n).flatMap fun index => f (xs.get ⟨index.val, hn ▸ index.isLt⟩)) =
      xs.flatMap f := by
  subst hn
  calc ((List.finRange xs.length).flatMap fun index => f (xs.get index))
      = ((List.finRange xs.length).map xs.get).flatMap f := by rw [List.flatMap_map]
    _ = xs.flatMap f := by rw [List.map_get_finRange]

/-- The values of all packets of the streams. -/
theorem values_allPackets {T : Type} (streams : Fin n → List (Batch T)) :
    (MergeView.allPackets streams).map HeapEntry.value =
      ((List.finRange n).flatMap fun index => (streams index).flatten.map Prod.snd : List T) := by
  have hvalues : ∀ index, (MergeView.packetsOf index (streams index)).map HeapEntry.value =
      ((streams index).flatten.map Prod.snd : List T) := fun index => by
    rw [MergeView.packetsOf, Multiset.map_coe, entriesOf, List.map_map]
    rfl
  calc (MergeView.allPackets streams).map HeapEntry.value
      = ∑ index, (MergeView.packetsOf index (streams index)).map HeapEntry.value :=
        map_sum (Multiset.mapAddMonoidHom HeapEntry.value) _ _
    _ = ∑ index, ((streams index).flatten.map Prod.snd : Multiset T) :=
        Finset.sum_congr rfl fun index _ => hvalues index
    _ = ((List.finRange n).flatMap fun index => (streams index).flatten.map Prod.snd : List T) :=
        sum_coe _

/-- What every group makes of a packet is tagged with it. -/
def tagsOf (groups : ℕ) (origin : PacketRecord) : List Tag :=
  (List.range groups).map fun group => (some origin, group)

/-- The packets can be read off their tags. -/
theorem perm_of_tags (hgroups : 0 < groups) {os os' : List PacketRecord}
    (h : (os.flatMap (tagsOf groups)).Perm (os'.flatMap (tagsOf groups))) : os.Perm os' := by
  have hfirst : ∀ os : List PacketRecord,
      ((os.flatMap (tagsOf groups)).filter fun t => t.2 = 0).map Prod.fst = os.map some := by
    intro os
    induction os with
    | nil => rfl
    | cons o os ih =>
      obtain ⟨k, rfl⟩ := Nat.exists_eq_succ_of_ne_zero hgroups.ne'
      have hrest : ((List.range k).map Nat.succ).filter (fun g => g = 0) = [] :=
        List.filter_eq_nil_iff.2 fun g hg => by
          obtain ⟨g, -, rfl⟩ := List.mem_map.1 hg
          simp
      have htags : (tagsOf (k + 1) o).filter (fun t => t.2 = 0) = [(some o, 0)] := by
        rw [tagsOf, List.filter_map]
        show (List.map _ ((List.range (k + 1)).filter fun g => g = 0)) = _
        rw [List.range_succ_eq_map, List.filter_cons_of_pos (by simp), hrest]
        rfl
      rw [List.flatMap_cons, List.filter_append, htags, List.singleton_append, List.map_cons, ih,
        List.map_cons]
  have hperm := (h.filter fun t => t.2 = 0).map Prod.fst
  rw [hfirst, hfirst] at hperm
  exact (List.map_perm_map_iff (Option.some_injective _)).1 hperm

/-- A batch before the last one does not look like the end of its file. -/
theorem unreadOf_tagged {batches : List (List PacketRecord)} {origins : List PacketRecord}
    (hheads : batches.map List.head? = origins.map some)
    (horder : origins.Pairwise fun p q => p.timestamp < q.timestamp) :
    MergeView.unreadOf (batches.map tagged) = [] := by
  rw [MergeView.unreadOf_eq_nil, ← List.map_dropLast]
  intro batch hbatch
  obtain ⟨items, hitems, rfl⟩ := List.mem_map.1 hbatch
  have hne : batches ≠ [] := fun hnil => by simp [hnil] at hitems
  have hpair : batches.Pairwise fun xs ys =>
      ∀ p ∈ xs.head?, ∀ q ∈ ys.head?, p.timestamp < q.timestamp := by
    have hmap : (batches.map List.head?).Pairwise fun x y =>
        ∀ p ∈ x, ∀ q ∈ y, p.timestamp < q.timestamp := by
      rw [hheads]
      exact List.pairwise_map.2 (horder.imp fun {p q} hlt a ha b hb => by
        obtain rfl := Option.some.inj ha
        obtain rfl := Option.some.inj hb
        exact hlt)
    exact List.pairwise_map.1 hmap
  have hsome : ∀ xs ∈ batches, ∃ p, xs.head? = some p := fun xs hxs => by
    have hmem := List.mem_map_of_mem (f := List.head?) hxs
    rw [hheads] at hmem
    obtain ⟨p, -, hp⟩ := List.mem_map.1 hmem
    exact ⟨p, hp.symm⟩
  obtain ⟨p, hp⟩ := hsome items (List.mem_of_mem_dropLast hitems)
  obtain ⟨q, hq⟩ := hsome _ (List.getLast_mem hne)
  rw [← List.dropLast_append_getLast hne] at hpair
  have hlt := (List.pairwise_append.1 hpair).2.2 items hitems _ (List.mem_singleton_self _) p hp q hq
  have hle : batchMin (tagged items) ≤ p.timestamp := by
    obtain ⟨rest, rfl⟩ := List.head?_eq_some_iff.1 hp
    exact batchMin_le (p := (p.timestamp, some p, 0)) (by simp [tagged])
  intro hmax
  rw [hmax] at hle
  exact absurd (lt_of_le_of_lt hle hlt) (not_lt.2 q.timestamp.property.2)

/-- The tags of the packets of all streams. -/
theorem allPackets_tagged {batches : Fin n → List (List PacketRecord)}
    {origins : Fin n → List PacketRecord}
    (hgroup : ∀ index, ∀ items ∈ batches index, GroupBatch groups items)
    (hheads : ∀ index, (batches index).map List.head? = (origins index).map some) :
    (MergeView.allPackets fun index => (batches index).map tagged).map HeapEntry.value =
      (((List.finRange n).flatMap origins).flatMap (tagsOf groups) : List Tag) := by
  have hone : ∀ index, (((batches index).map tagged).flatten.map Prod.snd) =
      (origins index).flatMap (tagsOf groups) := by
    intro index
    have htags : ∀ items ∈ batches index, (tagged items).map Prod.snd =
        (List.range groups).map fun group => (items.head?, group) := fun items hitems => by
      have hzip : items.zipIdx.map Prod.snd = List.range groups := by
        rw [List.zipIdx_map_snd, (hgroup index items hitems).length, List.range_eq_range']
      rw [← hzip, tagged, List.map_map, List.map_map]
      rfl
    calc ((batches index).map tagged).flatten.map Prod.snd
        = (batches index).flatMap fun items => (tagged items).map Prod.snd := by
          rw [List.map_flatten, List.map_map, List.flatMap_def]
          rfl
      _ = (batches index).flatMap fun items =>
            (List.range groups).map fun group => (items.head?, group) :=
          List.flatMap_congr htags
      _ = ((batches index).map List.head?).flatMap fun head =>
            (List.range groups).map fun group => (head, group) := by rw [List.flatMap_map]
      _ = (origins index).flatMap (tagsOf groups) := by
          rw [hheads, List.flatMap_map]
          rfl
  rw [values_allPackets, List.flatMap_assoc]
  exact congrArg _ (List.flatMap_congr fun index _ => hone index)

section Shared

variable {settings : Settings} {cfg : FlowCfg} {flow : FlowMap} {start : Allocation ρ}

/-- **A merge of files that share an allocation** has read all packets, and has made of
each what the tables say that have answered the ids of the packets as they were read. -/
theorem mergeCalls_shared (hpools : cfg.OneNetPools) (hrandom : cfg.NoRandom)
    (hgroups : 0 < groups) {w w' : MergeFiles ρ}
    {H : BinaryHeap (HeapEntry w.files.length Written) HeapEntry.le}
    {s : MergeState H} {fuel : ℕ} {batches : Fin w.files.length → List (List PacketRecord)}
    {origins : Fin w.files.length → List PacketRecord}
    (hkept : KeptReads settings cfg flow start groups w 0)
    (hitems : ∀ index, Items PacketReader.next w.files[index].reader (batches index))
    (hbatches : ∀ index, ∀ items ∈ batches index, GroupBatch groups items)
    (hheads : ∀ index, (batches index).map List.head? = (origins index).map some)
    (horder : ∀ index, (origins index).Pairwise fun p q => p.timestamp < q.timestamp)
    (h : mergeCalls (MergeFiles.next settings.checks) H fuel w = .ok ((), s, w')) :
    w'.read.Perm ((List.finRange w.files.length).flatMap origins) ∧
      ∃ a, Borrowable settings cfg flow groups w'.runtime a ∧
        start.Answers cfg a (w'.read.flatMap (idsOf cfg start groups)) ∧
        ((s.emitted.map HeapEntry.value).map Written.made).Perm
          (w'.read.flatMap (madeOf settings cfg a groups)) := by
  have hforetold : ForetoldBy (FileReads groups) w (fun _ => False)
      (fun index => (batches index).map tagged) := fun index _ =>
    ⟨_, List.getElem?_eq_getElem index.isLt, batches index, hitems index, hbatches index, rfl⟩
  rcases mergeCalls_refines H (foretells_reads hpools hrandom hgroups) hforetold hkept fuel with
    ⟨hfails, -⟩ | ⟨s', w'', v, hok, hrun, hhalted, hemitted, -, -, -, a, hborrow, hanswers, hvalues⟩
  · rw [h] at hfails
    exact absurd trivial hfails
  · obtain ⟨rfl, rfl⟩ := Prod.mk.inj (Prod.mk.inj (Outcome.ok.inj (h.symm.trans hok))).2
    rw [Multiset.map_coe] at hvalues
    have hmade := Multiset.coe_eq_coe.1 hvalues
    have hunread : ∀ index, MergeView.unreadOf ((batches index).map tagged) = [] := fun index =>
      unreadOf_tagged (hheads index) (horder index)
    have hall := hhalted.emitted_add hrun
    simp only [hunread, hemitted] at hall
    have hnone : MergeView.allPackets (fun _ : Fin w.files.length => ([] : List (Batch Tag))) = 0 :=
      Finset.sum_eq_zero fun _ _ => rfl
    rw [hnone, add_zero] at hall
    have htags := congrArg (Multiset.map HeapEntry.value) hall
    rw [allPackets_tagged hbatches hheads, Multiset.map_coe, List.map_map] at htags
    refine ⟨perm_of_tags hgroups ?_, a, hborrow, hanswers, hmade⟩
    -- the tags of what was written are those of what was read
    have hread := hmade.map fun x => ((some x.1.1, x.1.2) : Tag)
    have hkeys : (w'.read.flatMap (madeOf settings cfg a groups)).map
        (fun x => ((some x.1.1, x.1.2) : Tag)) = w'.read.flatMap (tagsOf groups) := by
      rw [List.map_flatMap]
      refine List.flatMap_congr fun o _ => ?_
      rw [madeOf, List.map_map]
      rfl
    rw [hkeys, List.map_map, List.map_map] at hread
    exact hread.symm.trans (Multiset.coe_eq_coe.1 htags)

end Shared

end Mergecap
end Maja
