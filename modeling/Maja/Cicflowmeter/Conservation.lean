/-
# Every packet is counted once

After a run of the generator, the packets are divided among flows, each of which
became one row, or held a single packet and was discarded
(`FlowGenerator.run_conserves`).  The statistics may overflow, and a silence of
more than `i64::MAX` is not seen under the largest timeout: `Fits` excludes both.
-/

import Maja.Cicflowmeter.Counting
import Mathlib.Data.List.Chain

namespace Maja
namespace Cicflowmeter

open Lib Net

namespace FlowGenerator

variable {ε : Type} {checks : Bool} {texts : Texts} {label : String} {g g' : FlowGenerator}
  {packet : FlowPacket} {rows : List FlowFeatures} {flow flow' : Flow}

/-! ### One packet -/

/-- What a packet does to the flow of its key. -/
inductive Adds (checks : Bool) (texts : Texts) (label : String) (g : FlowGenerator)
    (packet : FlowPacket) : List FlowFeatures → FlowGenerator → Prop where
  /-- There is none: it starts one. -/
  | starts {flow : Flow} (hlookup : g.flows.lookup (.fromPacket packet) = none)
      (hnew : (Flow.new checks packet g.activityTimeoutNs : Outcome Empty Flow) = .ok flow) :
      Adds checks texts label g packet []
        { g with flows := (g.flows.erase (.fromPacket packet)).insert (.fromPacket packet) flow }
  /-- It has timed out: it is completed, and the packet starts its successor. -/
  | restarts {old flow : Flow} {rows : List FlowFeatures}
      (hlookup : g.flows.lookup (.fromPacket packet) = some old) (hout : g.timedOut old packet = true)
      (hrows : (complete checks texts old label : Outcome Empty _) = .ok rows)
      (hnew : (Flow.new checks packet g.activityTimeoutNs : Outcome Empty Flow) = .ok flow) :
      Adds checks texts label g packet rows
        { g with flows := (g.flows.erase (.fromPacket packet)).insert (.fromPacket packet) flow }
  /-- The packet joins it. -/
  | joins {old flow : Flow}
      (hlookup : g.flows.lookup (.fromPacket packet) = some old) (hin : g.timedOut old packet = false)
      (hadd : (old.add checks packet : Outcome Empty Flow) = .ok flow)
      (hrst : packet.tcpFlags.contains TcpFlags.RST = false) (hfin : flow.hasBothFin = false) :
      Adds checks texts label g packet []
        { g with flows := (g.flows.erase (.fromPacket packet)).insert (.fromPacket packet) flow }
  /-- The packet closes it. -/
  | closes {old flow : Flow} {rows : List FlowFeatures}
      (hlookup : g.flows.lookup (.fromPacket packet) = some old) (hin : g.timedOut old packet = false)
      (hadd : (old.add checks packet : Outcome Empty Flow) = .ok flow)
      (hclosed : packet.tcpFlags.contains TcpFlags.RST = true ∨ flow.hasBothFin = true)
      (hrows : (complete checks texts flow label : Outcome Empty _) = .ok rows) :
      Adds checks texts label g packet rows { g with flows := g.flows.erase (.fromPacket packet) }

/-- A call of `add_packet` that returns goes one of the four ways. -/
theorem adds_of_add
    (h : (g.add checks texts packet label : Outcome Empty _) = .ok (rows, g')) :
    Adds checks texts label g packet rows g' := by
  unfold add at h
  dsimp only at h
  cases hlookup : g.flows.lookup (.fromPacket packet) with
  | none =>
      rw [hlookup] at h
      obtain ⟨started, hstart, h⟩ := Outcome.bind_eq_ok.1 h
      obtain ⟨flow, hnew, hstart⟩ := Outcome.bind_eq_ok.1 hstart
      cases hstart
      cases h
      exact .starts hlookup hnew
  | some old =>
      rw [hlookup] at h
      dsimp only at h
      split_ifs at h with hout
      · obtain ⟨completed, hrows, h⟩ := Outcome.bind_eq_ok.1 h
        obtain ⟨started, hstart, h⟩ := Outcome.bind_eq_ok.1 h
        obtain ⟨flow, hnew, hstart⟩ := Outcome.bind_eq_ok.1 hstart
        cases hstart
        cases h
        exact .restarts hlookup hout hrows hnew
      · have hin : g.timedOut old packet = false := Bool.eq_false_iff.2 hout
        obtain ⟨flow, hadd, h⟩ := Outcome.bind_eq_ok.1 h
        split_ifs at h with hclosed
        · obtain ⟨completed, hrows, h⟩ := Outcome.bind_eq_ok.1 h
          cases h
          exact .closes hlookup hin hadd (by simpa using hclosed) hrows
        · cases h
          rw [Bool.or_eq_true, not_or] at hclosed
          exact .joins hlookup hin hadd (Bool.eq_false_iff.2 hclosed.1)
            (Bool.eq_false_iff.2 hclosed.2)

/-- Completing a flow makes one row of it, or none when it has a single packet. -/
theorem complete_cases (h : (complete checks texts flow label : Outcome Empty _) = .ok rows) :
    (1 < flow.length ∧ ∃ row, (flow.finish checks texts label : Outcome Empty _) = .ok row ∧
      rows = [row]) ∨ (¬1 < flow.length ∧ rows = []) := by
  unfold complete at h
  split_ifs at h with hlength
  · obtain ⟨row, hrow, h⟩ := Outcome.bind_eq_ok.1 h
    cases h
    exact .inl ⟨hlength, row, hrow, rfl⟩
  · cases h
    exact .inr ⟨hlength, rfl⟩

end FlowGenerator

/-- The two packet columns of a row. -/
theorem FlowFeatures.counts_of_finish {checks : Bool} {texts : Texts} {label : String} {flow : Flow}
    {row : FlowFeatures} (h : (flow.finish checks texts label : Outcome Empty _) = .ok row) :
    row.totalFwdPacket + row.totalBwdPackets = flow.forward.length + flow.backward.length := by
  unfold Flow.finish at h
  obtain ⟨closed, hclosed, h⟩ := Outcome.bind_eq_ok.1 h
  obtain ⟨active, rfl⟩ := Flow.closeActive_frame hclosed
  cases h
  rfl

/-! ### Accounts -/

/-- A packet and its place in the run. -/
abbrev Item : Type := FlowPacket × ℕ

/-- The packets of one flow: in the order of their arrival, of one key, and never
more than the flow timeout apart. -/
structure OneFlow (seen : List Item) (flowTimeoutNs : I64) (key : FlowKey) (items : List Item) :
    Prop where
  arrival : items.Sublist seen
  key : ∀ x ∈ items, FlowKey.fromPacket x.1 = key
  gaps : items.IsChain fun a b => b.1.timestamp.val - a.1.timestamp.val ≤ flowTimeoutNs.val

/-- Packets that make up a flow still do when more were seen. -/
theorem OneFlow.mono {seen seen' : List Item} {flowTimeoutNs : I64} {key : FlowKey}
    {items : List Item} (h : OneFlow seen flowTimeoutNs key items) (hseen : seen.Sublist seen') :
    OneFlow seen' flowTimeoutNs key items :=
  ⟨h.arrival.trans hseen, h.key, h.gaps⟩

/-- What became of the packets of a flow that is closed: a row, or nothing. -/
structure Account where
  items : List Item
  row : Option FlowFeatures

section Settings

variable (checks : Bool) (texts : Texts) (label : String) (flowTimeoutNs activityTimeoutNs : I64)

/-- The flow was counted, and it was emitted as its row, or discarded because it had
a single packet. -/
structure Account.Settled (seen : List Item) (account : Account) : Prop where
  oneFlow : ∃ key, OneFlow seen flowTimeoutNs key account.items
  row : ∀ row, account.row = some row → 1 < account.items.length ∧
    row.totalFwdPacket + row.totalBwdPackets = account.items.length ∧
    ∃ flow, Flow.Holds checks activityTimeoutNs (account.items.map Prod.fst) flow ∧
      (flow.finish checks texts label : Outcome Empty _) = .ok row
  discarded : account.row = none → account.items.length = 1

/-- Every packet is in one account, and the accounts are the rows. -/
def Conserves (packets : List FlowPacket) (rows : List FlowFeatures) : Prop :=
  ∃ accounts : List Account, (accounts.flatMap Account.items).Perm packets.zipIdx ∧
    (accounts.filterMap Account.row).Perm rows ∧
    ∀ account ∈ accounts,
      account.Settled checks texts label flowTimeoutNs activityTimeoutNs packets.zipIdx

/-- A flow that is open, and the packets that it holds. -/
structure OpenFlow where
  key : FlowKey
  flow : Flow
  items : List Item

/-- Its entry in the hash map. -/
def OpenFlow.entry (o : OpenFlow) : Sigma fun _ : FlowKey => Flow := ⟨o.key, o.flow⟩

structure OpenFlow.Held (seen : List Item) (o : OpenFlow) : Prop where
  oneFlow : OneFlow seen flowTimeoutNs o.key o.items
  holds : Flow.Holds checks activityTimeoutNs (o.items.map Prod.fst) o.flow

/-- The books: what was seen is in accounts that are closed or in open flows, which
are those of the hash map. -/
structure Balanced (seen : List Item) (rows : List FlowFeatures) (flows : Flows)
    (closed : List Account) (opened : List OpenFlow) : Prop where
  conserved : (closed.flatMap Account.items ++ opened.flatMap OpenFlow.items).Perm seen
  entries : (opened.map OpenFlow.entry).Perm flows.entries
  rows : closed.filterMap Account.row = rows
  settled : ∀ account ∈ closed,
    account.Settled checks texts label flowTimeoutNs activityTimeoutNs seen
  held : ∀ o ∈ opened, o.Held checks flowTimeoutNs activityTimeoutNs seen

end Settings

/-! ### The hash map -/

namespace Flows

variable {flows : Flows} {key : FlowKey} {flow : Flow}

/-- A table is an entry and the others. -/
theorem entries_of_lookup (h : flows.lookup key = some flow) :
    flows.entries.Perm (⟨key, flow⟩ :: (flows.erase key).entries) := by
  have hmem : key ∈ flows.entries.keys := List.mem_keys_of_mem (AList.mem_lookup_iff.1 h)
  obtain ⟨flow', before, after, hbefore, hsplit, herase⟩ := List.exists_of_kerase hmem
  have hflow : flow' = flow := by
    have hlookup : flows.lookup key = some flow' := by
      rw [AList.lookup, hsplit, List.dlookup_append, List.dlookup_eq_none.2 hbefore, Option.none_or,
        List.dlookup_cons_eq]
    rw [h] at hlookup
    exact (Option.some.inj hlookup).symm
  have hrest : (flows.erase key).entries = before ++ after := herase
  rw [hrest, hsplit, hflow]
  exact List.perm_middle

/-- Erasing a key that is not there changes nothing. -/
theorem entries_of_lookup_none (h : flows.lookup key = none) :
    (flows.erase key).entries = flows.entries :=
  List.kerase_of_notMem_keys (AList.lookup_eq_none.1 h)

/-- A flow that replaces another one is the first entry. -/
theorem entries_insert_erase : ((flows.erase key).insert key flow).entries =
    ⟨key, flow⟩ :: (flows.erase key).entries :=
  AList.entries_insert_of_notMem (AList.lookup_eq_none.1 (AList.lookup_erase key flows))

end Flows

/-- The open flow of a key, and the others. -/
theorem Balanced.take {checks : Bool} {texts : Texts} {label : String}
    {flowTimeoutNs activityTimeoutNs : I64} {seen : List Item} {rows : List FlowFeatures}
    {flows : Flows} {closed : List Account} {opened : List OpenFlow} {key : FlowKey} {flow : Flow}
    (h : Balanced checks texts label flowTimeoutNs activityTimeoutNs seen rows flows closed opened)
    (hlookup : flows.lookup key = some flow) : ∃ items others,
      opened.Perm (⟨key, flow, items⟩ :: others) ∧
      (others.map OpenFlow.entry).Perm (flows.erase key).entries := by
  have hentries := h.entries.trans (Flows.entries_of_lookup hlookup)
  obtain ⟨o, ho, hentry⟩ := List.mem_map.1 (hentries.mem_iff.2 List.mem_cons_self)
  obtain ⟨before, after, rfl⟩ := List.append_of_mem ho
  obtain ⟨key', flow', items⟩ := o
  cases hentry
  have hperm : (before ++ ⟨key', flow', items⟩ :: after).Perm
      (⟨key', flow', items⟩ :: (before ++ after)) := List.perm_middle
  exact ⟨items, before ++ after, hperm, ((hperm.map OpenFlow.entry).symm.trans hentries).cons_inv⟩

/-! ### One packet keeps the books -/

section Step

variable {checks : Bool} {texts : Texts} {label : String} {g g' : FlowGenerator}
  {seen : List Item} {rows rows' : List FlowFeatures} {closed : List Account}
  {opened : List OpenFlow} {packet : FlowPacket} {n : ℕ} {items : List Item} {key : FlowKey}
  {flow : Flow} {flowTimeoutNs activityTimeoutNs : I64}

/-- An account stays settled when more was seen. -/
theorem Account.Settled.mono {seen' : List Item} {account : Account}
    (h : account.Settled checks texts label flowTimeoutNs activityTimeoutNs seen)
    (hseen : seen.Sublist seen') :
    account.Settled checks texts label flowTimeoutNs activityTimeoutNs seen' := by
  obtain ⟨key, hone⟩ := h.oneFlow
  exact ⟨⟨key, hone.mono hseen⟩, h.row, h.discarded⟩

/-- An open flow is still held when more was seen. -/
theorem OpenFlow.Held.mono {seen' : List Item} {o : OpenFlow}
    (h : o.Held checks flowTimeoutNs activityTimeoutNs seen) (hseen : seen.Sublist seen') :
    o.Held checks flowTimeoutNs activityTimeoutNs seen' :=
  ⟨h.oneFlow.mono hseen, h.holds⟩

/-- A flow is as long as the items that it was made of. -/
theorem OpenFlow.Held.length {o : OpenFlow}
    (h : o.Held checks flowTimeoutNs activityTimeoutNs seen) : o.flow.length = o.items.length := by
  rw [Flow.length, h.holds.length, List.length_map]

/-- A flow has a packet. -/
theorem Flow.Holds.ne_nil {packets : List FlowPacket}
    (h : Flow.Holds checks activityTimeoutNs packets flow) : packets ≠ [] := by
  cases h with
  | new h => simp
  | add hs h => simp

/-- A flow that is completed settles its account. -/
theorem OpenFlow.Held.settled {o : OpenFlow}
    (h : o.Held checks flowTimeoutNs activityTimeoutNs seen)
    (hrows : (FlowGenerator.complete checks texts o.flow label : Outcome Empty _) = .ok rows) :
    ∃ row, rows = row.toList ∧
      Account.Settled checks texts label flowTimeoutNs activityTimeoutNs seen ⟨o.items, row⟩ := by
  have hlength := h.length
  rcases FlowGenerator.complete_cases hrows with ⟨hlong, row, hrow, rfl⟩ | ⟨hshort, rfl⟩
  · refine ⟨some row, rfl, ⟨⟨o.key, h.oneFlow⟩, ?_, by simp⟩⟩
    rintro row' heq
    cases heq
    refine ⟨hlength ▸ hlong, ?_, o.flow, h.holds, hrow⟩
    rw [← hlength, Flow.length, FlowFeatures.counts_of_finish hrow]
  · refine ⟨none, rfl, ⟨⟨o.key, h.oneFlow⟩, by simp, ?_⟩⟩
    intro _
    have hpos := List.length_pos_iff.2 h.holds.ne_nil
    rw [List.length_map] at hpos
    show o.items.length = 1
    omega

/-- A new flow holds its packet. -/
theorem OpenFlow.held_new
    (hnew : (Flow.new checks packet activityTimeoutNs : Outcome Empty Flow) = .ok flow) :
    OpenFlow.Held checks flowTimeoutNs activityTimeoutNs (seen ++ [(packet, n)])
      ⟨.fromPacket packet, flow, [(packet, n)]⟩ := by
  refine ⟨⟨List.sublist_append_right _ _, ?_, List.isChain_singleton _⟩, .new hnew⟩
  rintro x hx
  rw [List.mem_singleton.1 hx]

/-- A packet no later than the timeout joins the flow of its key. -/
theorem OpenFlow.Held.join {old : Flow}
    (h : OpenFlow.Held checks flowTimeoutNs activityTimeoutNs seen ⟨.fromPacket packet, old, items⟩)
    (hgap : packet.timestamp.val - old.lastTimestamp.val ≤ flowTimeoutNs.val)
    (hadd : (old.add checks packet : Outcome Empty Flow) = .ok flow) :
    OpenFlow.Held checks flowTimeoutNs activityTimeoutNs (seen ++ [(packet, n)])
      ⟨.fromPacket packet, flow, items ++ [(packet, n)]⟩ := by
  refine ⟨⟨h.oneFlow.arrival.append_right _, ?_, ?_⟩, ?_⟩
  · intro x hx
    rcases List.mem_append.1 hx with hx | hx
    · exact h.oneFlow.key x hx
    · rw [List.mem_singleton.1 hx]
  · rw [List.isChain_append]
    refine ⟨h.oneFlow.gaps, List.isChain_singleton _, ?_⟩
    intro a ha b hb
    have hlast := h.holds.lastTimestamp
    rw [List.getLast?_map, Option.mem_def.1 ha] at hlast
    cases hb
    rw [Option.map_some, Option.map_some, Option.some.injEq] at hlast
    show _ - a.1.timestamp.val ≤ _
    rw [hlast]
    exact hgap
  · rw [List.map_append]
    exact .add h.holds hadd

/-- Accounts that are settled stay so, and flows that are open hold what they held. -/
theorem Balanced.mono {others : List OpenFlow} {x : Item}
    (h : Balanced checks texts label flowTimeoutNs activityTimeoutNs seen rows g.flows closed opened)
    (hothers : ∀ o ∈ others, o ∈ opened) :
    (∀ account ∈ closed,
      account.Settled checks texts label flowTimeoutNs activityTimeoutNs (seen ++ [x])) ∧
    ∀ o ∈ others, o.Held checks flowTimeoutNs activityTimeoutNs (seen ++ [x]) :=
  ⟨fun account ha => (h.settled account ha).mono (List.sublist_append_left _ _),
    fun o ho => (h.held o (hothers o ho)).mono (List.sublist_append_left _ _)⟩

/-- What is in the closed and in the open flows is what was seen, also with one more
item behind some of the open ones. -/
theorem conserved_concat {settled pending seen before after : List Item} {x : Item}
    (h : (settled ++ pending).Perm seen) (hpending : pending.Perm (before ++ after)) :
    (settled ++ (before ++ x :: after)).Perm (seen ++ [x]) :=
  calc (settled ++ (before ++ x :: after)).Perm (settled ++ x :: (before ++ after)) :=
        List.perm_middle.append_left _
    _ |>.Perm (x :: (settled ++ (before ++ after))) := List.perm_middle
    _ |>.Perm (x :: (settled ++ pending)) := (hpending.symm.append_left _).cons x
    _ |>.Perm (x :: seen) := h.cons x
    _ |>.Perm (seen ++ [x]) := (List.perm_append_singleton x seen).symm

/-- **A packet keeps the books balanced**, when it is no later than it seems. -/
theorem Balanced.add
    (h : Balanced checks texts label g.flowTimeoutNs g.activityTimeoutNs seen rows g.flows closed
      opened)
    (hadds : FlowGenerator.Adds checks texts label g packet rows' g')
    (hgap : ∀ old, g.flows.lookup (.fromPacket packet) = some old → g.timedOut old packet = false →
      packet.timestamp.val - old.lastTimestamp.val ≤ g.flowTimeoutNs.val) :
    ∃ closed' opened', Balanced checks texts label g.flowTimeoutNs g.activityTimeoutNs
      (seen ++ [(packet, n)]) (rows ++ rows') g'.flows closed' opened' := by
  cases hadds with
  | @starts flow hlookup hnew =>
      obtain ⟨hsettled, hheld⟩ := h.mono (x := (packet, n)) fun o ho => ho
      refine ⟨closed, ⟨.fromPacket packet, flow, [(packet, n)]⟩ :: opened, ⟨?_, ?_, ?_, hsettled, ?_⟩⟩
      · have hopened : (opened.flatMap OpenFlow.items).Perm ([] ++ opened.flatMap OpenFlow.items) :=
          .refl _
        exact conserved_concat h.conserved hopened
      · show (_ :: opened.map OpenFlow.entry).Perm _
        rw [Flows.entries_insert_erase, Flows.entries_of_lookup_none hlookup]
        exact h.entries.cons _
      · rw [List.append_nil]
        exact h.rows
      · rintro o ho
        rcases List.mem_cons.1 ho with rfl | ho
        · exact OpenFlow.held_new hnew
        · exact hheld o ho
  | @restarts old flow _ hlookup hout hrows hnew =>
      obtain ⟨items, others, hperm, hothers⟩ := h.take hlookup
      obtain ⟨hsettled, hheld⟩ := h.mono (x := (packet, n)) fun o ho =>
        hperm.mem_iff.2 (List.mem_cons_of_mem _ ho)
      have hold := h.held _ (hperm.mem_iff.2 List.mem_cons_self)
      obtain ⟨row, rfl, hrow⟩ := hold.settled hrows
      refine ⟨closed ++ [⟨items, row⟩], ⟨.fromPacket packet, flow, [(packet, n)]⟩ :: others,
        ⟨?_, ?_, ?_, ?_, ?_⟩⟩
      · have hopened : (opened.flatMap OpenFlow.items).Perm (items ++ others.flatMap OpenFlow.items) :=
          hperm.flatMap_right OpenFlow.items
        simpa using conserved_concat h.conserved hopened
      · show (_ :: others.map OpenFlow.entry).Perm _
        rw [Flows.entries_insert_erase]
        exact hothers.cons _
      · rw [List.filterMap_append, h.rows]
        cases row <;> rfl
      · intro account ha
        rcases List.mem_append.1 ha with ha | ha
        · exact hsettled account ha
        · rw [List.mem_singleton.1 ha]
          exact hrow.mono (List.sublist_append_left _ _)
      · rintro o ho
        rcases List.mem_cons.1 ho with rfl | ho
        · exact OpenFlow.held_new hnew
        · exact hheld o ho
  | @joins old flow hlookup hin hadd hrst hfin =>
      obtain ⟨items, others, hperm, hothers⟩ := h.take hlookup
      obtain ⟨hsettled, hheld⟩ := h.mono (x := (packet, n)) fun o ho =>
        hperm.mem_iff.2 (List.mem_cons_of_mem _ ho)
      have hold := h.held _ (hperm.mem_iff.2 List.mem_cons_self)
      refine ⟨closed, ⟨.fromPacket packet, flow, items ++ [(packet, n)]⟩ :: others,
        ⟨?_, ?_, ?_, hsettled, ?_⟩⟩
      · have hopened : (opened.flatMap OpenFlow.items).Perm (items ++ others.flatMap OpenFlow.items) :=
          hperm.flatMap_right OpenFlow.items
        simpa using conserved_concat h.conserved hopened
      · show (_ :: others.map OpenFlow.entry).Perm _
        rw [Flows.entries_insert_erase]
        exact hothers.cons _
      · rw [List.append_nil]
        exact h.rows
      · rintro o ho
        rcases List.mem_cons.1 ho with rfl | ho
        · exact hold.join (hgap old hlookup hin) hadd
        · exact hheld o ho
  | @closes old flow _ hlookup hin hadd hclosed hrows =>
      obtain ⟨items, others, hperm, hothers⟩ := h.take hlookup
      obtain ⟨hsettled, hheld⟩ := h.mono (x := (packet, n)) fun o ho =>
        hperm.mem_iff.2 (List.mem_cons_of_mem _ ho)
      have hold := h.held _ (hperm.mem_iff.2 List.mem_cons_self)
      obtain ⟨row, rfl, hrow⟩ := (hold.join (n := n) (hgap old hlookup hin) hadd).settled hrows
      refine ⟨closed ++ [⟨items ++ [(packet, n)], row⟩], others, ⟨?_, hothers, ?_, ?_, hheld⟩⟩
      · have hopened : (opened.flatMap OpenFlow.items).Perm (items ++ others.flatMap OpenFlow.items) :=
          hperm.flatMap_right OpenFlow.items
        simpa using conserved_concat h.conserved hopened
      · rw [List.filterMap_append, h.rows]
        cases row <;> rfl
      · intro account ha
        rcases List.mem_append.1 ha with ha | ha
        · exact hsettled account ha
        · rw [List.mem_singleton.1 ha]
          exact hrow

end Step

/-! ### Runs -/

/-- After this packet the flow is closed: an RST, or FINs in both directions. -/
def Flow.Closes (flow : Flow) (packet : FlowPacket) : Bool :=
  packet.tcpFlags.contains TcpFlags.RST ||
    (flow.forward.any (·.flags.contains TcpFlags.FIN) || flow.isForward packet && packet.fin) &&
      (flow.backward.any (·.flags.contains TcpFlags.FIN) || !flow.isForward packet && packet.fin)

/-- A packet behind which both directions have ended closes the flow. -/
theorem Flow.Takes.closes {flow flow' : Flow} {packet : FlowPacket}
    (h : flow.Takes packet flow') (hfin : flow'.hasBothFin = true) : flow.Closes packet = true := by
  simp only [hasBothFin, Bool.and_eq_true] at hfin
  obtain ⟨⟨-, hforward⟩, hbackward⟩ := hfin
  rw [h.forward] at hforward
  rw [h.backward] at hbackward
  simp only [Closes, Bool.or_eq_true, Bool.and_eq_true]
  right
  cases hdirection : flow.isForward packet <;>
    simp_all [FlowPacket.sample, FlowPacket.fin]

namespace FlowGenerator

variable {checks : Bool} {texts : Texts} {label : String} {g g' : FlowGenerator}
  {packet : FlowPacket} {rows : List FlowFeatures}

/-- The packet is handled without an overflow: it completes a flow that has timed
out, or it joins one, which it may close, and under the largest timeout the gap
is not cut off. -/
def Fits (checks : Bool) (g : FlowGenerator) (packet : FlowPacket) : Prop :=
  ∀ old ∈ g.flows.lookup (.fromPacket packet),
    if g.timedOut old packet then 1 < old.length → old.CloseFits checks
    else (g.flowTimeoutNs = I64.MAX → packet.timestamp.val - old.lastTimestamp.val ≤ 2 ^ 63 - 1) ∧
      (checks = true → old.AddFits packet) ∧
      (checks = true → old.Closes packet →
        packet.timestamp.saturatingSub old.lastTimestamp ≤ old.activityTimeoutNs →
        old.activeStart < packet.timestamp →
        I64.InRange (packet.timestamp.val - old.activeStart.val))

instance : Decidable (g.Fits checks packet) := by
  unfold Fits
  cases g.flows.lookup (.fromPacket packet) with
  | none => exact .isTrue fun old h => nomatch h
  | some old =>
      exact decidable_of_iff _ ⟨fun h old' h' => Option.some.inj h' ▸ h, fun h => h old rfl⟩

/-- A gap that is no time-out is within the timeout. -/
theorem gap_le {old : Flow} (hin : g.timedOut old packet = false)
    (hmax : g.flowTimeoutNs = I64.MAX →
      packet.timestamp.val - old.lastTimestamp.val ≤ 2 ^ 63 - 1) :
    packet.timestamp.val - old.lastTimestamp.val ≤ g.flowTimeoutNs.val := by
  have hle : packet.timestamp.saturatingSub old.lastTimestamp ≤ g.flowTimeoutNs := by
    simpa [timedOut] using hin
  have hval : (packet.timestamp.saturatingSub old.lastTimestamp).val ≤ g.flowTimeoutNs.val := hle
  by_cases hlarge : packet.timestamp.val - old.lastTimestamp.val ≤ 2 ^ 63 - 1
  · simp only [I64.saturatingSub, I64.clamp] at hval
    omega
  · have htimeout : g.flowTimeoutNs = I64.MAX := by
      apply Subtype.ext
      have hup := g.flowTimeoutNs.2.2
      simp only [I64.saturatingSub, I64.clamp] at hval
      show g.flowTimeoutNs.val = 2 ^ 63 - 1
      omega
    exact absurd (hmax htimeout) hlarge

/-- A flow that can be closed is completed without a panic. -/
theorem complete_ok {flow : Flow} (h : 1 < flow.length → flow.CloseFits checks) :
    ∃ rows, (complete checks texts flow label : Outcome Empty _) = .ok rows := by
  unfold complete
  split_ifs with hlength
  · obtain ⟨row, hrow⟩ := @Flow.finish_ok Empty checks flow texts label (h hlength)
    exact ⟨_, by rw [hrow]; rfl⟩
  · exact ⟨_, rfl⟩

/-- A new flow is started without a panic. -/
theorem start_ok (checks : Bool) (g : FlowGenerator) (packet : FlowPacket) :
    ∃ g', (g.start checks packet : Outcome Empty _) = .ok g' := by
  obtain ⟨flow, hflow⟩ := @Flow.new_ok Empty checks packet g.activityTimeoutNs
  exact ⟨_, by rw [start, hflow]; rfl⟩

/-- A packet that fits is handled. -/
theorem add_ok (hlong : ∀ old ∈ g.flows.lookup (.fromPacket packet), 0 < old.length)
    (h : g.Fits checks packet) :
    ∃ r, (g.add checks texts packet label : Outcome Empty _) = .ok r := by
  unfold add
  dsimp only
  cases hlookup : g.flows.lookup (.fromPacket packet) with
  | none =>
      obtain ⟨started, hstart⟩ := start_ok checks
        { g with flows := g.flows.erase (.fromPacket packet) } packet
      exact ⟨_, by dsimp only; rw [hstart]; rfl⟩
  | some old =>
      have hfits := h old hlookup
      dsimp only
      split_ifs with hout
      · rw [if_pos hout] at hfits
        obtain ⟨started, hstart⟩ := start_ok checks
          { g with flows := g.flows.erase (.fromPacket packet) } packet
        obtain ⟨completed, hrows⟩ := @complete_ok checks texts label old hfits
        exact ⟨_, by rw [hrows, Outcome.ok_bind, hstart]; rfl⟩
      · rw [if_neg hout] at hfits
        obtain ⟨-, hadd, hclose⟩ := hfits
        obtain ⟨flow, hflow⟩ := @Flow.add_ok Empty checks old packet hadd
        rw [hflow, Outcome.ok_bind]
        split_ifs with hclosed
        · obtain ⟨completed, hrows⟩ := @complete_ok checks texts label flow (by
            intro _ hchecks hlt
            obtain ⟨hend, hstart⟩ := Flow.add_active hflow (hlong old hlookup)
            rw [hend, hstart] at hlt ⊢
            split_ifs at hlt ⊢ with hidle
            · exact absurd hlt (lt_irrefl _)
            · refine hclose hchecks ?_ (not_lt.1 hidle) hlt
              rcases Bool.or_eq_true_iff.1 hclosed with hrst | hfin
              · rw [Flow.Closes, hrst]
                rfl
              · exact (Flow.add_takes hflow).closes hfin)
          exact ⟨_, by rw [hrows]; rfl⟩
        · exact ⟨_, rfl⟩

/-- Every packet of the run fits, and in the end every flow that is left can be
written. -/
def RunFits (checks : Bool) (texts : Texts) (label : String) : FlowGenerator → List FlowPacket → Prop
  | g, [] => ∀ e ∈ g.flows.entries, 1 < e.2.length → e.2.CloseFits checks
  | g, packet :: packets => g.Fits checks packet ∧
      match (g.add checks texts packet label : Outcome Empty _) with
      | .ok r => RunFits checks texts label r.2 packets
      | _ => True

instance RunFits.decidable : ∀ (g : FlowGenerator) (packets : List FlowPacket),
    Decidable (RunFits checks texts label g packets)
  | g, [] => inferInstanceAs (Decidable (∀ e ∈ g.flows.entries, _))
  | g, packet :: packets => by
      unfold RunFits
      have : ∀ r : List FlowFeatures × FlowGenerator,
        Decidable (RunFits checks texts label r.2 packets) := fun r => decidable r.2 packets
      cases (g.add checks texts packet label : Outcome Empty _) <;> exact inferInstance

/-- A call of `add_packet` keeps the timeouts. -/
theorem adds_timeouts (h : Adds checks texts label g packet rows g') :
    g'.flowTimeoutNs = g.flowTimeoutNs ∧ g'.activityTimeoutNs = g.activityTimeoutNs := by
  cases h <;> exact ⟨rfl, rfl⟩

/-- In balance, a run that fits goes through, and stays in balance. -/
theorem addAll_balanced {seen : List Item} {closed : List Account} {opened : List OpenFlow}
    (items : List Item)
    (h : Balanced checks texts label g.flowTimeoutNs g.activityTimeoutNs seen rows g.flows closed
      opened)
    (hfits : RunFits checks texts label g (items.map Prod.fst)) :
    ∃ rows' g' closed' opened',
      (g.addAll checks texts label (items.map Prod.fst) : Outcome Empty _) = .ok (rows', g') ∧
      Balanced checks texts label g.flowTimeoutNs g.activityTimeoutNs (seen ++ items) (rows ++ rows')
        g'.flows closed' opened' ∧
      ∀ e ∈ g'.flows.entries, 1 < e.2.length → e.2.CloseFits checks := by
  induction items generalizing g seen rows closed opened with
  | nil =>
      refine ⟨[], g, closed, opened, rfl, ?_, hfits⟩
      rw [List.append_nil, List.append_nil]
      exact h
  | cons x items ih =>
      obtain ⟨packet, n⟩ := x
      obtain ⟨hpacket, hrest⟩ := hfits
      have hlong : ∀ old ∈ g.flows.lookup (.fromPacket packet), 0 < old.length := by
        intro old hlookup
        obtain ⟨items, others, hperm, -⟩ := h.take hlookup
        have hheld := h.held _ (hperm.mem_iff.2 List.mem_cons_self)
        rw [hheld.length]
        have hpos := List.length_pos_iff.2 hheld.holds.ne_nil
        rwa [List.length_map] at hpos
      obtain ⟨⟨rows₁, g₁⟩, hadd⟩ := @add_ok checks texts label g packet hlong hpacket
      have hadds := adds_of_add hadd
      obtain ⟨hflow, hactivity⟩ := adds_timeouts hadds
      obtain ⟨closed₁, opened₁, h₁⟩ := h.add (n := n) hadds fun old hlookup hin => by
        have hfits := hpacket old hlookup
        rw [if_neg (Bool.eq_false_iff.1 hin)] at hfits
        exact gap_le hin hfits.1
      dsimp only at hrest
      rw [hadd] at hrest
      rw [← hflow, ← hactivity] at h₁ ⊢
      obtain ⟨rows₂, g₂, closed₂, opened₂, hall, hbalanced, hlast⟩ := ih h₁ hrest
      refine ⟨rows₁ ++ rows₂, g₂, closed₂, opened₂, ?_, ?_, hlast⟩
      · show (g.add checks texts packet label >>= _ : Outcome Empty _) = _
        rw [hadd, Outcome.ok_bind]
        dsimp only
        rw [hall]
        rfl
      · rw [List.append_cons, ← List.append_assoc]
        exact hbalanced

/-- The flows that are left become rows, or are discarded. -/
theorem completeAll_settled {seen : List Item} {flowTimeoutNs activityTimeoutNs : I64}
    {flows : List Flow} {opened : List OpenFlow}
    (h : List.Forall₂ (fun flow o => flow = OpenFlow.flow o) flows opened)
    (hheld : ∀ o ∈ opened, o.Held checks flowTimeoutNs activityTimeoutNs seen)
    (hfits : ∀ o ∈ opened, 1 < o.flow.length → o.flow.CloseFits checks) :
    ∃ accounts : List Account,
      (completeAll checks texts label flows : Outcome Empty _) =
        .ok (accounts.filterMap Account.row) ∧
      accounts.flatMap Account.items = opened.flatMap OpenFlow.items ∧
      ∀ account ∈ accounts,
        account.Settled checks texts label flowTimeoutNs activityTimeoutNs seen := by
  induction h with
  | nil => exact ⟨[], rfl, rfl, by simp⟩
  | @cons flow o flows opened hflow _ ih =>
      obtain ⟨accounts, hall, hitems, hsettled⟩ :=
        ih (fun o ho => hheld o (List.mem_cons_of_mem _ ho))
          fun o ho => hfits o (List.mem_cons_of_mem _ ho)
      obtain ⟨rows, hrows⟩ := @complete_ok checks texts label flow (by
        rw [hflow]
        exact hfits o List.mem_cons_self)
      obtain ⟨row, rfl, hrow⟩ := (hheld o List.mem_cons_self).settled (hflow ▸ hrows)
      refine ⟨⟨o.items, row⟩ :: accounts, ?_, ?_, ?_⟩
      · rw [completeAll, hrows, Outcome.ok_bind, hall]
        cases row <;> rfl
      · rw [List.flatMap_cons, List.flatMap_cons, hitems]
      · intro account ha
        rcases List.mem_cons.1 ha with rfl | ha
        · exact hrow
        · exact hsettled account ha

/-- **Packets are conserved.**  A run whose packets fit goes through, in any order
of the hash map, and every packet is counted in exactly one flow. -/
theorem run_conserves (checks : Bool) (texts : Texts) (label : String) (order : HashOrder)
    (flowTimeoutNs activityTimeoutNs : I64) (packets : List FlowPacket)
    (hfits : RunFits checks texts label (.new flowTimeoutNs activityTimeoutNs) packets) :
    ∃ rows, (run checks texts label order packets (.new flowTimeoutNs activityTimeoutNs) :
        Outcome Empty _) = .ok rows ∧
      Conserves checks texts label flowTimeoutNs activityTimeoutNs packets rows := by
  have hzip : packets.zipIdx.map Prod.fst = packets := List.zipIdx_map_fst ..
  have hnew : Balanced checks texts label flowTimeoutNs activityTimeoutNs [] []
      (FlowGenerator.new flowTimeoutNs activityTimeoutNs).flows [] [] :=
    ⟨.nil, .nil, rfl, by simp, by simp⟩
  obtain ⟨rows, g, closed, opened, hall, hbalanced, hlast⟩ :=
    addAll_balanced (g := .new flowTimeoutNs activityTimeoutNs) packets.zipIdx hnew (by rwa [hzip])
  rw [hzip] at hall
  rw [List.nil_append, List.nil_append] at hbalanced
  have hflows : (order.values g.flows).Perm (opened.map OpenFlow.flow) := by
    refine (order.perm g.flows).trans ?_
    have hentries := hbalanced.entries.map Sigma.snd
    rw [List.map_map] at hentries
    exact hentries.symm
  have hmatched : List.Forall₂ (fun flow o => flow = OpenFlow.flow o) (opened.map OpenFlow.flow)
      opened := by
    rw [List.forall₂_map_left_iff, List.forall₂_same]
    simp
  obtain ⟨opened', hforall, hperm⟩ := List.perm_comp_forall₂ hflows hmatched
  obtain ⟨accounts, hcomplete, hitems, hsettled⟩ := @completeAll_settled checks texts label _ _ _ _ _
    hforall (fun o ho => hbalanced.held o (hperm.mem_iff.1 ho)) fun o ho =>
      hlast o.entry (hbalanced.entries.mem_iff.1 (List.mem_map_of_mem (hperm.mem_iff.1 ho)))
  refine ⟨rows ++ (accounts.filterMap Account.row).mergeSort rowLe, ?_, closed ++ accounts, ?_, ?_, ?_⟩
  · rw [run, hall, Outcome.ok_bind]
    dsimp only
    rw [finish, hcomplete]
    rfl
  · rw [List.flatMap_append, hitems]
    exact ((hperm.flatMap_right OpenFlow.items).append_left _).trans hbalanced.conserved
  · rw [List.filterMap_append, hbalanced.rows]
    exact (List.mergeSort_perm _ _).symm.append_left rows
  · intro account ha
    rcases List.mem_append.1 ha with ha | ha
    · exact hbalanced.settled account ha
    · exact hsettled account ha

/-! ### Reachable states -/

/-- Every open flow is stored under the key of its packets, and has not seen a FIN in
both directions. -/
def Sound (g : FlowGenerator) : Prop :=
  ∀ e ∈ g.flows.entries, FlowKey.fromPacket e.2.first = e.1 ∧
    ¬((∃ sample ∈ e.2.forward, sample.flags.contains TcpFlags.FIN = true) ∧
      ∃ sample ∈ e.2.backward, sample.flags.contains TcpFlags.FIN = true)

/-- What is known of an entry of the hash map. -/
structure Stored (checks : Bool) (activityTimeoutNs : I64) (key : FlowKey) (flow : Flow) : Prop where
  holds : ∃ packets, Flow.Holds checks activityTimeoutNs packets flow
  key : FlowKey.fromPacket flow.first = key
  fins : flow.hasBothFin = false

/-- A call of `add_packet` keeps every flow of the table one that its packets made. -/
theorem adds_stored (hadds : Adds checks texts label g packet rows g')
    (h : ∀ e ∈ g.flows.entries, Stored checks g.activityTimeoutNs e.1 e.2) :
    ∀ e ∈ g'.flows.entries, Stored checks g'.activityTimeoutNs e.1 e.2 := by
  have herase : ∀ e ∈ (g.flows.erase (.fromPacket packet)).entries,
      Stored checks g.activityTimeoutNs e.1 e.2 := by
    intro e he
    exact h e ((List.kerase_sublist _ _).subset he)
  have hstart : ∀ flow, (Flow.new checks packet g.activityTimeoutNs : Outcome Empty Flow) = .ok flow →
      Stored checks g.activityTimeoutNs (.fromPacket packet) flow := by
    intro flow hnew
    obtain ⟨hfirst, -, -, hbackward, -⟩ := Flow.Holds.new_takes hnew
    refine ⟨⟨_, .new hnew⟩, by rw [hfirst], ?_⟩
    rw [Flow.hasBothFin, hbackward]
    exact Bool.and_false _
  cases hadds with
  | @starts flow hlookup hnew =>
      intro e he
      rw [Flows.entries_insert_erase] at he
      rcases List.mem_cons.1 he with rfl | he
      · exact hstart flow hnew
      · exact herase e he
  | @restarts old flow _ hlookup hout hrows hnew =>
      intro e he
      rw [Flows.entries_insert_erase] at he
      rcases List.mem_cons.1 he with rfl | he
      · exact hstart flow hnew
      · exact herase e he
  | @joins old flow hlookup hin hadd hrst hfin =>
      intro e he
      rw [Flows.entries_insert_erase] at he
      rcases List.mem_cons.1 he with rfl | he
      · have hold := h _ (AList.mem_lookup_iff.1 hlookup)
        obtain ⟨packets, hholds⟩ := hold.holds
        refine ⟨⟨_, .add hholds hadd⟩, ?_, hfin⟩
        rw [(Flow.add_takes hadd).first]
        exact hold.key
      · exact herase e he
  | closes => exact herase

/-- A table of such flows is sound. -/
theorem Stored.sound {activityTimeoutNs : I64}
    (h : ∀ e ∈ g.flows.entries, Stored checks activityTimeoutNs e.1 e.2) : g.Sound := by
  intro e he
  obtain ⟨⟨packets, hholds⟩, hkey, hfins⟩ := h e he
  refine ⟨hkey, ?_⟩
  rintro ⟨hforward, hbackward⟩
  rw [← List.any_eq_true] at hforward hbackward
  have hcount := hholds.fins (by rw [List.any_append, hforward]; rfl)
  rw [Flow.hasBothFin, hforward, hbackward, Bool.and_true, Bool.and_true, decide_eq_false_iff_not]
    at hfins
  exact hfins hcount

/-- A run of `add_packet` keeps every flow of the table one that its packets made. -/
theorem addAll_stored {packets : List FlowPacket}
    (h : ∀ e ∈ g.flows.entries, Stored checks g.activityTimeoutNs e.1 e.2)
    (hall : (g.addAll checks texts label packets : Outcome Empty _) = .ok (rows, g')) :
    ∀ e ∈ g'.flows.entries, Stored checks g'.activityTimeoutNs e.1 e.2 := by
  induction packets generalizing g rows with
  | nil =>
      cases hall
      exact h
  | cons packet packets ih =>
      obtain ⟨⟨rows₁, g₁⟩, hadd, hall⟩ := Outcome.bind_eq_ok.1 hall
      obtain ⟨⟨rows₂, g₂⟩, hrest, heq⟩ := Outcome.bind_eq_ok.1 hall
      cases heq
      exact ih (adds_stored (adds_of_add hadd) h) hrest

/-- **The generator conserves packets.**  A run whose packets fit counts every packet
in exactly one flow, whatever the order of the hash map; and in every state that
is reached, each open flow is stored under its own key and has not seen a FIN in
both directions. -/
theorem conserves_packets (checks : Bool) (texts : Texts) (label : String) (order : HashOrder)
    (flowTimeoutNs activityTimeoutNs : I64) (packets : List FlowPacket)
    (hfits : RunFits checks texts label (.new flowTimeoutNs activityTimeoutNs) packets) :
    (∃ rows, (run checks texts label order packets (.new flowTimeoutNs activityTimeoutNs) :
        Outcome Empty _) = .ok rows ∧
      Conserves checks texts label flowTimeoutNs activityTimeoutNs packets rows) ∧
    ∀ done rows g, ((new flowTimeoutNs activityTimeoutNs).addAll checks texts label done :
        Outcome Empty _) = .ok (rows, g) → g.Sound := by
  refine ⟨run_conserves checks texts label order flowTimeoutNs activityTimeoutNs packets hfits, ?_⟩
  intro done rows g hall
  exact Stored.sound (addAll_stored (by intro e he; cases he) hall)

/-- Packets of one connection, at these times and with one byte of payload each. -/
def packetsAt (times : List I64) : List FlowPacket :=
  times.map fun timestamp =>
    { timestamp, srcIp := .v4 0x0A000001, dstIp := .v4 0x0A000002, srcPort := 1234, dstPort := 80
      protocol := 6, payloadBytes := 1, headerBytes := 20, tcpFlags := TcpFlags.ACK
      tcpWindow := 4096 }

/-- Rows without texts. -/
def noTexts : Texts := ⟨fun _ => "", fun _ => ""⟩

/-- The flows in the order in which the model keeps them. -/
def HashOrder.entries : HashOrder := ⟨fun flows => flows.entries.map Sigma.snd, fun _ => .refl _⟩

/-- A flow of two packets, and its successor of one. -/
theorem conserves_packets_two : (∃ rows, (run true noTexts "" HashOrder.entries
      (packetsAt [I64.ofInt 0, I64.ofInt 10, I64.ofInt 100]) (.new (I64.ofInt 50) (I64.ofInt 5)) :
        Outcome Empty _) = .ok rows ∧ Conserves true noTexts "" (I64.ofInt 50) (I64.ofInt 5)
          (packetsAt [I64.ofInt 0, I64.ofInt 10, I64.ofInt 100]) rows) ∧
    ∀ done rows g, ((new (I64.ofInt 50) (I64.ofInt 5)).addAll true noTexts "" done :
      Outcome Empty _) = .ok (rows, g) → g.Sound :=
  conserves_packets true noTexts "" HashOrder.entries _ _ _ (by decide +kernel)

/-- Under the default timeouts, a clock that jumps back from the last to the first
`i64` makes the duration of a bulk overflow. -/
theorem clockJumpsBack_not_conserved : ¬∃ rows, (run true noTexts "" HashOrder.entries
      (packetsAt [I64.MAX, I64.MIN, I64.MIN, I64.MIN])
      (.new (I64.ofInt 120000000000) (I64.ofInt 5000000000)) : Outcome Empty _) = .ok rows ∧
    Conserves true noTexts "" (I64.ofInt 120000000000) (I64.ofInt 5000000000)
      (packetsAt [I64.MAX, I64.MIN, I64.MIN, I64.MIN]) rows := by
  rintro ⟨rows, hrun, -⟩
  have hpanics : (run true noTexts "" HashOrder.entries
      (packetsAt [I64.MAX, I64.MIN, I64.MIN, I64.MIN])
      (.new (I64.ofInt 120000000000) (I64.ofInt 5000000000)) : Outcome Empty _) = .panic := by
    decide +kernel
  rw [hpanics] at hrun
  cases hrun

end FlowGenerator

end Cicflowmeter
end Maja
