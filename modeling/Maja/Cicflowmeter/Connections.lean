/-
# The flows of a connection

The packets of one key, in the order of the capture, are cut into flows: a packet goes
on with the last flow unless that one is closed or the flow timeout is over
(`flowsOf`).  `FlowGenerator` agrees with it, key by key: the open flow of a key is its
last one (`Follows`), and the rows of a key are those of its flows of more than one
packet, in this order (`run_rows`), whatever the order of the hash map.
-/

import Maja.Cicflowmeter.Columns
import Maja.Cicflowmeter.Conservation

namespace Maja
namespace Cicflowmeter

open Lib Net

/-- The connection of a row. -/
def FlowFeatures.key (row : FlowFeatures) : FlowKey :=
  let left : Endpoint := (row.srcIp, row.srcPort)
  let right : Endpoint := (row.dstIp, row.dstPort)
  if left.le right then ⟨left.1, left.2, right.1, right.2, row.protocol⟩
  else ⟨right.1, right.2, left.1, left.2, row.protocol⟩

/-- The packets of a connection. -/
def ofKey (key : FlowKey) (packets : List FlowPacket) : List FlowPacket :=
  packets.filter (FlowKey.fromPacket · = key)

/-- The last packet of the flow closes it: it is an RST and not the first packet, or
both sides have sent a FIN. -/
def closed (flow : List FlowPacket) : Bool :=
  1 < flow.length && (flow.getLast?.any (·.tcpFlags.contains TcpFlags.RST) ||
    flow.head?.any fun first =>
      (Flow.forwards first flow).any FlowPacket.fin &&
        (Flow.backwards first flow).any FlowPacket.fin)

/-- The packet goes on with the flow. -/
def goesOn (flowTimeoutNs : I64) (flow : List FlowPacket) (packet : FlowPacket) : Bool :=
  !closed flow && flow.getLast?.all fun last => !(flowTimeoutNs < Flow.gap last packet)

/-- The flows of a connection. -/
def flowsOf (flowTimeoutNs : I64) (key : FlowKey) (packets : List FlowPacket) :
    List (List FlowPacket) :=
  runs (goesOn flowTimeoutNs) (ofKey key packets)

/-- The rows of flows: those of more than one packet have one. -/
def rowsOf (texts : Texts) (label : String) (activityTimeoutNs : I64)
    (flows : List (List FlowPacket)) : List FlowFeatures :=
  (flows.filter (1 < ·.length)).filterMap fun flow =>
    flow.head?.map fun first => rowOf texts label activityTimeoutNs first flow

/-- The flows that are over: all but the last one, which may be open. -/
def finished (flows : List (List FlowPacket)) : List (List FlowPacket) :=
  flows.dropLast ++ (flows.getLast?.filter closed).toList

/-- The flow as it is kept while it is open. -/
def held (activityTimeoutNs : I64) (flow : List FlowPacket) : Option Flow :=
  if closed flow then none
  else flow.head?.map fun first => .flowOf activityTimeoutNs first flow

section Flows

variable {checks : Bool} {texts : Texts} {label : String} {flowTimeoutNs activityTimeoutNs : I64}
  {key : FlowKey} {packets flow : List FlowPacket} {packet first : FlowPacket}
  {flows : List (List FlowPacket)} {rows : List FlowFeatures}

/-- One more packet of a connection goes on with its last flow or starts another. -/
theorem flowsOf_concat : flowsOf flowTimeoutNs (.fromPacket packet) (packets ++ [packet]) =
    pushRun (goesOn flowTimeoutNs) (flowsOf flowTimeoutNs (.fromPacket packet) packets) packet := by
  rw [flowsOf, ofKey, List.filter_append, List.filter_singleton, decide_eq_true rfl]
  exact runs_concat

/-- A packet of another connection. -/
theorem flowsOf_concat_ne (h : FlowKey.fromPacket packet ≠ key) :
    flowsOf flowTimeoutNs key (packets ++ [packet]) = flowsOf flowTimeoutNs key packets := by
  rw [flowsOf, ofKey, List.filter_append, List.filter_singleton, decide_eq_false h]
  exact congrArg _ (List.append_nil _)

/-- The packets of a flow are of its connection. -/
theorem key_of_mem_flowsOf (hflow : flow ∈ flowsOf flowTimeoutNs key packets) (hp : packet ∈ flow) :
    FlowKey.fromPacket packet = key := by
  have hmem : packet ∈ ofKey key packets := by
    rw [← flatten_runs (goesOn flowTimeoutNs) (ofKey key packets)]
    exact List.mem_flatten.2 ⟨flow, hflow, hp⟩
  simpa using (List.mem_filter.1 hmem).2

/-- One more flow is finished when it is closed. -/
theorem finished_concat : finished (flows ++ [flow]) =
    flows ++ if closed flow then [flow] else [] := by
  rw [finished, List.dropLast_concat, List.getLast?_concat, Option.filter_some]
  split_ifs <;> rfl

/-- A finished flow is one of the flows. -/
theorem mem_of_mem_finished (h : flow ∈ finished flows) : flow ∈ flows := by
  rcases List.mem_append.1 h with h | h
  · exact List.mem_of_mem_dropLast h
  · exact List.mem_of_getLast? (Option.filter_eq_some_iff.1 (Option.mem_toList.1 h)).1

/-- The rows of flows, and of flows behind them. -/
theorem rowsOf_append {flows' : List (List FlowPacket)} :
    rowsOf texts label activityTimeoutNs (flows ++ flows') =
      rowsOf texts label activityTimeoutNs flows ++
        rowsOf texts label activityTimeoutNs flows' := by
  rw [rowsOf, List.filter_append, List.filterMap_append]
  rfl

/-- A flow has a row when it has more than one packet. -/
theorem rowsOf_singleton (hfirst : flow.head? = some first) :
    rowsOf texts label activityTimeoutNs [flow] =
      if 1 < flow.length then [rowOf texts label activityTimeoutNs first flow] else [] := by
  rw [rowsOf, List.filter_singleton]
  by_cases hlength : 1 < flow.length
  · rw [if_pos hlength, decide_eq_true hlength]
    simp [hfirst]
  · rw [if_neg hlength, decide_eq_false hlength]
    rfl

/-- The rows of a connection carry its key. -/
theorem key_of_mem_rowsOf {row : FlowFeatures}
    (hkeys : ∀ flow ∈ flows, ∀ p ∈ flow, FlowKey.fromPacket p = key)
    (h : row ∈ rowsOf texts label activityTimeoutNs flows) : row.key = key := by
  obtain ⟨flow, hflow, hrow⟩ := List.mem_filterMap.1 h
  obtain ⟨first, hfirst, rfl⟩ := Option.map_eq_some_iff.1 hrow
  exact hkeys flow (List.mem_filter.1 hflow).1 first (List.mem_of_head? hfirst)

/-- The flow of a list of packets is as long as the list. -/
theorem length_flowOf : (Flow.flowOf activityTimeoutNs first flow).length = flow.length := by
  rw [Flow.length, Flow.flowOf, List.length_map, List.length_map, Flow.forwards, Flow.backwards]
  induction flow with
  | nil => rfl
  | cons p flow ih =>
    rw [List.filter_cons, List.filter_cons]
    cases Flow.goesForward first p <;> simp <;> omega

/-- A flow that is completed gives its row. -/
theorem rows_of_complete (hfirst : flow.head? = some first)
    (h : (FlowGenerator.complete checks texts (.flowOf activityTimeoutNs first flow) label :
      Outcome Empty _) = .ok rows) : rows = rowsOf texts label activityTimeoutNs [flow] := by
  rw [rowsOf_singleton hfirst]
  obtain ⟨hlength, row, hrow, rfl⟩ | ⟨hlength, rfl⟩ := FlowGenerator.complete_cases h
  · rw [length_flowOf] at hlength
    have hne : flow ≠ [] := by
      rintro rfl
      cases hfirst
    rw [if_pos hlength, rowOf_of_finish hne hrow]
  · rw [length_flowOf] at hlength
    rw [if_neg hlength]

/-- The FINs of the packets. -/
theorem hasBothFin_flowOf : (Flow.flowOf activityTimeoutNs first flow).hasBothFin =
    ((Flow.forwards first flow).any FlowPacket.fin &&
      (Flow.backwards first flow).any FlowPacket.fin) := by
  have hcount : (Flow.flowOf activityTimeoutNs first flow).finCount =
      flow.countP FlowPacket.fin := by
    rw [Flow.finCount, Flow.flowOf, Vector.getElem_map]
    rfl
  have hforward : (Flow.flowOf activityTimeoutNs first flow).forward.any
      (·.flags.contains TcpFlags.FIN) = (Flow.forwards first flow).any FlowPacket.fin :=
    List.any_map
  have hbackward : (Flow.flowOf activityTimeoutNs first flow).backward.any
      (·.flags.contains TcpFlags.FIN) = (Flow.backwards first flow).any FlowPacket.fin :=
    List.any_map
  rw [Flow.hasBothFin, hcount, hforward, hbackward]
  cases hany : (Flow.forwards first flow).any FlowPacket.fin with
  | false => rw [Bool.and_false]
  | true =>
    obtain ⟨p, hp, hfin⟩ := List.any_eq_true.1 hany
    have hpos : 0 < flow.countP FlowPacket.fin :=
      List.countP_pos_iff.2 ⟨p, (List.mem_filter.1 hp).1, hfin⟩
    rw [decide_eq_true hpos, Bool.true_and]

/-- What closes a flow that goes on. -/
theorem closed_concat (hfirst : flow.head? = some first) : closed (flow ++ [packet]) =
    (packet.tcpFlags.contains TcpFlags.RST ||
      (Flow.flowOf activityTimeoutNs first (flow ++ [packet])).hasBothFin) := by
  have hne : flow ≠ [] := by
    rintro rfl
    cases hfirst
  have hlength : 1 < (flow ++ [packet]).length := by
    have hpos := List.length_pos_iff.2 hne
    rw [List.length_append, List.length_singleton]
    omega
  rw [closed, hasBothFin_flowOf, decide_eq_true hlength, List.getLast?_concat,
    List.head?_append_of_ne_nil _ hne, hfirst, Option.any_some, Option.any_some, Bool.true_and]

/-- One packet does not close a flow. -/
theorem not_closed_singleton : closed [packet] = false := rfl

end Flows

/-! ### One packet -/

namespace FlowGenerator

section Step

variable {checks : Bool} {texts : Texts} {label : String} {g g' : FlowGenerator}
  {seen packets : List FlowPacket} {packet : FlowPacket} {rows rows' : List FlowFeatures}

/-- The generator has followed every connection: its last flow is open in the hash
map, and those that are over are rows. -/
structure Follows (texts : Texts) (label : String) (seen : List FlowPacket)
    (rows : List FlowFeatures) (g : FlowGenerator) : Prop where
  lookup : ∀ key, g.flows.lookup key =
    (flowsOf g.flowTimeoutNs key seen).getLast?.bind (held g.activityTimeoutNs)
  rows : ∀ key, rows.filter (·.key = key) =
    rowsOf texts label g.activityTimeoutNs (finished (flowsOf g.flowTimeoutNs key seen))

/-- The connection of a packet after the packet: its open flow, and its new rows. -/
structure Advances (texts : Texts) (label : String) (g : FlowGenerator) (seen : List FlowPacket)
    (packet : FlowPacket) (rows : List FlowFeatures) (flow? : Option Flow) : Prop where
  lookup : flow? = (flowsOf g.flowTimeoutNs (.fromPacket packet) (seen ++ [packet])).getLast?.bind
    (held g.activityTimeoutNs)
  rows : ∃ ended, finished (flowsOf g.flowTimeoutNs (.fromPacket packet) (seen ++ [packet])) =
      finished (flowsOf g.flowTimeoutNs (.fromPacket packet) seen) ++ ended ∧
    rows = rowsOf texts label g.activityTimeoutNs ended

/-- A packet that starts a flow. -/
theorem advances_new {flow : Flow} (ended : List (List FlowPacket))
    (hnew : (Flow.new checks packet g.activityTimeoutNs : Outcome Empty Flow) = .ok flow)
    (hends : ∀ last ∈ (flowsOf g.flowTimeoutNs (.fromPacket packet) seen).getLast?,
      goesOn g.flowTimeoutNs last packet = false)
    (hover : flowsOf g.flowTimeoutNs (.fromPacket packet) seen =
      finished (flowsOf g.flowTimeoutNs (.fromPacket packet) seen) ++ ended) :
    Advances texts label g seen packet (rowsOf texts label g.activityTimeoutNs ended)
      (some flow) := by
  have hflows : flowsOf g.flowTimeoutNs (.fromPacket packet) (seen ++ [packet]) =
      flowsOf g.flowTimeoutNs (.fromPacket packet) seen ++ [[packet]] := by
    rw [flowsOf_concat, pushRun_of_not_continues hends]
  refine ⟨?_, ended, ?_, rfl⟩
  · rw [hflows, List.getLast?_concat, Option.bind_some, Flow.new_eq_flowOf hnew]
    rfl
  · rw [hflows, finished_concat, not_closed_singleton, if_neg Bool.false_ne_true, List.append_nil]
    exact hover

/-- A connection without an open flow has only flows that are over. -/
theorem Follows.all_ended {key : FlowKey} (h : Follows texts label seen rows g)
    (hlookup : g.flows.lookup key = none) :
    (∀ last ∈ (flowsOf g.flowTimeoutNs key seen).getLast?, closed last = true) ∧
      finished (flowsOf g.flowTimeoutNs key seen) = flowsOf g.flowTimeoutNs key seen := by
  have hends : ∀ last ∈ (flowsOf g.flowTimeoutNs key seen).getLast?, closed last = true := by
    intro last hlast
    have hheld := h.lookup key
    rw [hlookup, Option.mem_def.1 hlast, Option.bind_some, held] at hheld
    by_contra hopen
    rw [if_neg hopen] at hheld
    have hnil := List.head?_eq_none_iff.1 (Option.map_eq_none_iff.1 hheld.symm)
    exact ne_nil_of_mem_runs (List.mem_of_getLast? hlast) hnil
  refine ⟨hends, ?_⟩
  cases hlast : (flowsOf g.flowTimeoutNs key seen).getLast? with
  | none =>
    rw [List.getLast?_eq_none_iff.1 hlast]
    rfl
  | some last =>
    obtain ⟨front, hflows⟩ := List.getLast?_eq_some_iff.1 hlast
    rw [hflows, finished_concat, hends last hlast, if_pos rfl]

/-- What is known of the open flow of a key. -/
theorem Follows.open {key : FlowKey} {old : Flow} (h : Follows texts label seen rows g)
    (hlookup : g.flows.lookup key = some old) : ∃ front flow first last,
      flowsOf g.flowTimeoutNs key seen = front ++ [flow] ∧ closed flow = false ∧
        flow.head? = some first ∧ flow.getLast? = some last ∧
        old = .flowOf g.activityTimeoutNs first flow ∧ old.lastTimestamp = last.timestamp := by
  have hheld := h.lookup key
  rw [hlookup] at hheld
  obtain ⟨flow, hlast, hold⟩ := Option.bind_eq_some_iff.1 hheld.symm
  obtain ⟨front, hflows⟩ := List.getLast?_eq_some_iff.1 hlast
  rw [held] at hold
  split_ifs at hold with hclosed
  obtain ⟨first, hfirst, rfl⟩ := Option.map_eq_some_iff.1 hold
  have hne : flow ≠ [] := by
    rintro rfl
    cases hfirst
  refine ⟨front, flow, first, flow.getLast hne, hflows, Bool.eq_false_iff.2 hclosed, hfirst,
    List.getLast?_eq_some_getLast hne, rfl, ?_⟩
  rw [Flow.flowOf, List.getLast?_eq_some_getLast hne]
  rfl

/-- A packet that goes on with the open flow. -/
theorem Follows.goes_on {old flow : Flow} (h : Follows texts label seen rows g)
    (hlookup : g.flows.lookup (.fromPacket packet) = some old) (hin : g.timedOut old packet = false)
    (hadd : (old.add checks packet : Outcome Empty Flow) = .ok flow) : ∃ front last first,
      flowsOf g.flowTimeoutNs (.fromPacket packet) seen = front ++ [last] ∧ closed last = false ∧
        (last ++ [packet]).head? = some first ∧
        flow = .flowOf g.activityTimeoutNs first (last ++ [packet]) ∧
        closed (last ++ [packet]) =
          (packet.tcpFlags.contains TcpFlags.RST || flow.hasBothFin) ∧
        flowsOf g.flowTimeoutNs (.fromPacket packet) (seen ++ [packet]) =
          front ++ [last ++ [packet]] := by
  obtain ⟨front, last, first, lastPacket, hflows, hopen, hfirst, hlast, rfl, htime⟩ :=
    h.open hlookup
  have hfirst' : (last ++ [packet]).head? = some first := by
    rw [List.head?_append, hfirst, Option.some_or]
  obtain rfl := Flow.add_flowOf hfirst' hadd
  refine ⟨front, last, first, hflows, hopen, hfirst', rfl, closed_concat hfirst, ?_⟩
  rw [flowsOf_concat, hflows]
  refine pushRun_of_continues ?_
  rw [timedOut, htime] at hin
  rw [goesOn, hopen, hlast, Option.all_some, Flow.gap, hin]
  rfl

/-- **A packet advances its connection.** -/
theorem Follows.advances (h : Follows texts label seen rows g)
    (hadds : Adds checks texts label g packet rows' g') :
    Advances texts label g seen packet rows' (g'.flows.lookup (.fromPacket packet)) := by
  cases hadds with
  | @starts flow hlookup hnew =>
    obtain ⟨hends, hover⟩ := h.all_ended hlookup
    rw [AList.lookup_insert]
    refine advances_new [] hnew ?_ (by rw [hover, List.append_nil])
    intro last hlast
    rw [goesOn, hends last hlast]
    rfl
  | @restarts old flow _ hlookup hout hrows hnew =>
    obtain ⟨front, last, first, lastPacket, hflows, hopen, hfirst, hlast, rfl, htime⟩ :=
      h.open hlookup
    obtain rfl := rows_of_complete hfirst hrows
    rw [AList.lookup_insert]
    refine advances_new [last] hnew ?_ ?_
    · rw [hflows, List.getLast?_concat]
      rintro _ ⟨⟩
      rw [goesOn, hopen, hlast]
      rw [timedOut, htime] at hout
      show (true && !decide (g.flowTimeoutNs < Flow.gap lastPacket packet)) = false
      rw [Flow.gap, hout]
      rfl
    · rw [hflows, finished_concat, hopen, if_neg Bool.false_ne_true, List.append_nil]
  | @joins old flow hlookup hin hadd hrst hfin =>
    obtain ⟨front, last, first, hflows, hopen, hfirst, rfl, hclosed, hflows'⟩ :=
      h.goes_on hlookup hin hadd
    rw [hrst, hfin] at hclosed
    rw [AList.lookup_insert]
    refine ⟨?_, [], ?_, rfl⟩
    · rw [hflows', List.getLast?_concat, Option.bind_some, held, hclosed, hfirst]
      rfl
    · rw [hflows', hflows, finished_concat, finished_concat, hclosed, hopen]
      simp
  | @closes old flow _ hlookup hin hadd hends hrows =>
    obtain ⟨front, last, first, hflows, hopen, hfirst, rfl, hclosed, hflows'⟩ :=
      h.goes_on hlookup hin hadd
    rw [Bool.or_eq_true_iff.2 hends] at hclosed
    obtain rfl := rows_of_complete hfirst hrows
    rw [AList.lookup_erase]
    refine ⟨?_, [last ++ [packet]], ?_, rfl⟩
    · rw [hflows', List.getLast?_concat, Option.bind_some, held, hclosed]
      rfl
    · rw [hflows', hflows, finished_concat, finished_concat, hclosed, hopen]
      simp

/-- Another connection is left alone. -/
theorem lookup_of_adds_ne {key : FlowKey} (hadds : Adds checks texts label g packet rows' g')
    (hne : key ≠ .fromPacket packet) : g'.flows.lookup key = g.flows.lookup key := by
  cases hadds with
  | starts => rw [AList.lookup_insert_ne hne, AList.lookup_erase_ne hne]
  | restarts => rw [AList.lookup_insert_ne hne, AList.lookup_erase_ne hne]
  | joins => rw [AList.lookup_insert_ne hne, AList.lookup_erase_ne hne]
  | closes => rw [AList.lookup_erase_ne hne]

/-- A call of `add_packet` keeps the table and the rows on the connections: what it
writes is the flow of its connection that ends with the packet. -/
theorem Follows.add (h : Follows texts label seen rows g)
    (hadds : Adds checks texts label g packet rows' g') :
    Follows texts label (seen ++ [packet]) (rows ++ rows') g' := by
  obtain ⟨hflow, hactivity⟩ := adds_timeouts hadds
  obtain ⟨hlookup, ended, hfinished, hrows⟩ := h.advances hadds
  have hkeys : ∀ row ∈ rows', row.key = .fromPacket packet := by
    intro row hrow
    rw [hrows] at hrow
    refine key_of_mem_rowsOf ?_ hrow
    intro flow hflow p hp
    have hmem : flow ∈ finished
        (flowsOf g.flowTimeoutNs (FlowKey.fromPacket packet) (seen ++ [packet])) := by
      rw [hfinished]
      exact List.mem_append_right _ hflow
    exact key_of_mem_flowsOf (mem_of_mem_finished hmem) hp
  constructor
  · intro key
    rw [hflow, hactivity]
    by_cases hkey : key = .fromPacket packet
    · rw [hkey]
      exact hlookup
    · rw [lookup_of_adds_ne hadds hkey, flowsOf_concat_ne (Ne.symm hkey)]
      exact h.lookup key
  · intro key
    rw [hflow, hactivity, List.filter_append, h.rows]
    by_cases hkey : key = .fromPacket packet
    · rw [hkey, hfinished, rowsOf_append, ← hrows, List.filter_eq_self.2]
      intro row hrow
      rw [hkeys row hrow, decide_eq_true rfl]
    · rw [flowsOf_concat_ne (Ne.symm hkey), List.filter_eq_nil_iff.2, List.append_nil]
      intro row hrow
      rw [hkeys row hrow, decide_eq_true_eq]
      exact Ne.symm hkey

/-- **A run of `add_packet`** keeps the table and the rows on the connections of all
packets that were added. -/
theorem Follows.addAll (h : Follows texts label seen rows g)
    (hall : (g.addAll checks texts label packets : Outcome Empty _) = .ok (rows', g')) :
    Follows texts label (seen ++ packets) (rows ++ rows') g' := by
  induction packets generalizing g seen rows rows' with
  | nil =>
    cases hall
    rw [List.append_nil, List.append_nil]
    exact h
  | cons packet packets ih =>
    obtain ⟨⟨rows₁, g₁⟩, hadd, hall⟩ := Outcome.bind_eq_ok.1 hall
    obtain ⟨⟨rows₂, g₂⟩, hrest, heq⟩ := Outcome.bind_eq_ok.1 hall
    cases heq
    have hrest' := ih (h.add (adds_of_add hadd)) hrest
    rwa [List.append_assoc, List.singleton_append, List.append_assoc] at hrest'

/-- A run of `add_packet` keeps the timeouts. -/
theorem addAll_timeouts
    (hall : (g.addAll checks texts label packets : Outcome Empty _) = .ok (rows', g')) :
    g'.flowTimeoutNs = g.flowTimeoutNs ∧ g'.activityTimeoutNs = g.activityTimeoutNs := by
  induction packets generalizing g rows' with
  | nil =>
    cases hall
    exact ⟨rfl, rfl⟩
  | cons packet packets ih =>
    obtain ⟨⟨rows₁, g₁⟩, hadd, hall⟩ := Outcome.bind_eq_ok.1 hall
    obtain ⟨⟨rows₂, g₂⟩, hrest, heq⟩ := Outcome.bind_eq_ok.1 hall
    cases heq
    obtain ⟨hflow, hactivity⟩ := adds_timeouts (adds_of_add hadd)
    obtain ⟨hflow', hactivity'⟩ := ih hrest
    exact ⟨hflow'.trans hflow, hactivity'.trans hactivity⟩

/-- A new generator has seen nothing. -/
theorem follows_new (texts : Texts) (label : String) (flowTimeoutNs activityTimeoutNs : I64) :
    Follows texts label [] [] (new flowTimeoutNs activityTimeoutNs) :=
  ⟨fun _ => rfl, fun _ => rfl⟩

end Step

/-! ### The flows that are left -/

section Finish

variable {checks : Bool} {texts : Texts} {label : String} {g : FlowGenerator}
  {packets : List FlowPacket} {rows last : List FlowFeatures}

/-- The rows that completing a flow returns. -/
def completedRows (checks : Bool) (texts : Texts) (label : String) (flow : Flow) :
    List FlowFeatures :=
  match (complete checks texts flow label : Outcome Empty _) with
  | .ok rows => rows
  | _ => []

/-- The rows of all flows are those of each. -/
theorem completeAll_eq {flows : List Flow}
    (h : (completeAll checks texts label flows : Outcome Empty _) = .ok rows) :
    rows = flows.flatMap (completedRows checks texts label) ∧ ∀ flow ∈ flows,
      (complete checks texts flow label : Outcome Empty _) =
        .ok (completedRows checks texts label flow) := by
  induction flows generalizing rows with
  | nil =>
    cases h
    exact ⟨rfl, by simp⟩
  | cons flow flows ih =>
    obtain ⟨rows₁, hrows, h⟩ := Outcome.bind_eq_ok.1 h
    obtain ⟨rest, hrest, h⟩ := Outcome.bind_eq_ok.1 h
    cases h
    obtain ⟨rfl, hall⟩ := ih hrest
    have hcompleted : completedRows checks texts label flow = rows₁ := by
      rw [completedRows, hrows]
    rw [List.flatMap_cons, hcompleted]
    refine ⟨rfl, ?_⟩
    rintro flow' hflow'
    rcases List.mem_cons.1 hflow' with rfl | hflow'
    · rw [hrows, hcompleted]
    · exact hall flow' hflow'

/-- What completing the open flow of a connection gives. -/
theorem Follows.completed {key : FlowKey} {flow : Flow} (h : Follows texts label packets rows g)
    (hlookup : g.flows.lookup key = some flow)
    (hok : (complete checks texts flow label : Outcome Empty _) =
      .ok (completedRows checks texts label flow)) :
    ∃ front group, flowsOf g.flowTimeoutNs key packets = front ++ [group] ∧
      closed group = false ∧
      completedRows checks texts label flow = rowsOf texts label g.activityTimeoutNs [group] ∧
      ∀ row ∈ completedRows checks texts label flow, row.key = key := by
  obtain ⟨front, group, first, last, hflows, hopen, hfirst, -, rfl, -⟩ := h.open hlookup
  have hrows := rows_of_complete hfirst hok
  refine ⟨front, group, hflows, hopen, hrows, ?_⟩
  intro row hrow
  rw [hrows] at hrow
  refine key_of_mem_rowsOf ?_ hrow
  intro flow hflow p hp
  obtain rfl := List.mem_singleton.1 hflow
  exact key_of_mem_flowsOf (hflows ▸ List.mem_append_right front List.mem_cons_self) hp

/-- The rows of one connection among those of all open flows. -/
theorem Follows.filter_completed (order : HashOrder) (h : Follows texts label packets rows g)
    (hlast : (completeAll checks texts label (order.values g.flows) : Outcome Empty _) = .ok last)
    (key : FlowKey) : (last.filter (·.key = key)).Perm
      ((g.flows.lookup key).toList.flatMap (completedRows checks texts label)) := by
  obtain ⟨rfl, hall⟩ := completeAll_eq hlast
  have hperm := order.perm g.flows
  have hothers : ∀ e ∈ (g.flows.erase key).entries,
      (completedRows checks texts label e.2).filter (·.key = key) = [] := by
    intro e he
    have hmem : e ∈ g.flows.entries := (List.kerase_sublist _ _).subset he
    have hkey : e.1 ≠ key := by
      rintro rfl
      exact (AList.mem_erase (s := g.flows).1 (List.mem_keys_of_mem he)).1 rfl
    obtain ⟨-, -, -, -, -, hkeys⟩ := h.completed (AList.mem_lookup_iff.2 hmem)
      (hall e.2 (hperm.mem_iff.2 (List.mem_map_of_mem hmem)))
    rw [List.filter_eq_nil_iff]
    intro row hrow
    rw [hkeys row hrow, decide_eq_true_eq]
    exact hkey
  have hrest : (((g.flows.erase key).entries.map Sigma.snd).flatMap
      (completedRows checks texts label)).filter (·.key = key) = [] := by
    rw [List.filter_flatMap, List.flatMap_map, List.flatMap_eq_nil_iff]
    exact hothers
  refine ((hperm.flatMap_right _).filter _).trans ?_
  cases hlookup : g.flows.lookup key with
  | none =>
    rw [← Flows.entries_of_lookup_none hlookup, hrest]
    exact .nil
  | some flow =>
    have hentries := Flows.entries_of_lookup hlookup
    have hmem : flow ∈ order.values g.flows :=
      hperm.mem_iff.2 (List.mem_map.2 ⟨_, AList.mem_lookup_iff.1 hlookup, rfl⟩)
    obtain ⟨-, -, -, -, -, hkeys⟩ := h.completed hlookup (hall flow hmem)
    refine (((hentries.map Sigma.snd).flatMap_right _).filter _).trans ?_
    rw [List.map_cons, List.flatMap_cons, List.filter_append, hrest, List.append_nil,
      List.filter_eq_self.2 fun row hrow => by rw [hkeys row hrow, decide_eq_true rfl]]
    simp

/-- The rows of a connection, once all flows are finished. -/
theorem Follows.finish (order : HashOrder) (h : Follows texts label packets rows g)
    (hfinish : (finish checks texts (order.values g.flows) label : Outcome Empty _) = .ok last)
    (key : FlowKey) : (rows ++ last).filter (·.key = key) =
      rowsOf texts label g.activityTimeoutNs (flowsOf g.flowTimeoutNs key packets) := by
  obtain ⟨left, hleft, hsorted⟩ := Outcome.bind_eq_ok.1 hfinish
  cases hsorted
  have hperm : ((left.mergeSort rowLe).filter (·.key = key)).Perm
      ((g.flows.lookup key).toList.flatMap (completedRows checks texts label)) :=
    ((List.mergeSort_perm left rowLe).filter _).trans (h.filter_completed order hleft key)
  rw [List.filter_append, h.rows]
  cases hlookup : g.flows.lookup key with
  | none =>
    rw [hlookup] at hperm
    obtain ⟨-, hover⟩ := h.all_ended hlookup
    rw [List.perm_nil.1 hperm, List.append_nil, hover]
  | some flow =>
    have hmem : flow ∈ order.values g.flows := (order.perm g.flows).mem_iff.2
      (List.mem_map.2 ⟨_, AList.mem_lookup_iff.1 hlookup, rfl⟩)
    obtain ⟨front, group, hflows, hopen, hcompleted, -⟩ :=
      h.completed hlookup ((completeAll_eq hleft).2 flow hmem)
    rw [hlookup, Option.toList_some, List.flatMap_singleton, hcompleted] at hperm
    -- a connection has one open flow at most
    have hone : (left.mergeSort rowLe).filter (·.key = key) =
        rowsOf texts label g.activityTimeoutNs [group] := by
      have hshort : (rowsOf texts label g.activityTimeoutNs [group]).length ≤ 1 := by
        rw [rowsOf]
        exact (List.length_filterMap_le _ _).trans (List.length_filter_le _ _)
      cases hrow : rowsOf texts label g.activityTimeoutNs [group] with
      | nil => exact List.perm_nil.1 (hrow ▸ hperm)
      | cons row rest =>
        rw [hrow, List.length_cons] at hshort
        obtain rfl := List.length_eq_zero_iff.1 (Nat.le_zero.1 (Nat.le_of_succ_le_succ hshort))
        exact List.perm_singleton.1 (hrow ▸ hperm)
    rw [hone, hflows, finished_concat, hopen, if_neg Bool.false_ne_true, List.append_nil,
      rowsOf_append]

/-- A run follows every connection, and finishes the flows that are left. -/
theorem exists_follows {order : HashOrder} {flowTimeoutNs activityTimeoutNs : I64}
    (h : (run checks texts label order packets (.new flowTimeoutNs activityTimeoutNs) :
      Outcome Empty _) = .ok rows) : ∃ early g last, rows = early ++ last ∧
        Follows texts label packets early g ∧ g.flowTimeoutNs = flowTimeoutNs ∧
        g.activityTimeoutNs = activityTimeoutNs ∧
        (finish checks texts (order.values g.flows) label : Outcome Empty _) = .ok last := by
  obtain ⟨⟨early, g⟩, hall, h⟩ := Outcome.bind_eq_ok.1 h
  obtain ⟨last, hfinish, h⟩ := Outcome.bind_eq_ok.1 h
  cases h
  obtain ⟨hflow, hactivity⟩ := addAll_timeouts hall
  exact ⟨early, g, last, rfl, (follows_new texts label flowTimeoutNs activityTimeoutNs).addAll hall,
    hflow, hactivity, hfinish⟩

/-- A row is that of a flow of more than one packet. -/
theorem exists_flow_of_mem {order : HashOrder} {flowTimeoutNs activityTimeoutNs : I64}
    {row : FlowFeatures}
    (h : (run checks texts label order packets (.new flowTimeoutNs activityTimeoutNs) :
      Outcome Empty _) = .ok rows) (hrow : row ∈ rows) : ∃ flow first, flow.Sublist packets ∧
        1 < flow.length ∧ flow.head? = some first ∧
        row = rowOf texts label activityTimeoutNs first flow := by
  obtain ⟨early, g, last, rfl, hfollows, rfl, rfl, hfinish⟩ := exists_follows h
  have hmem : row ∈ (early ++ last).filter (·.key = row.key) :=
    List.mem_filter.2 ⟨hrow, decide_eq_true rfl⟩
  rw [hfollows.finish order hfinish] at hmem
  obtain ⟨flow, hflow, hsome⟩ := List.mem_filterMap.1 hmem
  obtain ⟨first, hfirst, rfl⟩ := Option.map_eq_some_iff.1 hsome
  obtain ⟨hflow, hlength⟩ := List.mem_filter.1 hflow
  refine ⟨flow, first, ?_, by simpa using hlength, hfirst, rfl⟩
  exact (sublist_of_mem_runs hflow).trans List.filter_sublist

/-- **The rows of a connection are those of its flows**: in the order of the capture,
each flow of more than one packet has its row, whose columns are those of its packets,
and nothing else has one.  The order of the hash map does not matter. -/
theorem run_rows (checks : Bool) (texts : Texts) (label : String) (order : HashOrder)
    (flowTimeoutNs activityTimeoutNs : I64) (packets : List FlowPacket)
    {rows : List FlowFeatures}
    (h : (run checks texts label order packets (.new flowTimeoutNs activityTimeoutNs) :
      Outcome Empty _) = .ok rows) (key : FlowKey) :
    rows.filter (·.key = key) =
      rowsOf texts label activityTimeoutNs (flowsOf flowTimeoutNs key packets) := by
  obtain ⟨early, g, last, rfl, hfollows, rfl, rfl, hfinish⟩ := exists_follows h
  exact hfollows.finish order hfinish key

/-- Two flows of a connection, of which the second one has a single packet. -/
theorem run_rows_timeout :
    (rowsOf noTexts "" (I64.ofInt 5) [packetsAt [I64.ofInt 0, I64.ofInt 10]]).filter
        (·.key = ⟨.v4 0x0A000001, 1234, .v4 0x0A000002, 80, 6⟩) =
      rowsOf noTexts "" (I64.ofInt 5) (flowsOf (I64.ofInt 50)
        ⟨.v4 0x0A000001, 1234, .v4 0x0A000002, 80, 6⟩
        (packetsAt [I64.ofInt 0, I64.ofInt 10, I64.ofInt 100])) := by
  have hrun : (run true noTexts "" HashOrder.entries
      (packetsAt [I64.ofInt 0, I64.ofInt 10, I64.ofInt 100]) (.new (I64.ofInt 50) (I64.ofInt 5)) :
        Outcome Empty _) =
      .ok (rowsOf noTexts "" (I64.ofInt 5) [packetsAt [I64.ofInt 0, I64.ofInt 10]]) := by
    decide +kernel
  exact run_rows true noTexts "" HashOrder.entries _ _ _ hrun _

end Finish

end FlowGenerator

end Cicflowmeter
end Maja
