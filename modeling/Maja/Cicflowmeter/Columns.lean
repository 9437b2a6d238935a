/-
# What the columns say

A flow is updated packet by packet.  `flowOf` says of each field what it is of the
packets, taken as a whole: the directions are filters, the gaps are those between
neighbours, the active periods are the runs between silences, a flag counter counts.
Adding a packet agrees with it (`add_flowOf`), so the row of a flow is a function of
its packets (`rowOf`, `rowOf_of_finish`).
-/

import Maja.Cicflowmeter.Bulks
import Maja.Cicflowmeter.Counting
import Mathlib.Data.List.DropRight

namespace Maja
namespace Cicflowmeter

open Lib Net

namespace Flow

/-! ### Packets of a flow -/

/-- The packet goes the way of the first one. -/
def goesForward (first packet : FlowPacket) : Bool :=
  packet.srcIp = first.srcIp && packet.dstIp = first.dstIp &&
    packet.srcPort = first.srcPort && packet.dstPort = first.dstPort

/-- The packets of the forward direction. -/
def forwards (first : FlowPacket) (packets : List FlowPacket) : List FlowPacket :=
  packets.filter (goesForward first)

/-- The packets of the backward direction. -/
def backwards (first : FlowPacket) (packets : List FlowPacket) : List FlowPacket :=
  packets.filter (!goesForward first ·)

/-- The time between two packets. -/
def gap (a b : FlowPacket) : I64 := b.timestamp.saturatingSub a.timestamp

/-- The packet comes before the activity timeout. -/
def awake (activityTimeoutNs : I64) (period : List FlowPacket) (packet : FlowPacket) : Bool :=
  period.getLast?.all fun last => !(activityTimeoutNs < gap last packet)

/-- The length of an active period, unless it is none. -/
def periodOf (period : List FlowPacket) : Option I64 := do
  let first ← period.head?
  let last ← period.getLast?
  if first.timestamp < last.timestamp then
    some (.wrap (last.timestamp.val - first.timestamp.val)) else none

/-- The lengths of active periods. -/
def activePeriods (periods : List (List FlowPacket)) : List I64 := periods.filterMap periodOf

/-- The packets of one direction, each with the time at which the other one was last
heard. -/
def heard (way : FlowPacket → Bool) : Option I64 → List FlowPacket → List Heard
  | _, [] => []
  | other, packet :: packets =>
    if way packet then (packet.sample, other) :: heard way other packets
    else heard way (some packet.timestamp) packets

/-- The bulks of one direction. -/
def bulks (way : FlowPacket → Bool) (packets : List FlowPacket) : List (List Heard) :=
  runs BulkState.joinsBulk ((heard way none packets).filter (·.1.payloadBytes ≠ 0))

/-- The least header length behind the last one that is zero. -/
def leastHeader (lengths : List UInt64) : UInt64 := (lengths.rtakeWhile (· ≠ 0)).min?.getD 0

/-- The flow of these packets, of which `first` is the first one. -/
def flowOf (activityTimeoutNs : I64) (first : FlowPacket) (packets : List FlowPacket) : Flow :=
  let fwd := forwards first packets
  let bwd := backwards first packets
  let periods := runs (awake activityTimeoutNs) packets
  { first
    lastTimestamp := (packets.getLast?.getD first).timestamp
    activityTimeoutNs
    forward := fwd.map FlowPacket.sample
    backward := bwd.map FlowPacket.sample
    flowLengths := packets.map FlowPacket.payloadBytes
    flowIat := neighbours gap packets
    forwardIat := neighbours gap fwd
    backwardIat := neighbours gap bwd
    active := activePeriods periods.dropLast
    idle := (neighbours gap packets).filter (activityTimeoutNs < ·)
    activeStart := ((periods.getLast?.bind List.head?).getD first).timestamp
    activeEnd := (packets.getLast?.getD first).timestamp
    forwardHeaders := .ofNat (fwd.map (·.headerBytes.toNat)).sum
    backwardHeaders := .ofNat (bwd.map (·.headerBytes.toNat)).sum
    flagCounts := FLAGS.map fun flag => packets.countP (·.tcpFlags.contains flag)
    forwardPsh := fwd.countP (·.tcpFlags.contains TcpFlags.PSH)
    backwardPsh := bwd.countP (·.tcpFlags.contains TcpFlags.PSH)
    forwardUrg := fwd.countP (·.tcpFlags.contains TcpFlags.URG)
    backwardUrg := bwd.countP (·.tcpFlags.contains TcpFlags.URG)
    initialForwardWindow := (fwd.head?.map FlowPacket.tcpWindow).getD 0
    initialBackwardWindow := (bwd.head?.map FlowPacket.tcpWindow).getD 0
    activeForwardData := fwd.countP (0 < ·.payloadBytes)
    minForwardSegment := leastHeader (fwd.map FlowPacket.headerBytes)
    lastForward := fwd.getLast?.map FlowPacket.timestamp
    lastBackward := bwd.getLast?.map FlowPacket.timestamp
    subflows := 1 + (neighbours gap packets).countP (I64.ofInt 1000000000 < ·)
    forwardBulk := .bulkOf (bulks (goesForward first) packets)
    backwardBulk := .bulkOf (bulks (!goesForward first ·) packets) }

variable {ε : Type} {checks : Bool} {activityTimeoutNs : I64} {first last packet : FlowPacket}
  {packets : List FlowPacket} {flow' : Flow}

/-! ### One packet -/

/-- One more packet is a forward one or not. -/
theorem forwards_concat : forwards first (packets ++ [packet]) =
    forwards first packets ++ if goesForward first packet then [packet] else [] := by
  rw [forwards, List.filter_append, List.filter_singleton]
  cases goesForward first packet <;> rfl

/-- One more packet is a backward one or not. -/
theorem backwards_concat : backwards first (packets ++ [packet]) =
    backwards first packets ++ if goesForward first packet then [] else [packet] := by
  rw [backwards, List.filter_append, List.filter_singleton]
  cases goesForward first packet <;> rfl

/-- One more packet is heard by its own direction, with the last timestamp of the other
one. -/
theorem heard_concat {way : FlowPacket → Bool} {other : Option I64} :
    heard way other (packets ++ [packet]) = heard way other packets ++
      if way packet then [(packet.sample,
        ((packets.filter (!way ·)).getLast?.map FlowPacket.timestamp).or other)] else [] := by
  induction packets generalizing other with
  | nil =>
    rw [List.nil_append, heard, heard]
    cases way packet <;> rfl
  | cons p packets ih =>
    rw [List.cons_append, heard, heard]
    cases hp : way p with
    | true =>
      rw [if_pos rfl, if_pos rfl, ih, List.filter_cons_of_neg (by simp [hp])]
      rfl
    | false =>
      rw [if_neg Bool.false_ne_true, if_neg Bool.false_ne_true, ih,
        List.filter_cons_of_pos (by simp [hp]), List.getLast?_cons]
      cases (packets.filter (!way ·)).getLast? <;> rfl

/-- One more packet with a payload joins the last run of its direction or starts
another. -/
theorem bulks_concat {way : FlowPacket → Bool} : bulks way (packets ++ [packet]) =
    if way packet = true ∧ packet.payloadBytes ≠ 0 then
      pushRun BulkState.joinsBulk (bulks way packets) (packet.sample,
        (packets.filter (!way ·)).getLast?.map FlowPacket.timestamp)
    else bulks way packets := by
  rw [bulks, heard_concat, List.filter_append, Option.or_none]
  by_cases hway : way packet = true
  · rw [if_pos hway, List.filter_singleton]
    by_cases hpayload : packet.payloadBytes = 0
    · rw [if_neg (by simp [hpayload]),
        decide_eq_false (by simpa [FlowPacket.sample] using hpayload)]
      simp [bulks]
    · rw [if_pos ⟨hway, hpayload⟩, decide_eq_true (by simpa [FlowPacket.sample] using hpayload)]
      exact runs_concat
  · rw [if_neg hway, if_neg (by simp [hway])]
    simp [bulks]

/-- The bulks of a direction after one more packet of it. -/
theorem bulk_concat (way : FlowPacket → Bool) {bulk' : BulkState} (hway : way packet = true)
    (h : ((BulkState.bulkOf (bulks way packets)).add checks packet.sample
      ((packets.filter (!way ·)).getLast?.map FlowPacket.timestamp) : Outcome ε BulkState) =
        .ok bulk') : bulk' = .bulkOf (bulks way (packets ++ [packet])) := by
  rw [BulkState.add_bulkOf (x := (packet.sample, _)) (fun _ => ne_nil_of_mem_runs) h, bulks_concat]
  show BulkState.bulkOf (if packet.payloadBytes = 0 then _ else _) = _
  by_cases hpayload : packet.payloadBytes = 0
  · rw [if_pos hpayload, if_neg (by simp [hpayload])]
    rfl
  · rw [if_neg hpayload, if_pos ⟨hway, hpayload⟩]
    rfl

/-- A `u64` other than zero exceeds zero. -/
theorem not_le_zero {n : UInt64} (h : n ≠ 0) : ¬n ≤ 0 := by
  rw [UInt64.le_iff_toNat_le, UInt64.toNat_zero, Nat.le_zero, ← UInt64.toNat_zero,
    UInt64.toNat_inj]
  exact h

/-- The least header length when one more packet comes: a zero stands for none so far. -/
theorem leastHeader_concat {lengths : List UInt64} {n : UInt64} :
    leastHeader (lengths ++ [n]) =
      if leastHeader lengths = 0 then n else min (leastHeader lengths) n := by
  unfold leastHeader
  by_cases hn : n = 0
  · rw [List.rtakeWhile_concat_neg _ _ _ (by simp [hn]), hn]
    split_ifs with hzero
    · rfl
    · exact (if_neg (not_le_zero hzero)).symm
  · rw [List.rtakeWhile_concat_pos _ _ _ (by simp [hn])]
    cases hkept : lengths.rtakeWhile (· ≠ 0) with
    | nil => rfl
    | cons m ns =>
      -- the least of the kept ones is one of them, so it is not zero
      have hmin : (m :: ns).min? = some (ns.foldl min m) := List.min?_cons'
      have hne : ns.foldl min m ≠ 0 := by
        have hmem := List.min?_mem hmin
        rw [← hkept] at hmem
        simpa using List.mem_rtakeWhile_imp hmem
      rw [List.cons_append, hmin, List.min?_cons', List.foldl_append]
      exact (if_neg hne).symm

/-- The flag counters count the packets with the flag. -/
theorem flagCounts_concat :
    checkFlags (FLAGS.map fun flag => packets.countP (·.tcpFlags.contains flag)) packet.tcpFlags =
      FLAGS.map fun flag => (packets ++ [packet]).countP (·.tcpFlags.contains flag) := by
  apply Vector.ext
  intro i hi
  simp only [checkFlags, Vector.getElem_zipWith, Vector.getElem_map, List.countP_append,
    List.countP_singleton]
  split_ifs <;> rfl

/-! ### One packet of a direction -/

section Direction

variable (ps : List FlowPacket) (packet : FlowPacket)

/-- A counter that goes up by one. -/
theorem countP_concat (p : FlowPacket → Bool) :
    (if p packet then ps.countP p + 1 else ps.countP p) = (ps ++ [packet]).countP p := by
  rw [List.countP_append, List.countP_singleton]
  split_ifs <;> rfl

/-- The window of the first packet. -/
theorem window_concat : (if (ps.map FlowPacket.sample).isEmpty then packet.tcpWindow
    else (ps.head?.map FlowPacket.tcpWindow).getD 0) =
      (((ps ++ [packet]).head?.map FlowPacket.tcpWindow).getD 0) := by
  cases ps <;> rfl

/-- The bytes of the headers. -/
theorem headers_concat : UInt64.ofNat
    ((UInt64.ofNat (ps.map (·.headerBytes.toNat)).sum).toNat + packet.headerBytes.toNat) =
      .ofNat ((ps ++ [packet]).map (·.headerBytes.toNat)).sum := by
  rw [U64.ofNat_toNat_add, List.map_append, List.sum_append, List.map_singleton, List.sum_singleton]

/-- The gaps of a direction. -/
theorem iat_concat : neighbours gap (ps ++ [packet]) = neighbours gap ps ++
    ((ps.getLast?.map FlowPacket.timestamp).map packet.timestamp.saturatingSub).toList := by
  rw [neighbours_concat, Option.map_map]
  rfl

/-- The least header of a direction. -/
theorem segment_concat :
    (if (if (ps.map FlowPacket.sample).isEmpty then packet.headerBytes
        else leastHeader (ps.map FlowPacket.headerBytes)) = 0 then packet.headerBytes
      else min (if (ps.map FlowPacket.sample).isEmpty then packet.headerBytes
        else leastHeader (ps.map FlowPacket.headerBytes)) packet.headerBytes) =
      leastHeader ((ps ++ [packet]).map FlowPacket.headerBytes) := by
  rw [List.map_append, List.map_singleton, leastHeader_concat]
  cases ps with
  | nil =>
    show (if packet.headerBytes = 0 then _ else min packet.headerBytes packet.headerBytes) = _
    have hself : min packet.headerBytes packet.headerBytes = packet.headerBytes :=
      if_pos (UInt64.le_refl packet.headerBytes)
    rw [hself, ite_self]
    rfl
  | cons p ps => rfl

end Direction

/-! ### The step -/

attribute [ext] Flow

/-- The flow of `packets`, once the gap before `packet` is added. -/
def gapped (activityTimeoutNs : I64) (first : FlowPacket) (packets : List FlowPacket)
    (packet : FlowPacket) : Flow :=
  let after := flowOf activityTimeoutNs first (packets ++ [packet])
  { flowOf activityTimeoutNs first packets with
    flowIat := after.flowIat
    subflows := after.subflows
    active := after.active
    idle := after.idle
    activeStart := after.activeStart }

/-- The active period that ends where it ends now, unless it is none. -/
def closing (flow : Flow) : Option I64 :=
  if flow.activeStart < flow.activeEnd then
    some (.wrap (flow.activeEnd.val - flow.activeStart.val)) else none

/-- Closing the active period changes the active statistics and nothing else. -/
theorem closeActive_eq {flow : Flow} (h : (flow.closeActive checks : Outcome ε Flow) = .ok flow') :
    flow' = { flow with active := flow.active ++ flow.closing.toList } := by
  unfold closeActive at h
  unfold closing
  split_ifs at h with hlt
  · obtain ⟨period, hperiod, h⟩ := Outcome.bind_eq_ok.1 h
    obtain rfl := I64.eq_wrap_of_arith hperiod
    cases h
    rw [if_pos hlt]
    rfl
  · rw [if_neg hlt, ← Outcome.ok.inj h]
    show flow = { flow with active := flow.active ++ [] }
    rw [List.append_nil]

/-- One more active period has a length when it has more than one packet. -/
theorem activePeriods_concat {front : List (List FlowPacket)} {period : List FlowPacket} :
    activePeriods (front ++ [period]) = activePeriods front ++ (periodOf period).toList := by
  rw [activePeriods, List.filterMap_append]
  cases hperiod : periodOf period <;> simp [activePeriods, hperiod]

/-- The last active period of packets. -/
theorem closing_flowOf {front : List (List FlowPacket)} {period : List FlowPacket}
    (hruns : runs (awake activityTimeoutNs) packets = front ++ [period]) :
    (flowOf activityTimeoutNs first packets).closing = periodOf period := by
  have hne := ne_nil_of_mem_runs (hruns ▸ List.mem_append_right front List.mem_cons_self)
  have hlast : packets.getLast? = some (period.getLast hne) := by
    rw [← flatten_runs (awake activityTimeoutNs) packets, hruns,
      List.flatten_concat, List.getLast?_append_of_ne_nil _ hne, List.getLast?_eq_some_getLast hne]
  have hstart : (flowOf activityTimeoutNs first packets).activeStart =
      (period.head hne).timestamp := by
    simp [flowOf, hruns, List.head?_eq_some_head hne]
  have hend : (flowOf activityTimeoutNs first packets).activeEnd =
      (period.getLast hne).timestamp := by
    simp [flowOf, hlast]
  rw [closing, hstart, hend, periodOf, List.head?_eq_some_head hne,
    List.getLast?_eq_some_getLast hne]
  rfl

/-- A flow with a packet has it in one of its directions. -/
theorem flowOf_nonempty (hlast : packets.getLast? = some last) :
    (!(flowOf activityTimeoutNs first packets).forward.isEmpty ||
      !(flowOf activityTimeoutNs first packets).backward.isEmpty) = true := by
  have hmem := List.mem_of_getLast? hlast
  cases hway : goesForward first last with
  | true =>
    have hforward := List.ne_nil_of_mem (List.mem_filter.2 ⟨hmem, hway⟩)
    simp [flowOf, forwards, hforward]
  | false =>
    have hbackward : packets.filter (!goesForward first ·) ≠ [] :=
      List.ne_nil_of_mem (List.mem_filter.2 ⟨hmem, by rw [hway]; rfl⟩)
    simp [flowOf, backwards, hbackward]

/-- One more packet adds its gap to those of a flow. -/
theorem flowIat_concat (hlast : packets.getLast? = some last) :
    neighbours gap (packets ++ [packet]) = neighbours gap packets ++ [gap last packet] := by
  rw [neighbours_concat, hlast]
  rfl

/-- A gap of more than a second begins a subflow. -/
theorem subflows_concat (hlast : packets.getLast? = some last) :
    (if I64.ofInt 1000000000 < gap last packet
      then (flowOf activityTimeoutNs first packets).subflows + 1
      else (flowOf activityTimeoutNs first packets).subflows) =
        (flowOf activityTimeoutNs first (packets ++ [packet])).subflows := by
  show _ = 1 + (neighbours gap (packets ++ [packet])).countP (I64.ofInt 1000000000 < ·)
  rw [flowIat_concat hlast, List.countP_append, List.countP_singleton]
  simp only [decide_eq_true_eq]
  split_ifs <;> rfl

/-- What a gap that is no silence changes. -/
def lengthened (activityTimeoutNs : I64) (first : FlowPacket) (packets : List FlowPacket)
    (gap : I64) : Flow :=
  let flow := flowOf activityTimeoutNs first packets
  { flow with
    flowIat := flow.flowIat ++ [gap]
    subflows := if I64.ofInt 1000000000 < gap then flow.subflows + 1 else flow.subflows }

/-- The packet goes on with the active period. -/
theorem lengthened_eq_gapped (hlast : packets.getLast? = some last)
    (hawake : ¬activityTimeoutNs < gap last packet) :
    lengthened activityTimeoutNs first packets (gap last packet) =
      gapped activityTimeoutNs first packets packet := by
  obtain ⟨front, period, hruns, hperiod, hend⟩ := exists_runs_eq (awake activityTimeoutNs)
    (List.ne_nil_of_mem (List.mem_of_getLast? hlast))
  have hjoins : awake activityTimeoutNs period packet = true := by
    rw [awake, hend, hlast]
    simpa using hawake
  have hruns' : runs (awake activityTimeoutNs) (packets ++ [packet]) =
      front ++ [period ++ [packet]] := by
    rw [runs_concat, hruns, pushRun_of_continues hjoins]
  apply Flow.ext
  case flowIat => exact (flowIat_concat hlast).symm
  case subflows => exact subflows_concat hlast
  case active =>
    show activePeriods (runs (awake activityTimeoutNs) packets).dropLast =
      activePeriods (runs (awake activityTimeoutNs) (packets ++ [packet])).dropLast
    rw [hruns', hruns, List.dropLast_concat, List.dropLast_concat]
  case idle =>
    show _ = (neighbours gap (packets ++ [packet])).filter _
    rw [flowIat_concat hlast, List.filter_append, List.filter_singleton, decide_eq_false hawake]
    exact (List.append_nil _).symm
  case activeStart =>
    show (flowOf activityTimeoutNs first packets).activeStart = _
    simp only [gapped, flowOf, hruns', hruns, List.getLast?_concat, Option.bind_some,
      List.head?_append_of_ne_nil _ hperiod]
  all_goals rfl

/-- The packet ends a silence, in front of which the active period is closed. -/
theorem lengthened_eq_gapped_of_silence (hlast : packets.getLast? = some last)
    (hidle : activityTimeoutNs < gap last packet) :
    { lengthened activityTimeoutNs first packets (gap last packet) with
      active := (flowOf activityTimeoutNs first packets).active ++
        (flowOf activityTimeoutNs first packets).closing.toList
      idle := (flowOf activityTimeoutNs first packets).idle ++ [gap last packet]
      activeStart := packet.timestamp } = gapped activityTimeoutNs first packets packet := by
  obtain ⟨front, period, hruns, -, hend⟩ := exists_runs_eq (awake activityTimeoutNs)
    (List.ne_nil_of_mem (List.mem_of_getLast? hlast))
  have hopens : awake activityTimeoutNs period packet = false := by
    rw [awake, hend, hlast]
    simpa using hidle
  have hruns' : runs (awake activityTimeoutNs) (packets ++ [packet]) =
      front ++ [period] ++ [[packet]] := by
    rw [runs_concat, hruns]
    exact pushRun_of_not_continues (by simpa using hopens)
  apply Flow.ext
  case flowIat => exact (flowIat_concat hlast).symm
  case subflows => exact subflows_concat hlast
  case active =>
    show activePeriods (runs (awake activityTimeoutNs) packets).dropLast ++
      (flowOf activityTimeoutNs first packets).closing.toList =
        activePeriods (runs (awake activityTimeoutNs) (packets ++ [packet])).dropLast
    rw [closing_flowOf hruns, hruns', hruns, List.dropLast_concat, List.dropLast_concat,
      activePeriods_concat]
  case idle =>
    show _ ++ [gap last packet] = (neighbours gap (packets ++ [packet])).filter _
    rw [flowIat_concat hlast, List.filter_append, List.filter_singleton, decide_eq_true hidle]
    rfl
  case activeStart =>
    simp only [gapped, flowOf, hruns', List.getLast?_concat]
    rfl
  all_goals rfl

/-- The gap before the packet, and the active period that it may end. -/
theorem addGap_flowOf (hfirst : (packets ++ [packet]).head? = some first)
    (h : ((flowOf activityTimeoutNs first packets).addGap checks packet : Outcome ε Flow) =
      .ok flow') : flow' = gapped activityTimeoutNs first packets packet := by
  cases hlast : packets.getLast? with
  | none =>
    obtain rfl := List.getLast?_eq_none_iff.1 hlast
    cases hfirst
    cases h
    rfl
  | some last =>
    have hgap : packet.timestamp.saturatingSub
        (flowOf activityTimeoutNs first packets).lastTimestamp = gap last packet := by
      simp [flowOf, hlast, gap]
    have htimeout : (flowOf activityTimeoutNs first packets).activityTimeoutNs =
      activityTimeoutNs := rfl
    rw [addGap, if_pos (flowOf_nonempty hlast)] at h
    dsimp only at h
    rw [hgap, htimeout] at h
    by_cases hidle : activityTimeoutNs < gap last packet
    · rw [if_pos hidle] at h
      obtain ⟨closed, hclosed, h⟩ := Outcome.bind_eq_ok.1 h
      obtain rfl := closeActive_eq hclosed
      exact (Outcome.ok.inj h).symm.trans (lengthened_eq_gapped_of_silence hlast hidle)
    · rw [if_neg hidle] at h
      exact (Outcome.ok.inj h).symm.trans (lengthened_eq_gapped hlast hidle)

/-- A forward packet, once its gap is noted, gives the flow of one packet more. -/
theorem addForward_gapped (hway : goesForward first packet = true)
    (h : (((gapped activityTimeoutNs first packets packet).touch packet).addForward checks packet
      packet.sample : Outcome ε Flow) = .ok flow') :
    flow' = flowOf activityTimeoutNs first (packets ++ [packet]) := by
  have hlast : (packets ++ [packet]).getLast?.getD first = packet := by
    rw [List.getLast?_concat, Option.getD_some]
  have hfwd : forwards first (packets ++ [packet]) = forwards first packets ++ [packet] := by
    rw [forwards_concat, if_pos hway]
  have hbwd : backwards first (packets ++ [packet]) = backwards first packets := by
    rw [backwards_concat, if_pos hway, List.append_nil]
  obtain ⟨headers, hheaders, h⟩ := Outcome.bind_eq_ok.1 h
  obtain ⟨bulk, hbulk, h⟩ := Outcome.bind_eq_ok.1 h
  obtain rfl := U64.eq_ofNat_of_arith hheaders
  obtain rfl := bulk_concat (goesForward first) hway hbulk
  rw [← Outcome.ok.inj h]
  apply Flow.ext
  case lastTimestamp => exact (congrArg FlowPacket.timestamp hlast).symm
  case activeEnd => exact (congrArg FlowPacket.timestamp hlast).symm
  case flagCounts => exact flagCounts_concat
  case forward =>
    show (forwards first packets).map _ ++ [packet.sample] = (forwards first _).map _
    rw [hfwd, List.map_append, List.map_singleton]
  case flowLengths =>
    show packets.map _ ++ [packet.payloadBytes] = (packets ++ [packet]).map _
    rw [List.map_append, List.map_singleton]
  case forwardIat =>
    show _ = neighbours gap (forwards first _)
    rw [hfwd, iat_concat]
    simp only [gapped, flowOf, touch]
    cases (forwards first packets).getLast? with
    | none => exact (List.append_nil _).symm
    | some last => rfl
  case forwardHeaders =>
    show _ = UInt64.ofNat ((forwards first _).map fun p => p.headerBytes.toNat).sum
    rw [hfwd, ← headers_concat]
    rfl
  case forwardPsh =>
    show _ = (forwards first _).countP (·.tcpFlags.contains TcpFlags.PSH)
    rw [hfwd, ← countP_concat]
    rfl
  case forwardUrg =>
    show _ = (forwards first _).countP (·.tcpFlags.contains TcpFlags.URG)
    rw [hfwd, ← countP_concat]
    rfl
  case activeForwardData =>
    show _ = (forwards first _).countP (0 < ·.payloadBytes)
    rw [hfwd, ← countP_concat]
    simp only [decide_eq_true_eq]
    rfl
  case initialForwardWindow =>
    show _ = ((forwards first _).head?.map FlowPacket.tcpWindow).getD 0
    rw [hfwd, ← window_concat]
    rfl
  case minForwardSegment =>
    show _ = leastHeader ((forwards first _).map FlowPacket.headerBytes)
    rw [hfwd, ← segment_concat]
    rfl
  case lastForward =>
    show some packet.timestamp = (forwards first _).getLast?.map _
    rw [hfwd, List.getLast?_concat, Option.map_some]
  case backward => exact congrArg (List.map FlowPacket.sample) hbwd.symm
  case backwardIat => exact congrArg (neighbours gap) hbwd.symm
  case backwardHeaders =>
    exact congrArg (fun ps => UInt64.ofNat
      (List.map (fun p : FlowPacket => p.headerBytes.toNat) ps).sum) hbwd.symm
  case backwardPsh => exact congrArg (List.countP _) hbwd.symm
  case backwardUrg => exact congrArg (List.countP _) hbwd.symm
  case initialBackwardWindow =>
    exact congrArg (fun ps => (Option.map FlowPacket.tcpWindow (List.head? ps)).getD 0) hbwd.symm
  case lastBackward =>
    exact congrArg (fun ps => Option.map FlowPacket.timestamp (List.getLast? ps)) hbwd.symm
  case backwardBulk =>
    show BulkState.bulkOf (bulks _ packets) = .bulkOf (bulks _ (packets ++ [packet]))
    rw [bulks_concat, if_neg (by simp [hway])]
  all_goals rfl

/-- A backward packet, once its gap is noted, gives the flow of one packet more. -/
theorem addBackward_gapped (hway : goesForward first packet = false)
    (h : (((gapped activityTimeoutNs first packets packet).touch packet).addBackward checks packet
      packet.sample : Outcome ε Flow) = .ok flow') :
    flow' = flowOf activityTimeoutNs first (packets ++ [packet]) := by
  have hlast : (packets ++ [packet]).getLast?.getD first = packet := by
    rw [List.getLast?_concat, Option.getD_some]
  have hfwd : forwards first (packets ++ [packet]) = forwards first packets := by
    rw [forwards_concat, if_neg (by simp [hway]), List.append_nil]
  have hbwd : backwards first (packets ++ [packet]) = backwards first packets ++ [packet] := by
    rw [backwards_concat, if_neg (by simp [hway])]
  have hother : ((gapped activityTimeoutNs first packets packet).touch packet).lastForward =
      (packets.filter (!!goesForward first ·)).getLast?.map FlowPacket.timestamp := by
    simp [gapped, touch, flowOf, forwards]
  obtain ⟨headers, hheaders, h⟩ := Outcome.bind_eq_ok.1 h
  obtain ⟨bulk, hbulk, h⟩ := Outcome.bind_eq_ok.1 h
  obtain rfl := U64.eq_ofNat_of_arith hheaders
  obtain rfl := bulk_concat (!goesForward first ·) (by rw [hway]; rfl)
    (by rw [hother] at hbulk; exact hbulk)
  rw [← Outcome.ok.inj h]
  apply Flow.ext
  case lastTimestamp => exact (congrArg FlowPacket.timestamp hlast).symm
  case activeEnd => exact (congrArg FlowPacket.timestamp hlast).symm
  case flagCounts => exact flagCounts_concat
  case backward =>
    show (backwards first packets).map _ ++ [packet.sample] = (backwards first _).map _
    rw [hbwd, List.map_append, List.map_singleton]
  case flowLengths =>
    show packets.map _ ++ [packet.payloadBytes] = (packets ++ [packet]).map _
    rw [List.map_append, List.map_singleton]
  case backwardIat =>
    show _ = neighbours gap (backwards first _)
    rw [hbwd, iat_concat]
    simp only [gapped, flowOf, touch]
    cases (backwards first packets).getLast? with
    | none => exact (List.append_nil _).symm
    | some last => rfl
  case backwardHeaders =>
    show _ = UInt64.ofNat ((backwards first _).map fun p => p.headerBytes.toNat).sum
    rw [hbwd, ← headers_concat]
    rfl
  case backwardPsh =>
    show _ = (backwards first _).countP (·.tcpFlags.contains TcpFlags.PSH)
    rw [hbwd, ← countP_concat]
    rfl
  case backwardUrg =>
    show _ = (backwards first _).countP (·.tcpFlags.contains TcpFlags.URG)
    rw [hbwd, ← countP_concat]
    rfl
  case initialBackwardWindow =>
    show _ = ((backwards first _).head?.map FlowPacket.tcpWindow).getD 0
    rw [hbwd, ← window_concat]
    rfl
  case lastBackward =>
    show some packet.timestamp = (backwards first _).getLast?.map _
    rw [hbwd, List.getLast?_concat, Option.map_some]
  case forward => exact congrArg (List.map FlowPacket.sample) hfwd.symm
  case forwardIat => exact congrArg (neighbours gap) hfwd.symm
  case forwardHeaders =>
    exact congrArg (fun ps => UInt64.ofNat
      (List.map (fun p : FlowPacket => p.headerBytes.toNat) ps).sum) hfwd.symm
  case forwardPsh => exact congrArg (List.countP _) hfwd.symm
  case forwardUrg => exact congrArg (List.countP _) hfwd.symm
  case activeForwardData => exact congrArg (List.countP _) hfwd.symm
  case initialForwardWindow =>
    exact congrArg (fun ps => (Option.map FlowPacket.tcpWindow (List.head? ps)).getD 0) hfwd.symm
  case minForwardSegment =>
    exact congrArg (fun ps => leastHeader (List.map FlowPacket.headerBytes ps)) hfwd.symm
  case lastForward =>
    exact congrArg (fun ps => Option.map FlowPacket.timestamp (List.getLast? ps)) hfwd.symm
  case forwardBulk =>
    show BulkState.bulkOf (bulks _ packets) = .bulkOf (bulks _ (packets ++ [packet]))
    rw [bulks_concat, if_neg (by simp [hway])]
  all_goals rfl

/-- **The fields are those of the packets**, and so they are after one more. -/
theorem add_flowOf (hfirst : (packets ++ [packet]).head? = some first)
    (h : ((flowOf activityTimeoutNs first packets).add checks packet : Outcome ε Flow) =
      .ok flow') : flow' = flowOf activityTimeoutNs first (packets ++ [packet]) := by
  rw [add] at h
  obtain ⟨gap, hgap, h⟩ := Outcome.bind_eq_ok.1 h
  obtain rfl := addGap_flowOf hfirst hgap
  split_ifs at h with hforward
  · exact addForward_gapped hforward h
  · exact addBackward_gapped (Bool.eq_false_iff.2 hforward) h

/-- A flow without packets. -/
theorem opened_eq_flowOf : opened first activityTimeoutNs = flowOf activityTimeoutNs first [] := by
  have hbulk : ({} : BulkState) = .bulkOf [] := by decide
  apply Flow.ext
  case flagCounts =>
    apply Vector.ext
    intro i hi
    rw [flowOf, Vector.getElem_map]
    exact Vector.getElem_replicate hi
  case forwardBulk => exact hbulk
  case backwardBulk => exact hbulk
  all_goals rfl

/-- The flow that a packet starts. -/
theorem new_eq_flowOf {flow : Flow}
    (h : (Flow.new checks packet activityTimeoutNs : Outcome ε Flow) = .ok flow) :
    flow = flowOf activityTimeoutNs packet [packet] := by
  have hfirst : ([] ++ [packet]).head? = some packet := rfl
  rw [Flow.new, opened_eq_flowOf] at h
  exact add_flowOf hfirst h

end Flow

/-! ### Rows -/

/-- The row of these packets, of which `first` is the first one. -/
def rowOf (texts : Texts) (label : String) (activityTimeoutNs : I64) (first : FlowPacket)
    (packets : List FlowPacket) : FlowFeatures :=
  let flow := Flow.flowOf activityTimeoutNs first packets
  { flowId := texts.addr first.srcIp ++ "-" ++ texts.addr first.dstIp ++ "-" ++
      toString first.srcPort ++ "-" ++ toString first.dstPort ++ "-" ++ toString first.protocol
    srcIp := first.srcIp
    srcPort := first.srcPort
    dstIp := first.dstIp
    dstPort := first.dstPort
    protocol := first.protocol
    timestamp := texts.timestamp first.timestamp
    durationNs := Flow.gap first (packets.getLast?.getD first)
    flowDuration := max (Flow.gap first (packets.getLast?.getD first)).val 0 / 1000
    totalFwdPacket := (Flow.forwards first packets).length
    totalBwdPackets := (Flow.backwards first packets).length
    fwdPacketLengths := (Flow.forwards first packets).map FlowPacket.payloadBytes
    bwdPacketLengths := (Flow.backwards first packets).map FlowPacket.payloadBytes
    flowIat := neighbours Flow.gap packets
    fwdIat := neighbours Flow.gap (Flow.forwards first packets)
    bwdIat := neighbours Flow.gap (Flow.backwards first packets)
    fwdPshFlags := flow.forwardPsh
    bwdPshFlags := flow.backwardPsh
    fwdUrgFlags := flow.forwardUrg
    bwdUrgFlags := flow.backwardUrg
    fwdHeaderLength := flow.forwardHeaders
    bwdHeaderLength := flow.backwardHeaders
    packetLengths := packets.map FlowPacket.payloadBytes
    flagCounts := flow.flagCounts
    fwdBulk := flow.forwardBulk
    bwdBulk := flow.backwardBulk
    subflows := flow.subflows
    fwdInitWinBytes := flow.initialForwardWindow
    bwdInitWinBytes := flow.initialBackwardWindow
    fwdActDataPkts := flow.activeForwardData
    fwdSegSizeMin := flow.minForwardSegment
    active := Flow.activePeriods (runs (Flow.awake activityTimeoutNs) packets)
    idle := (neighbours Flow.gap packets).filter (activityTimeoutNs < ·)
    label }

attribute [ext] FlowFeatures

/-- **The row of a flow is that of its packets.** -/
theorem rowOf_of_finish {ε : Type} {checks : Bool} {texts : Texts} {label : String}
    {activityTimeoutNs : I64} {first : FlowPacket} {packets : List FlowPacket} {row : FlowFeatures}
    (hne : packets ≠ []) (h : ((Flow.flowOf activityTimeoutNs first packets).finish checks texts
      label : Outcome ε FlowFeatures) = .ok row) :
    row = rowOf texts label activityTimeoutNs first packets := by
  obtain ⟨closed, hclosed, h⟩ := Outcome.bind_eq_ok.1 h
  obtain rfl := Flow.closeActive_eq hclosed
  rw [← Outcome.ok.inj h]
  obtain ⟨front, period, hruns, -, -⟩ :=
    exists_runs_eq (Flow.awake activityTimeoutNs) hne
  have hactive : (Flow.flowOf activityTimeoutNs first packets).active ++
      (Flow.flowOf activityTimeoutNs first packets).closing.toList =
        Flow.activePeriods (runs (Flow.awake activityTimeoutNs) packets) := by
    rw [Flow.closing_flowOf hruns, hruns, Flow.activePeriods_concat, Flow.flowOf, hruns,
      List.dropLast_concat]
  have hiat : ∀ ps : List FlowPacket, (if 1 < (ps.map FlowPacket.sample).length
      then neighbours Flow.gap ps else []) = neighbours Flow.gap ps := by
    intro ps
    split_ifs with hlength
    · rfl
    · rw [List.length_map] at hlength
      exact (neighbours_of_length_le _ hlength).symm
  apply FlowFeatures.ext
  case totalFwdPacket => exact List.length_map ..
  case totalBwdPackets => exact List.length_map ..
  case fwdPacketLengths => exact List.map_map ..
  case bwdPacketLengths => exact List.map_map ..
  case fwdIat => exact hiat _
  case bwdIat => exact hiat _
  case active => exact hactive
  all_goals rfl

end Cicflowmeter
end Maja
