/-
# Durations

In a capture in order of time, the gaps of a flow make up its duration, and so do its
active periods with the silences between them (`activePeriods_add_idle`): the columns of
a row that speak of time agree with each other (`run_durations`).
-/

import Maja.Cicflowmeter.Connections

namespace Maja
namespace Cicflowmeter

open Lib Net

/-- In order of time, and never further apart than an `i64` of nanoseconds. -/
def InOrder (packets : List FlowPacket) : Prop :=
  packets.Pairwise fun a b =>
    a.timestamp ≤ b.timestamp ∧ b.timestamp.val - a.timestamp.val ≤ 2 ^ 63 - 1

instance InOrder.decidable (packets : List FlowPacket) : Decidable (InOrder packets) :=
  inferInstanceAs (Decidable (packets.Pairwise _))

/-- Nanoseconds, added up. -/
def nsSum (times : List I64) : ℤ := (times.map Subtype.val).sum

/-- The sum over a list and one behind it. -/
theorem nsSum_append (xs ys : List I64) : nsSum (xs ++ ys) = nsSum xs + nsSum ys := by
  rw [nsSum, List.map_append, List.sum_append]
  rfl

/-- The sum over one duration. -/
theorem nsSum_singleton (x : I64) : nsSum [x] = x.val := by
  rw [nsSum, List.map_singleton, List.sum_singleton]

namespace Flow

variable {packets : List FlowPacket} {first last packet : FlowPacket} {activityTimeoutNs : I64}

/-- The first packet is not later than the last one. -/
theorem head_le_getLast (h : InOrder packets) (hfirst : packets.head? = some first)
    (hlast : packets.getLast? = some last) : first.timestamp ≤ last.timestamp ∧
      last.timestamp.val - first.timestamp.val ≤ 2 ^ 63 - 1 := by
  cases packets with
  | nil => cases hfirst
  | cons p packets =>
    cases hfirst
    rw [List.getLast?_cons] at hlast
    cases hrest : packets.getLast? with
    | none =>
      rw [hrest, Option.getD_none] at hlast
      cases hlast
      exact ⟨le_rfl, by omega⟩
    | some q =>
      rw [hrest, Option.getD_some] at hlast
      cases hlast
      exact (List.pairwise_cons.1 h).1 _ (List.mem_of_getLast? hrest)

/-- A gap in the order of time, where it fits an `i64`. -/
theorem gap_val (hle : first.timestamp ≤ last.timestamp)
    (hspan : last.timestamp.val - first.timestamp.val ≤ 2 ^ 63 - 1) :
    (gap first last).val = last.timestamp.val - first.timestamp.val := by
  have hval : first.timestamp.val ≤ last.timestamp.val := hle
  exact I64.clamp_val ⟨by omega, hspan⟩

/-- An active period, as far as there is one, lasts from its first to its last packet. -/
theorem nsSum_periodOf (h : InOrder packets) (hfirst : packets.head? = some first)
    (hlast : packets.getLast? = some last) : nsSum (periodOf packets).toList =
      last.timestamp.val - first.timestamp.val := by
  obtain ⟨hle, hspan⟩ := head_le_getLast h hfirst hlast
  have hval : first.timestamp.val ≤ last.timestamp.val := hle
  have hperiod : periodOf packets = if first.timestamp < last.timestamp then
      some (.wrap (last.timestamp.val - first.timestamp.val)) else none := by
    rw [periodOf, hfirst, hlast]
    rfl
  rw [hperiod]
  split_ifs with hlt
  · rw [Option.toList_some, nsSum_singleton, I64.wrap_val ⟨by omega, hspan⟩]
  · have heq : ¬first.timestamp.val < last.timestamp.val := hlt
    show (0 : ℤ) = _
    omega

/-- The last gap of packets in order. -/
theorem last_gap (h : InOrder (packets ++ [packet])) (hlast : packets.getLast? = some last) :
    (gap last packet).val = packet.timestamp.val - last.timestamp.val := by
  obtain ⟨hle, hspan⟩ := (List.pairwise_append.1 h).2.2 last (List.mem_of_getLast? hlast) packet
    (List.mem_singleton.2 rfl)
  exact gap_val hle hspan

/-- **The gaps make up the duration.** -/
theorem nsSum_gaps (h : InOrder packets) (hfirst : packets.head? = some first)
    (hlast : packets.getLast? = some last) : nsSum (neighbours gap packets) =
      last.timestamp.val - first.timestamp.val := by
  induction packets using List.reverseRecOn generalizing last with
  | nil => cases hfirst
  | append_singleton packets packet ih =>
    rw [List.getLast?_concat] at hlast
    cases hlast
    cases hbefore : packets.getLast? with
    | none =>
      obtain rfl := List.getLast?_eq_none_iff.1 hbefore
      cases hfirst
      exact (sub_self _).symm
    | some before =>
      have hhead : packets.head? = some first := by
        have hne := List.ne_nil_of_mem (List.mem_of_getLast? hbefore)
        rwa [List.head?_append_of_ne_nil _ hne] at hfirst
      rw [neighbours_concat, hbefore, Option.map_some, Option.toList_some, nsSum_append,
        nsSum_singleton, ih (List.pairwise_append.1 h).1 hhead hbefore, last_gap h hbefore]
      ring

/-- A period of one packet lasts for no time. -/
theorem nsSum_activePeriods_opens (front : List (List FlowPacket)) (packet : FlowPacket) :
    nsSum (activePeriods (front ++ [[packet]])) = nsSum (activePeriods front) := by
  have hnone : periodOf [packet] = none := if_neg (lt_irrefl packet.timestamp)
  rw [activePeriods_concat, hnone, Option.toList_none, List.append_nil]

/-- The last active period adds the time from its first packet to its last. -/
theorem nsSum_activePeriods_concat {front : List (List FlowPacket)} (h : InOrder packets)
    (hfirst : packets.head? = some first) (hlast : packets.getLast? = some last) :
    nsSum (activePeriods (front ++ [packets])) =
      nsSum (activePeriods front) + (last.timestamp.val - first.timestamp.val) := by
  rw [activePeriods_concat, nsSum_append, nsSum_periodOf h hfirst hlast]

/-- One more packet adds the silence in front of it, if that is one. -/
theorem nsSum_silences_concat (h : InOrder (packets ++ [packet]))
    (hlast : packets.getLast? = some last) :
    nsSum ((neighbours gap (packets ++ [packet])).filter (activityTimeoutNs < ·)) =
      nsSum ((neighbours gap packets).filter (activityTimeoutNs < ·)) +
        if activityTimeoutNs < gap last packet then
          packet.timestamp.val - last.timestamp.val else 0 := by
  rw [neighbours_concat, hlast, Option.map_some, Option.toList_some, List.filter_append,
    List.filter_singleton, nsSum_append]
  split_ifs with hidle
  · rw [decide_eq_true hidle, cond_true, nsSum_singleton, last_gap h hlast]
  · rw [decide_eq_false hidle]
    rfl

/-- A packet goes on with the active period unless the gap exceeds the timeout. -/
theorem awake_iff (activityTimeoutNs : I64) (packet : FlowPacket)
    (hlast : packets.getLast? = some last) :
    awake activityTimeoutNs packets packet = true ↔
      ¬activityTimeoutNs < gap last packet := by
  rw [awake, hlast]
  simp

/-- **The active periods and the silences make up the duration.** -/
theorem activePeriods_add_idle (h : InOrder packets) (hfirst : packets.head? = some first)
    (hlast : packets.getLast? = some last) :
    nsSum (activePeriods (runs (awake activityTimeoutNs) packets)) +
        nsSum ((neighbours gap packets).filter (activityTimeoutNs < ·)) =
      last.timestamp.val - first.timestamp.val := by
  induction packets using List.reverseRecOn generalizing last with
  | nil => cases hfirst
  | append_singleton packets packet ih =>
    rw [List.getLast?_concat] at hlast
    cases hlast
    cases hbefore : packets.getLast? with
    | none =>
      obtain rfl := List.getLast?_eq_none_iff.1 hbefore
      cases hfirst
      show nsSum (activePeriods ([] ++ [[first]])) + nsSum [] = _
      rw [nsSum_activePeriods_opens]
      exact (sub_self _).symm
    | some before =>
      have hne := List.ne_nil_of_mem (List.mem_of_getLast? hbefore)
      have hhead : packets.head? = some first := by
        rwa [List.head?_append_of_ne_nil _ hne] at hfirst
      have ih := ih (List.pairwise_append.1 h).1 hhead hbefore
      rw [nsSum_silences_concat h hbefore]
      obtain ⟨front, period, hruns, hperiod, hend⟩ := exists_runs_eq (awake activityTimeoutNs) hne
      have hawake := awake_iff activityTimeoutNs packet (hend.trans hbefore)
      obtain ⟨hopens, hruns'⟩ | ⟨front', period', hruns₁, hjoins, hruns'⟩ :=
        runs_concat_cases (awake activityTimeoutNs) packets packet
      · -- a silence ends the period in front of it
        have hidle : activityTimeoutNs < gap before packet := by
          have hasleep := hopens period (by rw [hruns, List.getLast?_concat]; rfl)
          by_contra hidle
          exact Bool.false_ne_true (hasleep.symm.trans (hawake.2 hidle))
        rw [hruns', nsSum_activePeriods_opens, if_pos hidle]
        omega
      · -- without one, the period becomes longer by the gap
        obtain ⟨rfl, hsame⟩ := List.append_inj' (hruns.symm.trans hruns₁) rfl
        cases hsame
        obtain ⟨start, hstart⟩ : ∃ start, period.head? = some start :=
          ⟨_, List.head?_eq_some_head hperiod⟩
        have hold : InOrder period := List.Pairwise.sublist
          (sublist_of_mem_runs (hruns ▸ List.mem_append_right front List.mem_cons_self))
          (List.pairwise_append.1 h).1
        have hnew : InOrder (period ++ [packet]) := List.Pairwise.sublist
          (sublist_of_mem_runs (hruns' ▸ List.mem_append_right front List.mem_cons_self)) h
        have hstart' : (period ++ [packet]).head? = some start := by
          rw [List.head?_append_of_ne_nil _ hperiod, hstart]
        rw [hruns, nsSum_activePeriods_concat hold hstart (hend.trans hbefore)] at ih
        rw [hruns', nsSum_activePeriods_concat hnew hstart' List.getLast?_concat,
          if_neg (hawake.1 hjoins)]
        omega

end Flow

namespace FlowGenerator

/-- **The columns of time agree.**  In every row of a capture that is in order of time,
the active periods and the silences add up to the gaps between the packets, and these
to the duration. -/
theorem run_durations (checks : Bool) (texts : Texts) (label : String) (order : HashOrder)
    (flowTimeoutNs activityTimeoutNs : I64) (packets : List FlowPacket)
    {rows : List FlowFeatures}
    (h : (run checks texts label order packets (.new flowTimeoutNs activityTimeoutNs) :
      Outcome Empty _) = .ok rows) (horder : InOrder packets) :
    ∀ row ∈ rows, nsSum row.active + nsSum row.idle = nsSum row.flowIat ∧
      row.flowDuration = nsSum row.flowIat / 1000 := by
  intro row hrow
  obtain ⟨flow, first, hsub, -, hfirst, rfl⟩ := exists_flow_of_mem h hrow
  have hflow : InOrder flow := horder.sublist hsub
  obtain ⟨last, hlast⟩ : ∃ last, flow.getLast? = some last :=
    ⟨_, List.getLast?_eq_some_getLast (List.ne_nil_of_mem (List.mem_of_head? hfirst))⟩
  obtain ⟨hle, hspan⟩ := Flow.head_le_getLast hflow hfirst hlast
  have hgaps := Flow.nsSum_gaps hflow hfirst hlast
  refine ⟨?_, ?_⟩
  · show nsSum (Flow.activePeriods _) + nsSum (List.filter _ _) = nsSum (neighbours Flow.gap flow)
    rw [Flow.activePeriods_add_idle hflow hfirst hlast, hgaps]
  · show max (Flow.gap first (flow.getLast?.getD first)).val 0 / 1000 =
      nsSum (neighbours Flow.gap flow) / 1000
    have hval : first.timestamp.val ≤ last.timestamp.val := hle
    rw [hlast, Option.getD_some, Flow.gap_val hle hspan, hgaps, max_eq_left (by omega)]

/-- A flow of three packets, with a silence in it. -/
theorem run_durations_silence :
    (rowsOf noTexts "" (I64.ofInt 5)
      [packetsAt [I64.ofInt 0, I64.ofInt 4, I64.ofInt 40]]).Forall fun row =>
        nsSum row.active + nsSum row.idle = nsSum row.flowIat ∧
          row.flowDuration = nsSum row.flowIat / 1000 := by
  have hrun : (run true noTexts "" HashOrder.entries
      (packetsAt [I64.ofInt 0, I64.ofInt 4, I64.ofInt 40]) (.new (I64.ofInt 50) (I64.ofInt 5)) :
        Outcome Empty _) = .ok (rowsOf noTexts "" (I64.ofInt 5)
          [packetsAt [I64.ofInt 0, I64.ofInt 4, I64.ofInt 40]]) := by
    decide +kernel
  exact List.forall_iff_forall_mem.2
    (run_durations true noTexts "" HashOrder.entries _ _ _ hrun (by decide +kernel))

end FlowGenerator

end Cicflowmeter
end Maja
