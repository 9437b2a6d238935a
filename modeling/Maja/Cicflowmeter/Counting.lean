/-
# What a flow has counted

A flow holds the packets that were added to it, in the order in which they came
(`Flow.Holds`); everything that the generator asks a flow is read off them.  `Fits`
are the conditions under which the arithmetic of the statistics does not overflow.
-/

import Maja.Cicflowmeter.Flow

namespace Maja
namespace Cicflowmeter

open Lib Net

/-- The sample that a flow keeps of a packet. -/
def FlowPacket.sample (packet : FlowPacket) : Sample :=
  ⟨packet.timestamp, packet.payloadBytes, packet.tcpFlags⟩

/-- The packet carries a FIN. -/
def FlowPacket.fin (packet : FlowPacket) : Bool := packet.tcpFlags.contains TcpFlags.FIN

/-! ### One packet -/

/-- What a packet changes in a flow, statistics apart. -/
structure Flow.Takes (flow : Flow) (packet : FlowPacket) (flow' : Flow) : Prop where
  first : flow'.first = flow.first
  lastTimestamp : flow'.lastTimestamp = packet.timestamp
  flagCounts : flow'.flagCounts = Flow.checkFlags flow.flagCounts packet.tcpFlags
  forward : flow'.forward =
    flow.forward ++ if flow.isForward packet then [packet.sample] else []
  backward : flow'.backward =
    flow.backward ++ if flow.isForward packet then [] else [packet.sample]

namespace Flow

variable {ε : Type} {checks : Bool} {flow flow' : Flow} {packet : FlowPacket}

/-- The active period changes nothing but statistics. -/
theorem closeActive_frame (h : (flow.closeActive checks : Outcome ε Flow) = .ok flow') :
    ∃ active, flow' = { flow with active } := by
  unfold closeActive at h
  split_ifs at h
  · obtain ⟨period, -, h⟩ := Outcome.bind_eq_ok.1 h
    cases h
    exact ⟨_, rfl⟩
  · cases h
    exact ⟨_, rfl⟩

/-- So does a gap. -/
theorem addGap_frame (h : (flow.addGap checks packet : Outcome ε Flow) = .ok flow') :
    ∃ flowIat subflows active idle activeStart,
      flow' = { flow with flowIat, subflows, active, idle, activeStart } := by
  unfold addGap at h
  dsimp only at h
  split_ifs at h
  · obtain ⟨closed, hclosed, h⟩ := Outcome.bind_eq_ok.1 h
    obtain ⟨active, rfl⟩ := closeActive_frame hclosed
    cases h
    exact ⟨_, _, _, _, _, rfl⟩
  · obtain ⟨closed, hclosed, h⟩ := Outcome.bind_eq_ok.1 h
    obtain ⟨active, rfl⟩ := closeActive_frame hclosed
    cases h
    exact ⟨_, _, _, _, _, rfl⟩
  all_goals
    cases h
    exact ⟨_, _, _, _, _, rfl⟩

/-- A packet that is added is counted in its direction. -/
theorem add_takes (h : (flow.add checks packet : Outcome ε Flow) = .ok flow') :
    flow.Takes packet flow' := by
  unfold add at h
  obtain ⟨gap, hgap, h⟩ := Outcome.bind_eq_ok.1 h
  obtain ⟨flowIat, subflows, active, idle, activeStart, rfl⟩ := addGap_frame hgap
  split_ifs at h with hforward
  · obtain ⟨headers, -, h⟩ := Outcome.bind_eq_ok.1 h
    obtain ⟨bulk, -, h⟩ := Outcome.bind_eq_ok.1 h
    cases h
    have hdirection : flow.isForward packet = true := hforward
    exact ⟨rfl, rfl, rfl, by rw [hdirection]; rfl, by rw [hdirection]; exact (List.append_nil _).symm⟩
  · obtain ⟨headers, -, h⟩ := Outcome.bind_eq_ok.1 h
    obtain ⟨bulk, -, h⟩ := Outcome.bind_eq_ok.1 h
    cases h
    have hdirection : flow.isForward packet = false := Bool.eq_false_iff.2 hforward
    exact ⟨rfl, rfl, rfl, by rw [hdirection]; exact (List.append_nil _).symm, by rw [hdirection]; rfl⟩

/-- The active period after a packet of a flow that has some. -/
theorem add_active (h : (flow.add checks packet : Outcome ε Flow) = .ok flow')
    (hlength : 0 < flow.length) : flow'.activeEnd = packet.timestamp ∧ flow'.activeStart =
      if flow.activityTimeoutNs < packet.timestamp.saturatingSub flow.lastTimestamp
      then packet.timestamp else flow.activeStart := by
  have hsome : (!flow.forward.isEmpty || !flow.backward.isEmpty) = true := by
    rw [Flow.length] at hlength
    cases hforward : flow.forward with
    | nil =>
        cases hbackward : flow.backward with
        | nil => rw [hforward, hbackward] at hlength; simp at hlength
        | cons => rfl
    | cons => rfl
  unfold add at h
  obtain ⟨gap, hgap, h⟩ := Outcome.bind_eq_ok.1 h
  have hstart : gap.activeStart =
      if flow.activityTimeoutNs < packet.timestamp.saturatingSub flow.lastTimestamp
      then packet.timestamp else flow.activeStart := by
    rw [addGap, if_pos hsome] at hgap
    by_cases hidle : flow.activityTimeoutNs < packet.timestamp.saturatingSub flow.lastTimestamp
    · rw [if_pos hidle] at hgap ⊢
      obtain ⟨closed, -, hgap⟩ := Outcome.bind_eq_ok.1 hgap
      cases hgap
      rfl
    · rw [if_neg hidle] at hgap ⊢
      cases hgap
      rfl
  split_ifs at h
  all_goals
    obtain ⟨headers, -, h⟩ := Outcome.bind_eq_ok.1 h
    obtain ⟨bulk, -, h⟩ := Outcome.bind_eq_ok.1 h
    cases h
    exact ⟨rfl, hstart⟩

/-- One packet more. -/
theorem Takes.length (h : flow.Takes packet flow') : flow'.length = flow.length + 1 := by
  unfold Flow.length
  rw [h.forward, h.backward, List.length_append, List.length_append]
  cases flow.isForward packet <;> simp <;> omega

/-- The first counter counts the FINs. -/
theorem Takes.fins (h : flow.Takes packet flow') :
    flow'.finCount = flow.finCount + if packet.fin then 1 else 0 := by
  unfold finCount
  rw [h.flagCounts]
  simp only [checkFlags, Vector.getElem_zipWith]
  show (if packet.fin then _ else _) = _
  split_ifs <;> rfl

end Flow

/-! ### Arithmetic that fits -/

/-- The sums and differences of a bulk that goes on. -/
structure BulkState.Fits (bulk : BulkState) (packet : Sample) (otherLast : Option I64) : Prop where
  size : bulk.size.toNat + packet.size.toNat < 2 ^ 64
  fourth : bulk.packetCount + 1 = 4 →
    bulk.totalBytes.toNat + (bulk.size.toNat + packet.size.toNat) < 2 ^ 64 ∧
    I64.InRange
      (packet.timestamp.val - ((bulk.startAfter otherLast).getD packet.timestamp).val) ∧
    I64.InRange (bulk.duration.val +
      (packet.timestamp.val - ((bulk.startAfter otherLast).getD packet.timestamp).val))
  later : 4 < bulk.packetCount + 1 →
    bulk.totalBytes.toNat + packet.size.toNat < 2 ^ 64 ∧
    I64.InRange (packet.timestamp.val - (bulk.last.getD packet.timestamp).val) ∧
    I64.InRange
      (bulk.duration.val + (packet.timestamp.val - (bulk.last.getD packet.timestamp).val))

instance {bulk : BulkState} {packet : Sample} {otherLast : Option I64} :
    Decidable (bulk.Fits packet otherLast) :=
  decidable_of_iff
    (bulk.size.toNat + packet.size.toNat < 2 ^ 64 ∧ (bulk.packetCount + 1 = 4 → _) ∧
      (4 < bulk.packetCount + 1 → _))
    ⟨fun ⟨size, fourth, later⟩ => ⟨size, fourth, later⟩, fun h => ⟨h.size, h.fourth, h.later⟩⟩

/-- The bytes and the duration of a bulk that goes on. -/
theorem BulkState.grow_ok {ε α : Type} {checks : Bool} {bytes : ℕ} {n m : ℤ}
    {f : UInt64 → I64 → Outcome ε α}
    (h : checks = true → bytes < 2 ^ 64 ∧ I64.InRange n ∧ I64.InRange (m + n))
    (hf : ∀ totalBytes duration, ∃ a, f totalBytes duration = .ok a) :
    ∃ a, (U64.arith checks bytes >>= fun totalBytes => I64.arith checks n >>= fun length =>
      I64.arith checks (m + length.val) >>= f totalBytes) = .ok a := by
  obtain ⟨length, hlength, hval⟩ := @I64.arith_eq_ok ε checks n fun hchecks => (h hchecks).2.1
  obtain ⟨duration, hduration, -⟩ := @I64.arith_eq_ok ε checks (m + length.val) fun hchecks => by
    rw [hval (h hchecks).2.1]
    exact (h hchecks).2.2
  rw [U64.arith_eq_ok fun hchecks => (h hchecks).1, Outcome.ok_bind, hlength, Outcome.ok_bind,
    hduration, Outcome.ok_bind]
  exact hf _ _

/-- A bulk whose sums fit takes a packet without a panic. -/
theorem BulkState.add_ok {ε : Type} {checks : Bool} {bulk : BulkState} {packet : Sample}
    {otherLast : Option I64} (h : checks = true → packet.payloadBytes ≠ 0 →
      bulk.begins packet otherLast = false → bulk.Fits packet otherLast) :
    ∃ bulk', (bulk.add checks packet otherLast : Outcome ε BulkState) = .ok bulk' := by
  by_cases hpayload : packet.payloadBytes = 0
  · exact ⟨_, add_of_no_payload hpayload⟩
  rw [add, if_neg (mt Sample.payloadF64_eq_zero_iff.1 hpayload)]
  by_cases hbegins : bulk.begins packet otherLast = true
  · exact ⟨_, if_pos hbegins⟩
  rw [if_neg hbegins]
  have hfits := fun hchecks => h hchecks hpayload (Bool.eq_false_iff.2 hbegins)
  rw [U64.arith_eq_ok fun hchecks => (hfits hchecks).size, Outcome.ok_bind]
  dsimp only
  by_cases hfourth : bulk.packetCount + 1 = 4
  · rw [if_pos hfourth]
    refine grow_ok (fun hchecks => ?_) fun _ _ => ⟨_, rfl⟩
    rw [UInt64.toNat_ofNat_of_lt' (hfits hchecks).size]
    exact (hfits hchecks).fourth hfourth
  rw [if_neg hfourth]
  by_cases hlater : 4 < bulk.packetCount + 1
  · rw [if_pos hlater]
    exact grow_ok (fun hchecks => (hfits hchecks).later hlater) fun _ _ => ⟨_, rfl⟩
  · exact ⟨_, if_neg hlater⟩

namespace Flow

variable {ε : Type} {checks : Bool} {flow flow' : Flow} {packet : FlowPacket}

/-- The active period of the flow can be closed. -/
def CloseFits (checks : Bool) (flow : Flow) : Prop :=
  checks = true → flow.activeStart < flow.activeEnd →
    I64.InRange (flow.activeEnd.val - flow.activeStart.val)

instance : Decidable (flow.CloseFits checks) := inferInstanceAs (Decidable (_ → _ → _))

/-- An active period whose length fits is closed without a panic. -/
theorem closeActive_ok (h : flow.CloseFits checks) :
    ∃ flow', (flow.closeActive checks : Outcome ε Flow) = .ok flow' := by
  unfold closeActive
  by_cases hlt : flow.activeStart < flow.activeEnd
  · obtain ⟨period, hperiod, -⟩ := @I64.arith_eq_ok ε checks _ fun hchecks => h hchecks hlt
    rw [if_pos hlt, hperiod]
    exact ⟨_, rfl⟩
  · exact ⟨_, if_neg hlt⟩

/-- The flow can be written as a row. -/
theorem finish_ok (texts : Texts) (label : String) (h : flow.CloseFits checks) :
    ∃ row, (flow.finish checks texts label : Outcome ε FlowFeatures) = .ok row := by
  obtain ⟨closed, hclosed⟩ := @closeActive_ok ε checks flow h
  exact ⟨_, by rw [finish, hclosed, Outcome.ok_bind]; rfl⟩

/-- The packet is added without an overflow: the active period that it ends, the
headers and the bulk of its direction. -/
structure AddFits (flow : Flow) (packet : FlowPacket) : Prop where
  close : flow.activityTimeoutNs < packet.timestamp.saturatingSub flow.lastTimestamp →
    flow.CloseFits true
  forwardHeaders : flow.isForward packet = true →
    flow.forwardHeaders.toNat + packet.headerBytes.toNat < 2 ^ 64
  backwardHeaders : flow.isForward packet = false →
    flow.backwardHeaders.toNat + packet.headerBytes.toNat < 2 ^ 64
  forwardBulk : flow.isForward packet = true → packet.payloadBytes ≠ 0 →
    flow.forwardBulk.begins packet.sample flow.lastBackward = false →
    flow.forwardBulk.Fits packet.sample flow.lastBackward
  backwardBulk : flow.isForward packet = false → packet.payloadBytes ≠ 0 →
    flow.backwardBulk.begins packet.sample flow.lastForward = false →
    flow.backwardBulk.Fits packet.sample flow.lastForward

instance : Decidable (flow.AddFits packet) :=
  decidable_of_iff
    ((flow.activityTimeoutNs < packet.timestamp.saturatingSub flow.lastTimestamp → _) ∧
      (flow.isForward packet = true → _) ∧ (flow.isForward packet = false → _) ∧
      (flow.isForward packet = true → _) ∧ (flow.isForward packet = false → _))
    ⟨fun ⟨close, forwardHeaders, backwardHeaders, forwardBulk, backwardBulk⟩ =>
      ⟨close, forwardHeaders, backwardHeaders, forwardBulk, backwardBulk⟩,
    fun h => ⟨h.close, h.forwardHeaders, h.backwardHeaders, h.forwardBulk, h.backwardBulk⟩⟩

/-- A gap that fits is noted without a panic. -/
theorem addGap_ok (h : checks = true → flow.AddFits packet) :
    ∃ flow', (flow.addGap checks packet : Outcome ε Flow) = .ok flow' := by
  have hclose : ∀ flowIat subflows, flow.activityTimeoutNs <
      packet.timestamp.saturatingSub flow.lastTimestamp → ∃ flow', (closeActive checks
        { flow with flowIat, subflows } : Outcome ε Flow) = .ok flow' := by
    intro flowIat subflows hidle
    refine closeActive_ok ?_
    intro hchecks
    exact (h hchecks).close hidle rfl
  unfold addGap
  split_ifs with hempty
  · dsimp only
    split
    · obtain ⟨closed, hclosed⟩ := hclose _ _ ‹_›
      rw [hclosed]
      exact ⟨_, rfl⟩
    · exact ⟨_, rfl⟩
  · exact ⟨_, rfl⟩

/-- A forward packet whose sums fit is taken without a panic. -/
theorem addForward_ok {sample : Sample}
    (hheaders : checks = true → flow.forwardHeaders.toNat + packet.headerBytes.toNat < 2 ^ 64)
    (hbulk : checks = true → sample.payloadBytes ≠ 0 →
      flow.forwardBulk.begins sample flow.lastBackward = false →
      flow.forwardBulk.Fits sample flow.lastBackward) :
    ∃ flow', (flow.addForward checks packet sample : Outcome ε Flow) = .ok flow' := by
  obtain ⟨bulk, hok⟩ := @BulkState.add_ok ε checks _ _ _ hbulk
  exact ⟨_, by rw [addForward, U64.arith_eq_ok hheaders, Outcome.ok_bind, hok]; rfl⟩

/-- A backward packet whose sums fit is taken without a panic. -/
theorem addBackward_ok {sample : Sample}
    (hheaders : checks = true → flow.backwardHeaders.toNat + packet.headerBytes.toNat < 2 ^ 64)
    (hbulk : checks = true → sample.payloadBytes ≠ 0 →
      flow.backwardBulk.begins sample flow.lastForward = false →
      flow.backwardBulk.Fits sample flow.lastForward) :
    ∃ flow', (flow.addBackward checks packet sample : Outcome ε Flow) = .ok flow' := by
  obtain ⟨bulk, hok⟩ := @BulkState.add_ok ε checks _ _ _ hbulk
  exact ⟨_, by rw [addBackward, U64.arith_eq_ok hheaders, Outcome.ok_bind, hok]; rfl⟩

/-- A packet whose sums fit is added without a panic. -/
theorem add_ok (h : checks = true → flow.AddFits packet) :
    ∃ flow', (flow.add checks packet : Outcome ε Flow) = .ok flow' := by
  obtain ⟨gap, hgap⟩ := @addGap_ok ε checks flow packet h
  obtain ⟨flowIat, subflows, active, idle, activeStart, rfl⟩ := addGap_frame hgap
  rw [add, hgap, Outcome.ok_bind]
  split_ifs with hforward
  · exact addForward_ok (fun hchecks => (h hchecks).forwardHeaders hforward)
      fun hchecks => (h hchecks).forwardBulk hforward
  · have hbackward : flow.isForward packet = false := Bool.eq_false_iff.2 hforward
    exact addBackward_ok (fun hchecks => (h hchecks).backwardHeaders hbackward)
      fun hchecks => (h hchecks).backwardBulk hbackward

/-- A first packet always fits. -/
theorem new_ok (checks : Bool) (packet : FlowPacket) (activityTimeoutNs : I64) :
    ∃ flow, (Flow.new checks packet activityTimeoutNs : Outcome ε Flow) = .ok flow := by
  have hheader : packet.headerBytes.toNat < 2 ^ 64 := packet.headerBytes.toNat_lt
  refine add_ok fun _ => ⟨?_, ?_, ?_, ?_, ?_⟩
  · intro _ _ hlt
    exact absurd hlt (lt_irrefl packet.timestamp)
  · intro _
    show 0 + _ < _
    omega
  · intro _
    show 0 + _ < _
    omega
  · intro _ _ hbegins
    cases hbegins
  · intro _ _ hbegins
    cases hbegins

/-! ### The packets of a flow -/

/-- The flow that these packets make, in this order. -/
inductive Holds (checks : Bool) (activityTimeoutNs : I64) : List FlowPacket → Flow → Prop where
  | new {packet : FlowPacket} {flow : Flow}
      (h : (Flow.new checks packet activityTimeoutNs : Outcome Empty Flow) = .ok flow) :
      Holds checks activityTimeoutNs [packet] flow
  | add {packets : List FlowPacket} {flow : Flow} {packet : FlowPacket} {flow' : Flow}
      (hs : Holds checks activityTimeoutNs packets flow)
      (h : (flow.add checks packet : Outcome Empty Flow) = .ok flow') :
      Holds checks activityTimeoutNs (packets ++ [packet]) flow'

namespace Holds

variable {activityTimeoutNs : I64} {packets : List FlowPacket}

/-- A new flow has its first packet, in the forward direction. -/
theorem new_takes (h : (Flow.new checks packet activityTimeoutNs : Outcome ε Flow) = .ok flow) :
    flow.first = packet ∧ flow.lastTimestamp = packet.timestamp ∧ flow.forward = [packet.sample] ∧
      flow.backward = [] ∧ flow.finCount = if packet.fin then 1 else 0 := by
  have htakes := add_takes h
  have hforward : (opened packet activityTimeoutNs).isForward packet = true := by
    simp [isForward, opened]
  refine ⟨htakes.first, htakes.lastTimestamp, ?_, ?_, ?_⟩
  · rw [htakes.forward, hforward]
    rfl
  · rw [htakes.backward, hforward]
    rfl
  · rw [htakes.fins]
    exact Nat.zero_add _

/-- The first packet of a flow. -/
theorem first (h : Holds checks activityTimeoutNs packets flow) :
    packets.head? = some flow.first := by
  induction h with
  | new h => rw [(new_takes h).1]; rfl
  | add hs h ih => rw [List.head?_append, ih, (add_takes h).first]; rfl

/-- The last timestamp of a flow is that of its last packet. -/
theorem lastTimestamp (h : Holds checks activityTimeoutNs packets flow) :
    packets.getLast?.map FlowPacket.timestamp = some flow.lastTimestamp := by
  induction h with
  | new h => rw [(new_takes h).2.1]; rfl
  | add hs h ih => rw [List.getLast?_concat, (add_takes h).lastTimestamp]; rfl

/-- Every packet is counted once, in one of the two directions. -/
theorem length (h : Holds checks activityTimeoutNs packets flow) :
    flow.forward.length + flow.backward.length = packets.length := by
  induction h with
  | new h =>
      obtain ⟨-, -, hforward, hbackward, -⟩ := new_takes h
      rw [hforward, hbackward]
      rfl
  | add hs h ih =>
      rw [List.length_append, ← ih]
      exact (add_takes h).length

/-- The FIN counter knows of every FIN in either direction. -/
theorem fins (h : Holds checks activityTimeoutNs packets flow) :
    (flow.forward ++ flow.backward).any (·.flags.contains TcpFlags.FIN) = true →
      0 < flow.finCount := by
  induction h with
  | new h =>
      obtain ⟨-, -, hforward, hbackward, hfins⟩ := new_takes h
      rw [hforward, hbackward, hfins]
      intro hany
      rw [if_pos (by simpa [FlowPacket.sample, FlowPacket.fin] using hany)]
      exact Nat.one_pos
  | @add packets flow packet flow' hs h ih =>
      have htakes := add_takes h
      rw [htakes.fins, htakes.forward, htakes.backward]
      intro hany
      by_cases hfin : packet.fin = true
      · rw [if_pos hfin]
        omega
      · have hbefore : (flow.forward ++ flow.backward).any (·.flags.contains TcpFlags.FIN) = true := by
          have hsample : packet.sample.flags.contains TcpFlags.FIN = false :=
            Bool.eq_false_iff.2 hfin
          cases hforward : flow.isForward packet <;>
            simpa only [hforward, if_true, if_false, Bool.false_eq_true, List.any_append,
              List.any_cons, List.any_nil, hsample, Bool.or_false, Bool.or_eq_true] using hany
        have := ih hbefore
        omega

end Holds

end Flow

end Cicflowmeter
end Maja
