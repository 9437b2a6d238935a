/-
# Falling back to raw is atomic

A parser only appends to the layers of its context, whatever the context holds
(`parsers_appends`): the end that a header declares for its payload is restored on
every way out.  So cutting the layers back to the checkpoint undoes a child that
failed, and what `parse_child_with` leaves is all of the child or none of it.
-/

import Maja.Packet.Path

namespace Maja
namespace Packet

open Lib

variable {ctx : ParseContext} {offset fuel : ℕ} {p : Protocol}

/-- The rest of the region as one raw layer, or nothing. -/
def RestOrNothing (ctx : ParseContext) (offset : ℕ) (layers : List Layer) : Prop :=
  layers = [] ∨ offset < ctx.endOffset ∧ layers = [⟨.raw, offset, ctx.endOffset - offset⟩]

/-- `parse_raw` appends the rest, or nothing. -/
theorem parseRaw_appends (ctx : ParseContext) (offset : ℕ) :
    ∃ layers, RestOrNothing ctx offset layers ∧ parseRaw offset ctx = .ok ((), ctx.append layers) := by
  have hrun : parseRaw offset ctx = .ok ((), ctx.parseRaw offset) := rfl
  rw [hrun]
  unfold ParseContext.parseRaw
  by_cases hlt : offset < ctx.endOffset
  · by_cases hlast : ctx.layers.getLast? = some ⟨.raw, offset, ctx.endOffset - offset⟩
    · exact ⟨[], .inl rfl, by rw [append_nil, if_pos hlt, if_pos hlast]⟩
    · exact ⟨_, .inr ⟨hlt, rfl⟩, by rw [if_pos hlt, if_neg hlast]; rfl⟩
  · exact ⟨[], .inl rfl, by rw [append_nil, if_neg hlt]⟩

/-- The call appended layers to the context, and did nothing else to it. -/
def Appends (m : ParseM Unit) (ctx : ParseContext) (layers : List Layer) : Prop :=
  m ctx = .ok ((), ctx.append layers) ∨ ∃ err, m ctx = .err (err, ctx.append layers)

/-- A trace records its layers, whether it ends in an error or not. -/
theorem Trace.finish_appends {t : Trace} :
    t.finish ctx = .ok ((), ctx.append t.layers) ∨
      ∃ err, t.finish ctx = .err (err, ctx.append t.layers) := by
  unfold Trace.finish
  split
  · exact .inl rfl
  · exact .inr ⟨_, rfl⟩

/-- A trace without an error ends well. -/
theorem Trace.finish_eq_ok {t : Trace} {ctx' : ParseContext} :
    t.finish ctx = .ok ((), ctx') ↔ t.error = none ∧ ctx' = ctx.append t.layers := by
  unfold Trace.finish
  cases t.error <;> simp [eq_comm]

/-- **A parser appends to its context**, also when it fails. -/
theorem parsers_appends (hfuel : ctx.region.stop - offset < fuel) (hallow : ctx.CanPushLayer) :
    ∃ layers, Appends (parsers fuel p offset) ctx layers := by
  by_cases hraw : decode p ctx.region offset = .unparsed
  · -- a raw root: the rest may have been recorded already
    obtain ⟨fuel, rfl⟩ : ∃ n, fuel = n + 1 := ⟨fuel - 1, by omega⟩
    obtain ⟨layers, -, hparse⟩ := parseRaw_appends ctx offset
    refine ⟨layers, .inl ?_⟩
    rw [parsers, parse_eq_run, hraw]
    exact hparse
  · unfold Appends
    rw [parsers_eq_descend_of_unrecorded hfuel hallow fun h => absurd h hraw]
    exact ⟨_, Trace.finish_appends⟩

/-- **Falling back is atomic.**  In any context and at any offset, with fallback on,
`parse_child_with` returns `Ok`, and leaves the context as it was but for layers
that it appends: those of a child that succeeded; or, where the depth limit is
reached or the child failed, the rest of the region as one raw layer at most.  A
child that failed had done nothing to the context but append layers either. -/
theorem parseChildWith_atomic (hfuel : ctx.region.stop - offset < fuel)
    (hfallback : ctx.options.fallbackToRawOnChildError = true) :
    ∃ layers, parseChildWith (parsers fuel p) offset ctx = .ok ((), ctx.append layers) ∧
      (ctx.CanPushLayer ∧ parsers fuel p offset ctx = .ok ((), ctx.append layers) ∨
        (¬ctx.CanPushLayer ∨
          ∃ err removed, parsers fuel p offset ctx = .err (err, ctx.append removed)) ∧
          RestOrNothing ctx offset layers) := by
  obtain ⟨raws, hraws, hparseRaw⟩ := parseRaw_appends ctx offset
  unfold parseChildWith
  simp only [Prog.bind_apply, Prog.get_apply, Outcome.ok_bind]
  by_cases hallow : ctx.CanPushLayer
  · simp only [hallow, not_true_eq_false, if_false, Prog.bind_apply, Prog.result_apply]
    obtain ⟨layers, hok | ⟨err, herr⟩⟩ := parsers_appends (p := p) hfuel hallow
    · refine ⟨layers, ?_, .inl ⟨trivial, hok⟩⟩
      rw [hok]
      rfl
    · -- what the child recorded is cut off again
      refine ⟨raws, ?_, .inr ⟨.inr ⟨err, _, herr⟩, hraws⟩⟩
      have htruncate := truncate_append ctx layers
      simp [herr, hfallback, htruncate, hparseRaw]
  · exact ⟨raws, by rw [if_pos hallow]; exact hparseRaw, .inr ⟨.inl hallow, hraws⟩⟩

/-- One byte is no TCP header: the child fails, and the byte is recorded raw. -/
theorem parseChildWith_atomic_truncatedTcp :
    ∃ layers, parseChildWith (parsers 2 .tcp) 0 (.new [0] {} []) =
      .ok ((), (ParseContext.new [0] {} []).append layers) := by
  have hfuel : (ParseContext.new [0] {} []).region.stop - 0 < 2 := by decide
  obtain ⟨layers, hparse, -⟩ := parseChildWith_atomic (p := .tcp) hfuel rfl
  exact ⟨layers, hparse⟩

end Packet
end Maja
