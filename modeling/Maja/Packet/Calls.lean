/-
# The calls of a parse

A parse is a chain of calls: a root parser, and behind each recorded header the
parser that its verdict names, if the options let it run.  Which calls are made
depends on the bytes alone, not on how they end.
-/

import Maja.Packet.Descent
import Mathlib.Logic.Relation

namespace Maja
namespace Packet

open Lib

/-- A call of a parser: how many layers there are, and where it reads. -/
structure Call where
  protocol : Protocol
  depth : ℕ
  region : Region
  offset : ℕ

namespace Call

/-- What the call comes to. -/
def verdict (c : Call) : Verdict := decode c.protocol c.region c.offset

/-- The child that the call hands the bytes behind its header to. -/
inductive Step (options : ParseOptions) (c : Call) : Call → Prop
  | header {len : ℕ} {child : Protocol} : c.verdict = .header len (.child child) →
      options.AllowsLayer (c.depth + 1) →
      Step options c ⟨child, c.depth + 1, c.region, c.offset + len⟩
  | datagram {len : ℕ} {payloadEnd : Option ℕ} {child : Protocol} :
      c.verdict = .datagram len payloadEnd (.child child) →
      options.AllowsLayer (c.depth + 1) →
      Step options c ⟨child, c.depth + 1, c.region.narrow payloadEnd, c.offset + len⟩

/-- The calls below a call, itself included. -/
def Leads (options : ParseOptions) : Call → Call → Prop := Relation.ReflTransGen (Step options)

/-- What holds of all calls below one holds of it and of all calls below its child. -/
theorem forall_leads_iff {options : ParseOptions} {c : Call} {Q : Call → Prop} :
    (∀ d, Leads options c d → Q d) ↔
      Q c ∧ ∀ c', Step options c c' → ∀ d, Leads options c' d → Q d := by
  constructor
  · intro h
    exact ⟨h c .refl, fun c' hstep d hd => h d (hd.head hstep)⟩
  · rintro ⟨hc, hchild⟩ d hd
    rcases hd.cases_head with rfl | ⟨c', hstep, hd⟩
    · exact hc
    · exact hchild c' hstep d hd

/-- A call that stops at its header. -/
theorem forall_leads_of_noStep {options : ParseOptions} {c : Call} {Q : Call → Prop}
    (h : ∀ c', ¬Step options c c') : (∀ d, Leads options c d → Q d) ↔ Q c := by
  rw [forall_leads_iff]
  exact ⟨And.left, fun hc => ⟨hc, fun c' hstep => absurd hstep (h c')⟩⟩

/-- A header leads to the child behind it. -/
theorem forall_step_header {options : ParseOptions} {c : Call} {len : ℕ} {next : Next}
    {Q : Call → Prop} (h : c.verdict = .header len next) :
    (∀ c', Step options c c' → Q c') ↔
      ∀ child, next = .child child → options.AllowsLayer (c.depth + 1) →
        Q ⟨child, c.depth + 1, c.region, c.offset + len⟩ := by
  constructor
  · rintro hQ child rfl hallow
    exact hQ _ (.header h hallow)
  · rintro hQ c' (⟨h', hallow⟩ | ⟨h', hallow⟩)
    · rw [h] at h'
      cases h'
      exact hQ _ rfl hallow
    · rw [h] at h'
      cases h'

/-- A datagram leads to the child in its payload. -/
theorem forall_step_datagram {options : ParseOptions} {c : Call} {len : ℕ} {payloadEnd : Option ℕ}
    {next : Next} {Q : Call → Prop} (h : c.verdict = .datagram len payloadEnd next) :
    (∀ c', Step options c c' → Q c') ↔
      ∀ child, next = .child child → options.AllowsLayer (c.depth + 1) →
        Q ⟨child, c.depth + 1, c.region.narrow payloadEnd, c.offset + len⟩ := by
  constructor
  · rintro hQ child rfl hallow
    exact hQ _ (.datagram h hallow)
  · rintro hQ c' (⟨h', hallow⟩ | ⟨h', hallow⟩)
    · rw [h] at h'
      cases h'
    · rw [h] at h'
      cases h'
      exact hQ _ rfl hallow

/-- Only a header and a datagram lead on. -/
theorem not_step {options : ParseOptions} {c : Call}
    (hheader : ∀ len next, c.verdict ≠ .header len next)
    (hdatagram : ∀ len payloadEnd next, c.verdict ≠ .datagram len payloadEnd next) (c' : Call) :
    ¬Step options c c' := by
  rintro (⟨h, -⟩ | ⟨h, -⟩)
  · exact hheader _ _ h
  · exact hdatagram _ _ _ h

end Call

/-- The call of the root parser of a link type. -/
def rootCall (bytes : List UInt8) (p : Protocol) : Call := ⟨p, 0, .whole bytes, 0⟩

/-- The parse of the bytes makes the call. -/
def Reaches (options : ParseOptions) (linkType : Capture.LinkType) (bytes : List UInt8)
    (c : Call) : Prop :=
  ∃ p, rootOf bytes linkType = .protocol p ∧ options.AllowsLayer 0 ∧
    Call.Leads options (rootCall bytes p) c

end Packet
end Maja
