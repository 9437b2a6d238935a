/-
# The maps write addresses only

Direct maps and flow maps write the two addresses of the outermost IP header, and
what `Rewriter::rewrite` writes besides is what `fix_checksums` does
(`rewrite_eq_ok`).
-/

import Maja.Mergecap.Map.FlowRun
import Maja.Mergecap.Map.Frame

namespace Maja
namespace Mergecap

open Lib Packet

variable {ε : Type} {ρ : Type} [StdRng ρ] {options : ParseOptions} {p q q' : Maja.Packet}

/-! ### Addresses -/

section Addresses

variable (o : Outermost p options)

/-- The outermost header of a rewritten packet: its family, layer and fields. -/
theorem Rewrites.family_cases (h : Rewrites p q) (htable : LayerTable p.bytes p.layers) :
    (outerIpFamily q = some .v4 ∧ q.nthLayer .ipv4 (-1) = some o.ip ∧ o.ip.protocol = .ipv4 ∧
      ipFields o.ip = [Ipv4Viewer.checksum, Ipv4Viewer.src, Ipv4Viewer.dst]) ∨
    (outerIpFamily q = some .v6 ∧ q.nthLayer .ipv6 (-1) = some o.ip ∧ o.ip.protocol = .ipv6 ∧
      ipFields o.ip = [Ipv6Viewer.src, Ipv6Viewer.dst]) := by
  obtain ⟨hfamily, hlayer⟩ := outermost_family o htable
  rw [h.outerIpFamily_eq, h.nthLayer_eq, h.nthLayer_eq, hfamily, familyOf, ipFields]
  obtain hip | hip := (show o.ip.protocol = .ipv4 ∨ o.ip.protocol = .ipv6 from o.isIp)
  · rw [hip] at hlayer
    exact .inl ⟨by rw [if_pos hip], hlayer, hip, if_pos hip⟩
  · have hne : ¬o.ip.protocol = .ipv4 := by rw [hip]; decide
    rw [hip] at hlayer
    exact .inr ⟨by rw [if_neg hne], hlayer, hip, if_neg hne⟩

/-- Setting one address changes nothing but addresses. -/
theorem setAddr_readdresses (h : Readdresses p q) {family : IpFamily} {f : Field}
    {target : Option IpAddr} (hf : f ∈ ipFields o.ip)
    (hset : (setAddr family o.ip f target q : Outcome ε _) = .ok q') : Readdresses p q' := by
  unfold setAddr at hset
  split at hset
  · exact h.setField o.outerIp_eq hf hset
  · exact h.setField o.outerIp_eq hf hset
  · obtain rfl := Outcome.ok.inj hset
    exact h

/-- Setting both addresses changes nothing but addresses. -/
theorem setAddrs_readdresses (h : Readdresses p q) {family : IpFamily} {src dst : Field}
    {targets : Targets} (hsrc : src ∈ ipFields o.ip) (hdst : dst ∈ ipFields o.ip)
    (hset : (setAddrs family o.ip src dst targets q : Outcome ε _) = .ok q') :
    Readdresses p q' := by
  obtain ⟨_, -, hset⟩ := Outcome.bind_eq_ok.1 hset
  obtain ⟨q₁, hfirst, hsecond⟩ := Outcome.bind_eq_ok.1 hset
  exact setAddr_readdresses o (setAddr_readdresses o h hsrc hfirst) hdst hsecond

/-- The direct maps change nothing but addresses. -/
theorem rewriteHeader_readdresses (h : Readdresses p q) {family : IpFamily} {src dst : Field}
    {maps maps' : DirectMaps ρ} {changed : Bool} (hsrc : src ∈ ipFields o.ip)
    (hdst : dst ∈ ipFields o.ip)
    (hrun : DirectMaps.rewriteHeader family o.ip src dst q maps = .ok ((changed, q'), maps')) :
    Readdresses p q' := by
  simp only [DirectMaps.rewriteHeader, DirectMaps.rewriteField, Outcome.bind_eq_ok,
    Outcome.pure_eq, Outcome.ok.injEq] at hrun
  obtain ⟨_, ⟨_, -, _, -, q₁, hfirst, rfl⟩, _, ⟨_, -, _, -, q₂, hsecond, rfl⟩, heq⟩ := hrun
  obtain rfl := (Prod.mk.inj (Prod.mk.inj heq).1).2
  exact setAddr_readdresses o (setAddr_readdresses o h hsrc hfirst) hdst hsecond

end Addresses

/-- Applying targets writes the addresses of the outermost header. -/
theorem applyTargets_readdresses (hp : p.Parsed) (h : Readdresses p q) {targets : Targets}
    (happly : (applyTargets q targets : Outcome ε _) = .ok q') : Readdresses p q' := by
  rw [applyTargets] at happly
  obtain hnone | ⟨options, ⟨o⟩⟩ := hp.outermost
  · rw [h.rewrites.outerIpFamily_eq, outerIpFamily_eq_none hnone] at happly
    obtain rfl := Outcome.ok.inj happly
    exact h
  · obtain ⟨hfamily, hlayer, -, hfields⟩ | ⟨hfamily, hlayer, -, hfields⟩ :=
      h.rewrites.family_cases o hp.table <;>
    · rw [hfamily, hlayer] at happly
      exact setAddrs_readdresses o h (by rw [hfields]; simp) (by rw [hfields]; simp) happly

/-- So does a direct map. -/
theorem directRewrite_readdresses (hp : p.Parsed) (h : Readdresses p q) {maps maps' : DirectMaps ρ}
    {changed : Bool} (hrun : DirectMaps.rewrite q maps = .ok ((changed, q'), maps')) :
    Readdresses p q' := by
  rw [DirectMaps.rewrite] at hrun
  obtain hnone | ⟨options, ⟨o⟩⟩ := hp.outermost
  · rw [h.rewrites.outerIpFamily_eq, outerIpFamily_eq_none hnone] at hrun
    obtain rfl := (Prod.mk.inj (Prod.mk.inj (Outcome.ok.inj hrun)).1).2
    exact h
  · obtain ⟨hfamily, hlayer, -, hfields⟩ | ⟨hfamily, hlayer, -, hfields⟩ :=
      h.rewrites.family_cases o hp.table <;>
    · rw [hfamily, hlayer] at hrun
      exact rewriteHeader_readdresses o h (by rw [hfields]; simp) (by rw [hfields]; simp) hrun

/-- So does a flow map. -/
theorem flowRewrite_readdresses (hp : p.Parsed) (h : Readdresses p q) {s s' : FlowState ρ} {group : ℕ}
    {changed : Bool} (hrun : FlowState.rewrite q group s = .ok ((changed, q'), s')) :
    Readdresses p q' := by
  obtain ⟨given, -, -, ⟨-, rfl⟩ | happly⟩ := FlowState.rewrite_eq_ok hrun
  · exact h
  · exact applyTargets_readdresses hp h happly

/-- A map that is not there does nothing. -/
theorem runMap_readdresses {μ : Type} {rewrite : Maja.Packet → Prog μ Empty (Bool × Maja.Packet)}
    {map map' : Option μ} {changed : Bool} (h : Readdresses p q)
    (hrewrite : ∀ {map map' : μ} {changed : Bool},
      rewrite q map = .ok ((changed, q'), map') → Readdresses p q')
    (hrun : MapRewriter.runMap rewrite q map = .ok ((changed, q'), map')) : Readdresses p q' := by
  unfold MapRewriter.runMap at hrun
  split at hrun
  · obtain rfl := (Prod.mk.inj (Prod.mk.inj (Outcome.ok.inj hrun)).1).2
    exact h
  · split at hrun
    · rename_i hok
      obtain rfl := (Prod.mk.inj (Outcome.ok.inj hrun)).1
      exact hrewrite hok
    · rename_i e _ _
      exact e.elim
    · cases hrun
    · cases hrun

/-- **The maps write addresses**, and the checksums are fixed behind them. -/
theorem rewrite_eq_ok {checks changed : Bool} {group : ℕ} {rewriter rewriter' : MapRewriter ρ}
    (hp : p.Parsed)
    (h : MapRewriter.rewrite checks p group rewriter = .ok ((changed, q'), rewriter')) :
    ∃ q, Readdresses p q ∧ if changed && rewriter.fixChecksum then
        (fixChecksums checks q : Outcome (Empty × MapRewriter ρ) _) = .ok q'
      else q' = q := by
  unfold MapRewriter.rewrite at h
  split at h
  · rename_i hdirect
    split at h
    · rename_i hflow
      have h₁ := runMap_readdresses (.refl p) (directRewrite_readdresses hp (.refl p)) hdirect
      have h₂ := runMap_readdresses h₁ (flowRewrite_readdresses hp h₁) hflow
      dsimp only at h
      split_ifs at h with hfix
      · obtain ⟨q₃, hfixed, h⟩ := Outcome.bind_eq_ok.1 h
        obtain ⟨rfl, rfl⟩ := Prod.mk.inj (Prod.mk.inj (Outcome.ok.inj h)).1
        exact ⟨_, h₂, by rwa [if_pos hfix]⟩
      · obtain ⟨rfl, rfl⟩ := Prod.mk.inj (Prod.mk.inj (Outcome.ok.inj h)).1
        exact ⟨_, h₂, by rw [if_neg hfix]⟩
    · rename_i e _ _
      exact e.elim
    · cases h
    · cases h
  · rename_i e _ _
    exact e.elim
  · cases h
  · cases h

end Mergecap
end Maja
