/-
# Reading targets back

`apply_targets` writes what an address is given into the outermost IP header, and the
header then shows it (`outerAddrs_applyTargets`).  A target of the other family is
skipped, so it is not shown.
-/

import Maja.Mergecap.Map.Stable

namespace Maja
namespace Mergecap

open Lib Packet

/-- The family of an IP header. -/
def IpFamily.family : IpFamily → Family
  | v4 => .v4
  | v6 => .v6

/-- The bytes of an address. -/
def IpFamily.addrLen : IpFamily → ℕ
  | v4 => 4
  | v6 => 16

variable {ε : Type} {packet packet' : Maja.Packet} {layer : Layer} {family : IpFamily}
  {f g : Field} {target : Option IpAddr} {targets : Targets}

/-- The address of a field is of the family of its header. -/
theorem IpFamily.ofAddr_addrOf (family : IpFamily) (value : ℕ) :
    Family.ofAddr (family.addrOf value) = family.family := by
  cases family <;> rfl

/-- The number of an address is that address. -/
theorem IpFamily.addrOf_addrToU128 : ∀ {family : IpFamily} {ip : IpAddr},
    Family.ofAddr ip = family.family → family.addrOf (addrToU128 ip) = ip
  | .v4, .v4 _, _ => by simp [addrOf, addrToU128]
  | .v6, .v6 _, _ => by simp [addrOf, addrToU128]

/-- The number of an address fits the field. -/
theorem addrToU128_lt : ∀ {family : IpFamily} {ip : IpAddr},
    Family.ofAddr ip = family.family → addrToU128 ip < 256 ^ family.addrLen
  | .v4, .v4 ip, _ => ip.isLt.trans_le (by decide)
  | .v6, .v6 ip, _ => ip.isLt.trans_le (by decide)

/-- Setting an address keeps the layers. -/
theorem setAddr_layers (hset : (setAddr family layer f target packet : Outcome ε _) = .ok packet') :
    packet'.layers = packet.layers := by
  unfold setAddr at hset
  split at hset
  · exact (setField_eq_ok hset).1
  · exact (setField_eq_ok hset).1
  · obtain rfl := Outcome.ok.inj hset
    rfl

/-- A target of the header's family is read back, and without one the address stays. -/
theorem getField_setAddr {value : ℕ} (hspec : f.spec = { size := family.addrLen })
    (hfamily : ∀ ip ∈ target, Family.ofAddr ip = family.family)
    (hset : (setAddr family layer f target packet : Outcome ε _) = .ok packet')
    (hget : (packet.getField layer f : Outcome ε ℕ) = .ok value) :
    (packet'.getField layer f : Outcome ε ℕ) = .ok ((target.map addrToU128).getD value) := by
  cases target with
  | none =>
      rw [setAddr_of_not_writes (by cases family <;> rfl)] at hset
      obtain rfl := Outcome.ok.inj hset
      exact hget
  | some ip =>
      have hip := hfamily ip rfl
      have hset' : (packet.setField layer f (addrToU128 ip) : Outcome ε _) = .ok packet' := by
        cases family <;> cases ip <;> first | exact hset | cases hip
      rw [getField_setField (by rw [hspec]) (by rw [hspec]) hset', hspec,
        Nat.mod_eq_of_lt (addrToU128_lt hip)]
      rfl

/-- Setting one address leaves the other. -/
theorem getField_setAddr_of_disjoint (hdisjoint : f.hi ≤ g.lo ∨ g.hi ≤ f.lo)
    (hset : (setAddr family layer f target packet : Outcome ε _) = .ok packet') :
    (packet'.getField layer g : Outcome ε ℕ) = packet.getField layer g := by
  unfold setAddr at hset
  split at hset
  · exact getField_setField_of_disjoint hdisjoint hset
  · exact getField_setField_of_disjoint hdisjoint hset
  · obtain rfl := Outcome.ok.inj hset
    rfl

/-- The address that a field holds once a target was written. -/
theorem addrOf_target {value : ℕ} (hfamily : ∀ ip ∈ target, Family.ofAddr ip = family.family) :
    family.addrOf ((target.map addrToU128).getD value) = target.getD (family.addrOf value) := by
  cases target with
  | none => rfl
  | some ip => exact IpFamily.addrOf_addrToU128 (hfamily ip rfl)

/-- **Both targets are read back from the header.** -/
theorem addrsAt_setAddrs {src dst : Field} {addrs : IpAddr × IpAddr}
    (hsrc : src.spec = { size := family.addrLen }) (hdst : dst.spec = { size := family.addrLen })
    (hdisjoint : src.hi ≤ dst.lo)
    (hsrcFamily : ∀ ip ∈ targets.src, Family.ofAddr ip = Family.ofAddr addrs.1)
    (hdstFamily : ∀ ip ∈ targets.dst, Family.ofAddr ip = Family.ofAddr addrs.2)
    (hset : (setAddrs family layer src dst targets packet : Outcome ε _) = .ok packet')
    (haddrs : (addrsAt family layer src dst packet : Outcome ε _) = .ok addrs) :
    packet'.layers = packet.layers ∧ (addrsAt family layer src dst packet' : Outcome ε _) =
      .ok (targets.src.getD addrs.1, targets.dst.getD addrs.2) := by
  obtain ⟨_, -, hset⟩ := Outcome.bind_eq_ok.1 hset
  obtain ⟨packet₁, hfirst, hsecond⟩ := Outcome.bind_eq_ok.1 hset
  obtain ⟨source, hsource, haddrs⟩ := Outcome.bind_eq_ok.1 haddrs
  obtain ⟨destination, hdestination, haddrs⟩ := Outcome.bind_eq_ok.1 haddrs
  obtain rfl := Outcome.ok.inj haddrs
  simp only [IpFamily.ofAddr_addrOf] at hsrcFamily hdstFamily
  have hsource' := getField_setAddr hsrc hsrcFamily hfirst hsource
  rw [← getField_setAddr_of_disjoint (.inr hdisjoint) hsecond] at hsource'
  rw [← getField_setAddr_of_disjoint (.inl hdisjoint) hfirst] at hdestination
  have hdestination' := getField_setAddr hdst hdstFamily hsecond hdestination
  refine ⟨(setAddr_layers hsecond).trans (setAddr_layers hfirst), ?_⟩
  rw [addrsAt, hsource', Outcome.ok_bind, hdestination', Outcome.ok_bind,
    addrOf_target hsrcFamily, addrOf_target hdstFamily]
  rfl

/-- Which header is outermost is read off the layers. -/
theorem outerIpFamily_congr (h : packet'.layers = packet.layers) :
    outerIpFamily packet' = outerIpFamily packet := by
  unfold outerIpFamily nthLayer
  rw [h]

/-- Which layer is found depends on the layers alone. -/
theorem nthLayer_congr (h : packet'.layers = packet.layers) (protocol : Protocol) (index : ℤ) :
    packet'.nthLayer protocol index = packet.nthLayer protocol index := by
  unfold nthLayer
  rw [h]

/-- Reading addresses does not depend on what an error would be. -/
theorem addrsAt_eq_ok {ε' : Type} {src dst : Field} {addrs : IpAddr × IpAddr}
    (h : (addrsAt family layer src dst packet : Outcome ε _) = .ok addrs) :
    (addrsAt family layer src dst packet : Outcome ε' _) = .ok addrs := by
  obtain ⟨source, hsource, h⟩ := Outcome.bind_eq_ok.1 h
  obtain ⟨destination, hdestination, h⟩ := Outcome.bind_eq_ok.1 h
  obtain rfl := Outcome.ok.inj h
  rw [addrsAt, getField_eq_ok hsource, Outcome.ok_bind, getField_eq_ok hdestination]
  rfl

/-- **The packet shows the targets that were applied to it**, when they are of the
family of its addresses. -/
theorem outerAddrs_applyTargets {ε' : Type} {src dst : IpAddr}
    (hsrc : ∀ ip ∈ targets.src, Family.ofAddr ip = Family.ofAddr src)
    (hdst : ∀ ip ∈ targets.dst, Family.ofAddr ip = Family.ofAddr dst)
    (happly : (applyTargets packet targets : Outcome ε _) = .ok packet')
    (haddrs : ∀ ε : Type, (outerAddrs packet : Outcome ε _) = .ok (some (src, dst))) :
    (outerAddrs packet' : Outcome ε' _) =
      .ok (some (targets.src.getD src, targets.dst.getD dst)) := by
  replace haddrs := haddrs ε
  unfold outerAddrs at haddrs ⊢
  unfold applyTargets at happly
  cases hfamily : outerIpFamily packet with
  | none =>
      rw [hfamily] at haddrs
      cases haddrs
  | some family =>
      cases family with
      | v4 =>
          rw [hfamily] at haddrs happly
          cases hlayer : packet.nthLayer .ipv4 (-1) with
          | none =>
              rw [hlayer] at haddrs
              cases haddrs
          | some layer =>
              rw [hlayer] at haddrs happly
              obtain ⟨addrs, hread, haddrs⟩ := Outcome.bind_eq_ok.1 haddrs
              cases haddrs
              obtain ⟨hlayers, hread'⟩ := addrsAt_setAddrs rfl rfl (by decide) hsrc hdst happly hread
              rw [outerIpFamily_congr hlayers, hfamily]
              dsimp only
              rw [nthLayer_congr hlayers, hlayer]
              dsimp only
              rw [addrsAt_eq_ok hread', Outcome.ok_bind]
              rfl
      | v6 =>
          rw [hfamily] at haddrs happly
          cases hlayer : packet.nthLayer .ipv6 (-1) with
          | none =>
              rw [hlayer] at haddrs
              cases haddrs
          | some layer =>
              rw [hlayer] at haddrs happly
              obtain ⟨addrs, hread, haddrs⟩ := Outcome.bind_eq_ok.1 haddrs
              cases haddrs
              obtain ⟨hlayers, hread'⟩ := addrsAt_setAddrs rfl rfl (by decide) hsrc hdst happly hread
              rw [outerIpFamily_congr hlayers, hfamily]
              dsimp only
              rw [nthLayer_congr hlayers, hlayer]
              dsimp only
              rw [addrsAt_eq_ok hread', Outcome.ok_bind]
              rfl

/-- A packet shows the addresses that are read off it. -/
theorem PacketInfo.Describes.outerAddrs_eq {info : PacketInfo} (h : info.Describes packet)
    (ε : Type) : (outerAddrs packet : Outcome ε _) = .ok (some (info.src, info.dst)) := by
  replace h := h ε
  unfold read at h
  unfold outerAddrs
  cases hfamily : outerIpFamily packet with
  | none =>
      rw [hfamily] at h
      cases h
  | some family =>
      rw [hfamily] at h
      cases family with
      | v4 =>
          dsimp only at h ⊢
          cases hlayer : packet.nthLayer .ipv4 (-1) with
          | none =>
              rw [outerIpv4, nthLayerViewer, hlayer] at h
              cases h
          | some layer =>
              rw [outerIpv4, nthLayerViewer, hlayer] at h
              obtain ⟨_, hheader, h⟩ := Outcome.bind_eq_ok.1 h
              obtain ⟨header, hbytes, hheader⟩ := Outcome.bind_eq_ok.1 hheader
              cases hheader
              obtain ⟨info', hinfo, h⟩ := Outcome.bind_eq_ok.1 h
              cases h
              simp only [fromIpv4, Outcome.bind_eq_ok, Outcome.pure_eq, Outcome.ok.injEq] at hinfo
              obtain ⟨_, -, _, -, _, -, src, hsrc, dst, hdst, _, -, _, -, rfl⟩ := hinfo
              dsimp only
              rw [addrsAt, getField, getField, hbytes, Outcome.ok_bind, Outcome.ok_bind, hsrc,
                hdst]
              rfl
      | v6 =>
          dsimp only at h ⊢
          cases hlayer : packet.nthLayer .ipv6 (-1) with
          | none =>
              rw [outerIpv6, nthLayerViewer, hlayer] at h
              cases h
          | some layer =>
              rw [outerIpv6, nthLayerViewer, hlayer] at h
              obtain ⟨_, hheader, h⟩ := Outcome.bind_eq_ok.1 h
              obtain ⟨header, hbytes, hheader⟩ := Outcome.bind_eq_ok.1 hheader
              cases hheader
              obtain ⟨info', hinfo, h⟩ := Outcome.bind_eq_ok.1 h
              cases h
              simp only [fromIpv6, Outcome.bind_eq_ok, Outcome.pure_eq, Outcome.ok.injEq] at hinfo
              obtain ⟨_, -, src, hsrc, dst, hdst, _, -, _, -, _, -, _, -, rfl⟩ := hinfo
              dsimp only
              rw [addrsAt, getField, getField, hbytes, Outcome.ok_bind, Outcome.ok_bind, hsrc,
                hdst]
              rfl

end Mergecap
end Maja
