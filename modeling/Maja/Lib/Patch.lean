/-
# Writes in place

`AgreesOutside S as bs` says that a list was changed in place, at the positions of
`S` at most.  Changes compose, and a slice that lies outside `S` is the same
before and after.
-/

import Maja.Lib.Outcome
import Mathlib.Data.Set.Basic

namespace Maja
namespace Lib

variable {α ε : Type}

/-- Two lists of one length that differ at positions of `S` only. -/
structure AgreesOutside (S : Set ℕ) (as bs : List α) : Prop where
  length : bs.length = as.length
  getElem? : ∀ k, k ∉ S → bs[k]? = as[k]?

namespace AgreesOutside

variable {S T : Set ℕ} {as bs cs : List α}

/-- A list agrees with itself. -/
theorem refl (S : Set ℕ) (as : List α) : AgreesOutside S as as := ⟨rfl, fun _ _ => rfl⟩

/-- Lists of one length may differ everywhere. -/
theorem of_length (h : bs.length = as.length) : AgreesOutside Set.univ as bs :=
  ⟨h, fun k hk => absurd (Set.mem_univ k) hk⟩

/-- Lists agree outside a larger set, too. -/
theorem mono (h : AgreesOutside S as bs) (hsub : S ⊆ T) : AgreesOutside T as bs :=
  ⟨h.length, fun k hk => h.getElem? k fun hS => hk (hsub hS)⟩

/-- Agreeing outside a set is transitive. -/
theorem trans (h : AgreesOutside S as bs) (h' : AgreesOutside S bs cs) : AgreesOutside S as cs :=
  ⟨h'.length.trans h.length, fun k hk => (h'.getElem? k hk).trans (h.getElem? k hk)⟩

/-- Agreeing outside a set is symmetric. -/
theorem symm (h : AgreesOutside S as bs) : AgreesOutside S bs as :=
  ⟨h.length.symm, fun k hk => (h.getElem? k hk).symm⟩

/-- What is appended to both agrees. -/
theorem append_right (h : AgreesOutside S as bs) (cs : List α) :
    AgreesOutside S (as ++ cs) (bs ++ cs) := by
  refine ⟨by simp [h.length], fun k hk => ?_⟩
  by_cases hlt : k < as.length
  · rw [List.getElem?_append_left (by rw [h.length]; exact hlt), List.getElem?_append_left hlt]
    exact h.getElem? k hk
  · rw [List.getElem?_append_right (by rw [h.length]; omega),
      List.getElem?_append_right (by omega), h.length]

/-- A stretch that lies outside is the same. -/
theorem take_drop_eq (h : AgreesOutside S as bs) {lo n : ℕ}
    (hout : ∀ k, lo ≤ k → k < lo + n → k ∉ S) : (bs.drop lo).take n = (as.drop lo).take n := by
  refine List.ext_getElem? fun k => ?_
  by_cases hk : k < n
  · rw [List.getElem?_take_of_lt hk, List.getElem?_take_of_lt hk, List.getElem?_drop,
      List.getElem?_drop]
    exact h.getElem? _ (hout _ (by omega) (by omega))
  · rw [List.getElem?_eq_none (by simp; omega), List.getElem?_eq_none (by simp; omega)]

/-- A slice that lies outside is the same. -/
theorem slice_eq (h : AgreesOutside S as bs) {lo hi : ℕ} (hout : ∀ k, lo ≤ k → k < hi → k ∉ S) :
    (Outcome.slice bs lo hi : Outcome ε (List α)) = Outcome.slice as lo hi := by
  unfold Outcome.slice
  rw [h.length]
  split_ifs with hle
  · rw [h.take_drop_eq fun k h₁ h₂ => hout k h₁ (by omega)]
  · rfl

/-- What lies outside behind a position is the same. -/
theorem drop_eq (h : AgreesOutside S as bs) {n : ℕ} (hout : ∀ k, n ≤ k → k ∉ S) :
    bs.drop n = as.drop n := by
  refine List.ext_getElem? fun k => ?_
  rw [List.getElem?_drop, List.getElem?_drop]
  exact h.getElem? _ (hout _ (by omega))

/-- A stretch that meets `S` is changed at the positions of `S`, counted from its
start. -/
theorem take_drop (h : AgreesOutside S as bs) (lo n : ℕ) :
    AgreesOutside {k | lo + k ∈ S} ((as.drop lo).take n) ((bs.drop lo).take n) := by
  refine ⟨by simp [h.length], fun k hk => ?_⟩
  by_cases hkn : k < n
  · rw [List.getElem?_take_of_lt hkn, List.getElem?_take_of_lt hkn, List.getElem?_drop,
      List.getElem?_drop]
    exact h.getElem? _ hk
  · rw [List.getElem?_eq_none (by simp; omega), List.getElem?_eq_none (by simp; omega)]

/-- Changing a stretch changes the list there. -/
theorem splice {lo n : ℕ} {mid : List α} (hle : lo + n ≤ as.length)
    (h : AgreesOutside S ((as.drop lo).take n) mid) :
    AgreesOutside {k | lo ≤ k ∧ k < lo + n ∧ k - lo ∈ S} as
      (as.take lo ++ mid ++ as.drop (lo + n)) := by
  have hmid : mid.length = n := by
    rw [h.length, List.length_take, List.length_drop]
    omega
  refine ⟨by simp [hmid]; omega, fun k hk => ?_⟩
  rw [List.append_assoc]
  by_cases hlo : k < lo
  · rw [List.getElem?_append_left (by simp; omega), List.getElem?_take_of_lt hlo]
  · rw [List.getElem?_append_right (by simp; omega), List.length_take, Nat.min_eq_left (by omega)]
    by_cases hn : k < lo + n
    · have hagree := h.getElem? (k - lo) fun hS => hk ⟨by omega, hn, hS⟩
      rw [List.getElem?_append_left (by omega), hagree, List.getElem?_take_of_lt (by omega),
        List.getElem?_drop]
      congr 1
      omega
    · rw [List.getElem?_append_right (by omega), List.getElem?_drop]
      congr 1
      omega

end AgreesOutside

end Lib
end Maja
