/-
# Text with separators

A text is put together from parts with separators between them.  Where no part
contains the separator behind it, the parts can be read back
(`append_cons_inj_of_notMem_left`).  Decimal numbers are such parts.
-/

import Mathlib.Data.List.Basic
import Mathlib.Tactic.Common

namespace Maja
namespace Lib

variable {α : Type} {x y x' y' : List α} {sep : α}

/-- The first separator ends the first part. -/
theorem append_cons_inj_of_notMem_left (hx : sep ∉ x) (hx' : sep ∉ x') :
    x ++ sep :: y = x' ++ sep :: y' ↔ x = x' ∧ y = y' := by
  constructor
  · intro h
    induction x generalizing x' with
    | nil =>
      cases x' with
      | nil => exact ⟨rfl, (List.cons.inj h).2⟩
      | cons a x' => exact absurd (List.cons.inj h).1 fun heq => hx' (by simp [heq])
    | cons a x ih =>
      cases x' with
      | nil => exact absurd (List.cons.inj h).1.symm fun heq => hx (by simp [heq])
      | cons a' x' =>
        obtain ⟨rfl, htail⟩ := List.cons.inj h
        obtain ⟨rfl, rfl⟩ := ih (fun hmem => hx (List.mem_cons_of_mem _ hmem))
          (fun hmem => hx' (List.mem_cons_of_mem _ hmem)) htail
        exact ⟨rfl, rfl⟩
  · rintro ⟨rfl, rfl⟩
    rfl

/-- Only digits are in a decimal number. -/
theorem notMem_toDigits {c : Char} (hc : c.isDigit = false) (n : ℕ) : c ∉ Nat.toDigits 10 n := by
  intro hmem
  rw [Nat.isDigit_of_mem_toDigits (by decide) (by decide) hmem] at hc
  cases hc

/-- A decimal number is written in one way only. -/
theorem toDigits_inj {m n : ℕ} : Nat.toDigits 10 m = Nat.toDigits 10 n ↔ m = n := by
  constructor
  · intro h
    rw [← Nat.ofDigitChars_ten_toDigits (n := m), h, Nat.ofDigitChars_ten_toDigits]
  · rintro rfl
    rfl

end Lib
end Maja
