/-
# Which option lists a block parser survives

`optionLoop` slices and indexes what the block's own length fields tell it to.
`OptionsFit` is the condition on the bytes of the block under which that never
leaves the block: every option up to the end of the list has its value inside
the block, a length whose padding fits a `u16`, and a value as long as the
option's type reads.  `optionLoop_returns` says that it is exactly the condition
for the loop to return; the three block parsers inherit it.
-/

import Maja.Capture.Pcapng
import Mathlib.Tactic.SplitIfs

namespace Maja
namespace Capture

open Lib

/-- What the code that handles an option does with the option's value. -/
inductive ValueShape where
  /-- Any value is taken. -/
  | any
  /-- The first `n` bytes are indexed. -/
  | atLeast (n : ℕ)
  /-- The value is copied into `n` bytes, which panics on any other length. -/
  | exactly (n : ℕ)
  /-- The value is decoded as UTF-8, an error when it is not. -/
  | text
  /-- The value is converted to an array of `n` bytes, an error on any other length. -/
  | array (n : ℕ)
  deriving DecidableEq, Repr

namespace ValueShape

/-- The value is as long as the code that reads it assumes. -/
def Fits : ValueShape → List UInt8 → Prop
  | atLeast n, value => n ≤ value.length
  | exactly n, value => value.length = n
  | _, _ => True

/-- The value is turned down with an error, which ends the parse. -/
def Rejects : ValueShape → List UInt8 → Prop
  | text, value => fromUtf8 value = .err .fromUtf8
  | array n, value => value.length ≠ n
  | _, _ => False

/-- How handling the value ends. -/
def check : ValueShape → List UInt8 → Result Unit
  | any, _ => .ok ()
  | atLeast n, value => if n ≤ value.length then .ok () else .panic
  | exactly n, value => if value.length = n then .ok () else .panic
  | text, value => fromUtf8 value >>= fun _ => .ok ()
  | array n, value => tryIntoArray n value >>= fun _ => .ok ()

/-- A value is a text, or it is rejected. -/
theorem fromUtf8_cases (value : List UInt8) :
    (∃ text, fromUtf8 value = .ok text) ∨ fromUtf8 value = .err .fromUtf8 := by
  unfold fromUtf8
  cases String.fromUTF8? ⟨value.toArray⟩ with
  | none => exact .inr rfl
  | some text => exact .inl ⟨text, rfl⟩

/-- Checking a value returns exactly when the value is long enough for its shape. -/
theorem check_returns {shape : ValueShape} {value : List UInt8} :
    (shape.check value).Returns ↔ shape.Fits value := by
  cases shape with
  | any => simp [check, Fits]
  | atLeast n => simp only [check, Fits]; split_ifs with h <;> simp [h]
  | exactly n => simp only [check, Fits]; split_ifs with h <;> simp [h]
  | text => obtain ⟨t, h⟩ | h := fromUtf8_cases value <;> simp [check, Fits, h]
  | array n => simp only [check, Fits, tryIntoArray]; split_ifs with h <;> simp

/-- A value is accepted when it is long enough for its shape and not rejected. -/
theorem check_eq_ok {shape : ValueShape} {value : List UInt8} :
    shape.check value = .ok () ↔ shape.Fits value ∧ ¬shape.Rejects value := by
  cases shape with
  | any => simp [check, Fits, Rejects]
  | atLeast n => simp only [check, Fits, Rejects]; split_ifs with h <;> simp [h]
  | exactly n => simp only [check, Fits, Rejects]; split_ifs with h <;> simp [h]
  | text => obtain ⟨t, h⟩ | h := fromUtf8_cases value <;> simp [check, Fits, Rejects, h]
  | array n => simp only [check, Fits, Rejects, tryIntoArray]; split_ifs with h <;> simp [h]

end ValueShape

/-- `setOption` ends as the shape of the option's type says, whatever it has
collected so far. -/
def Follows {β : Type} (setOption : β → ℕ → List UInt8 → Result β) (shape : ℕ → ValueShape) :
    Prop :=
  ∀ acc type value, (setOption acc type value >>= fun _ => .ok ()) = (shape type).check value

section Follows

variable {β : Type} {setOption : β → ℕ → List UInt8 → Result β} {shape : ℕ → ValueShape}

/-- An option that is read by its shape returns exactly when its value is long enough. -/
theorem Follows.returns (h : Follows setOption shape) (acc : β) (type : ℕ) (value : List UInt8) :
    (setOption acc type value).Returns ↔ (shape type).Fits value := by
  rw [← ValueShape.check_returns, ← h acc, Outcome.returns_bind]
  simp

/-- An option that is read by its shape is accepted exactly when the shape accepts its
value. -/
theorem Follows.ok (h : Follows setOption shape) (acc : β) (type : ℕ) (value : List UInt8) :
    (∃ acc', setOption acc type value = .ok acc') ↔
      (shape type).Fits value ∧ ¬(shape type).Rejects value := by
  rw [← ValueShape.check_eq_ok, ← h acc, Outcome.bind_eq_ok]
  simp

end Follows

/-! ### The option list -/

section Options

variable (shape : ℕ → ValueShape) (e : Endian) (block : List UInt8)

/-- The type of the option at `position`. -/
def optionType (position : ℕ) : ℕ := e.wordAt block position 2

/-- The length of the option at `position`. -/
def optionLength (position : ℕ) : ℕ := e.wordAt block (position + 2) 2

/-- The value of the option at `position`. -/
def optionValue (position : ℕ) : List UInt8 :=
  bytesAt block (position + 4) (optionLength e block position)

/-- The option at `position` can be read and handled without a panic. -/
structure OptionFits (position : ℕ) : Prop where
  /-- The value lies in the block. -/
  inside : position + 4 + optionLength e block position ≤ block.length
  /-- The padded length is a `u16`. -/
  padded : optionLength e block position ≤ 65532
  /-- The value is as long as its type reads. -/
  value : (shape (optionType e block position)).Fits (optionValue e block position)

/-- Every option from `position` on that the loop gets to can be read and handled
without a panic.  The loop gets no further than the trailing length, the end of
options, or the first value it turns down. -/
inductive OptionsFit : ℕ → Prop where
  | finished {position : ℕ} (h : block.length ≤ position + 4) : OptionsFit position
  | endOfOpt {position : ℕ} (h : optionType e block position = OptionType.END_OF_OPT) :
      OptionsFit position
  | rejected {position : ℕ} (h : OptionFits shape e block position)
      (hreject : (shape (optionType e block position)).Rejects (optionValue e block position)) :
      OptionsFit position
  | next {position : ℕ} (h : OptionFits shape e block position)
      (hnext : OptionsFit (position + 4 + nextMultipleOf4 (optionLength e block position))) :
      OptionsFit position

end Options

section Loop

variable {β : Type} {setOption : β → ℕ → List UInt8 → Result β} {shape : ℕ → ValueShape}
  {e : Endian} {block : List UInt8}

/-- What `read_option` does where the loop calls it, short of the trailing
length. -/
theorem readOption_eq {position : ℕ} (h : position + 4 < block.length) :
    readOption block e position =
      if optionType e block position = OptionType.END_OF_OPT then
        .ok ⟨optionType e block position, [], position + 4⟩
      else if position + 4 + optionLength e block position ≤ block.length ∧
          optionLength e block position ≤ 65532 then
        .ok ⟨optionType e block position, optionValue e block position,
          position + 4 + nextMultipleOf4 (optionLength e block position)⟩
      else .panic := by
  have hpad : nextMultipleOf4 (optionLength e block position) < 2 ^ 16 ↔
      optionLength e block position ≤ 65532 := by
    simp only [nextMultipleOf4]
    omega
  rw [readOption, Endian.slice_readBytes position 2 (by omega),
    Endian.slice_readBytes (position + 2) 2 (by omega), ← optionType, ← optionLength]
  by_cases hend : optionType e block position = OptionType.END_OF_OPT
  · rw [if_pos hend, if_pos hend, Outcome.pure_eq]
  rw [if_neg hend, if_neg hend]
  by_cases hin : position + 4 + optionLength e block position ≤ block.length
  · rw [slice_eq_bytesAt hin, Outcome.ok_bind]
    by_cases hlong : optionLength e block position ≤ 65532
    · rw [if_pos (hpad.2 hlong), if_pos ⟨hin, hlong⟩, Outcome.pure_eq, optionValue]
    · rw [if_neg (fun h => hlong (hpad.1 h)), if_neg (fun h => hlong h.2)]
  · rw [Outcome.slice_eq_panic (by omega), Outcome.panic_bind, if_neg (fun h => hin h.1)]

/-- One turn of the loop, at an option that is not the end of options. -/
theorem optionLoop_succ {fuel position : ℕ} {acc : β} (h : position + 4 < block.length)
    (htype : optionType e block position ≠ OptionType.END_OF_OPT) :
    optionLoop setOption block e (fuel + 1) position acc =
      if position + 4 + optionLength e block position ≤ block.length ∧
          optionLength e block position ≤ 65532 then
        setOption acc (optionType e block position) (optionValue e block position) >>=
          optionLoop setOption block e fuel
            (position + 4 + nextMultipleOf4 (optionLength e block position))
      else .panic := by
  rw [optionLoop, if_pos (by omega), readOption_eq h, if_neg htype]
  split_ifs with hinside
  · rw [Outcome.ok_bind, if_neg htype]
  · rfl

/-- The loop is over at the trailing length. -/
theorem optionLoop_finished {fuel position : ℕ} {acc : β} (h : block.length ≤ position + 4) :
    optionLoop setOption block e (fuel + 1) position acc = .ok acc := by
  rw [optionLoop, if_neg (by omega), Outcome.pure_eq]

/-- The loop is over at the end of options. -/
theorem optionLoop_endOfOpt {fuel position : ℕ} {acc : β} (h : position + 4 < block.length)
    (htype : optionType e block position = OptionType.END_OF_OPT) :
    optionLoop setOption block e (fuel + 1) position acc = .ok acc := by
  rw [optionLoop, if_pos (by omega), readOption_eq h, if_pos htype, Outcome.ok_bind,
    if_pos htype, Outcome.pure_eq]

/-- A loop that returns has met only options that fit. -/
theorem OptionsFit.of_returns (hf : Follows setOption shape) {fuel position : ℕ} {acc : β}
    (h : (optionLoop setOption block e fuel position acc).Returns) :
    OptionsFit shape e block position := by
  induction fuel generalizing position acc with
  | zero => simp [optionLoop] at h
  | succ fuel ih =>
      rcases Nat.lt_or_ge (position + 4) block.length with hlt | hge
      · by_cases htype : optionType e block position = OptionType.END_OF_OPT
        · exact .endOfOpt htype
        rw [optionLoop_succ hlt htype] at h
        split_ifs at h with hinside
        · rw [Outcome.returns_bind] at h
          obtain ⟨hset, hrest⟩ := h
          have hfits : OptionFits shape e block position :=
            ⟨hinside.1, hinside.2, (hf.returns acc _ _).1 hset⟩
          by_cases hreject :
              (shape (optionType e block position)).Rejects (optionValue e block position)
          · exact .rejected hfits hreject
          · obtain ⟨acc', hacc⟩ := (hf.ok acc _ _).2 ⟨hfits.value, hreject⟩
            exact .next hfits (ih (hrest acc' hacc))
        · exact absurd h (by simp)
      · exact .finished hge

/-- The loop returns on options that fit, given a turn for every byte left. -/
theorem OptionsFit.returns (hf : Follows setOption shape) {position : ℕ}
    (h : OptionsFit shape e block position) {fuel : ℕ} {acc : β}
    (hfuel : block.length < position + 4 + fuel) (hfuel' : 0 < fuel) :
    (optionLoop setOption block e fuel position acc).Returns := by
  induction h generalizing fuel acc with
  | @finished position h =>
      obtain ⟨fuel, rfl⟩ := Nat.exists_eq_succ_of_ne_zero hfuel'.ne'
      simp [optionLoop_finished h]
  | @endOfOpt position h =>
      obtain ⟨fuel, rfl⟩ := Nat.exists_eq_succ_of_ne_zero hfuel'.ne'
      rcases Nat.lt_or_ge (position + 4) block.length with hlt | hge
      · simp [optionLoop_endOfOpt hlt h]
      · simp [optionLoop_finished hge]
  | @rejected position h hreject =>
      obtain ⟨fuel, rfl⟩ := Nat.exists_eq_succ_of_ne_zero hfuel'.ne'
      rcases Nat.lt_or_ge (position + 4) block.length with hlt | hge
      · by_cases htype : optionType e block position = OptionType.END_OF_OPT
        · simp [optionLoop_endOfOpt hlt htype]
        rw [optionLoop_succ hlt htype, if_pos ⟨h.inside, h.padded⟩, Outcome.returns_bind]
        refine ⟨(hf.returns acc _ _).2 h.value, fun acc' hacc => ?_⟩
        exact absurd hreject ((hf.ok acc _ _).1 ⟨acc', hacc⟩).2
      · simp [optionLoop_finished hge]
  | @next position h _ ih =>
      obtain ⟨fuel, rfl⟩ := Nat.exists_eq_succ_of_ne_zero hfuel'.ne'
      rcases Nat.lt_or_ge (position + 4) block.length with hlt | hge
      · by_cases htype : optionType e block position = OptionType.END_OF_OPT
        · simp [optionLoop_endOfOpt hlt htype]
        rw [optionLoop_succ hlt htype, if_pos ⟨h.inside, h.padded⟩, Outcome.returns_bind]
        refine ⟨(hf.returns acc _ _).2 h.value, fun acc' _ => ih ?_ ?_⟩ <;> omega
      · simp [optionLoop_finished hge]

/-- **The option loop returns exactly on the option lists that fit.** -/
theorem optionLoop_returns (hf : Follows setOption shape) {fuel position : ℕ} {acc : β}
    (hfuel : block.length < position + 4 + fuel) (hfuel' : 0 < fuel) :
    (optionLoop setOption block e fuel position acc).Returns ↔ OptionsFit shape e block position :=
  ⟨.of_returns hf, fun h => h.returns hf hfuel hfuel'⟩

/-- A loop over values that nothing turns down ends in `Ok` when it returns. -/
theorem optionLoop_ok (hf : Follows setOption shape) (hshape : ∀ t v, ¬(shape t).Rejects v)
    {fuel position : ℕ} {acc : β}
    (h : (optionLoop setOption block e fuel position acc).Returns) :
    ∃ acc', optionLoop setOption block e fuel position acc = .ok acc' := by
  induction fuel generalizing position acc with
  | zero => simp [optionLoop] at h
  | succ fuel ih =>
      rcases Nat.lt_or_ge (position + 4) block.length with hlt | hge
      · by_cases htype : optionType e block position = OptionType.END_OF_OPT
        · exact ⟨acc, optionLoop_endOfOpt hlt htype⟩
        rw [optionLoop_succ hlt htype] at h ⊢
        split_ifs at h ⊢ with hinside
        · rw [Outcome.returns_bind] at h
          obtain ⟨acc', hacc⟩ :=
            (hf.ok acc _ _).2 ⟨(hf.returns acc _ _).1 h.1, hshape _ _⟩
          rw [hacc, Outcome.ok_bind]
          exact ih (h.2 acc' hacc)
        · exact absurd h (by simp)
      · exact ⟨acc, optionLoop_finished hge⟩

/-- What every option leaves alone, the loop leaves alone. -/
theorem optionLoop_invariant {γ : Type} (field : β → γ)
    (hset : ∀ acc acc' type value, setOption acc type value = .ok acc' → field acc' = field acc)
    {fuel position : ℕ} {acc acc' : β}
    (h : optionLoop setOption block e fuel position acc = .ok acc') : field acc' = field acc := by
  induction fuel generalizing position acc with
  | zero => simp [optionLoop] at h
  | succ fuel ih =>
      rcases Nat.lt_or_ge (position + 4) block.length with hlt | hge
      · by_cases htype : optionType e block position = OptionType.END_OF_OPT
        · rw [optionLoop_endOfOpt hlt htype, Outcome.ok.injEq] at h
          rw [h]
        rw [optionLoop_succ hlt htype] at h
        split_ifs at h with hinside
        obtain ⟨acc₁, hacc₁, hrest⟩ := Outcome.bind_eq_ok.1 h
        rw [ih hrest, hset acc acc₁ _ _ hacc₁]
      · rw [optionLoop_finished hge, Outcome.ok.injEq] at h
        rw [h]

end Loop

end Capture
end Maja
