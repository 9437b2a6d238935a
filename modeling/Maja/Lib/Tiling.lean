/-
# Iterators that tile a sequence

An iterator over a sequence tiles it when every item stands for the symbols that it
was read from.  `Takes` says so of one call: the item is the first symbols of what was
ahead, and what is behind them is ahead afterwards; an item that ends the iteration may
leave symbols behind.  `Tiled` says it of all items, and follows when every call takes
an item as long as something is ahead (`Tiles.items`).
-/

import Maja.Lib.Iterate
import Mathlib.Data.List.Infix

namespace Maja
namespace Lib

variable {σ ε ι α : Type}

/-- How an iterator's items stand for symbols. -/
structure Encoding (ι α : Type) where
  /-- The symbols of an item. -/
  encode : ι → List α
  /-- Nothing is read behind the item, although there may be something. -/
  ends : ι → Bool
  /-- The item is what could not be read. -/
  malformed : ι → Bool

variable {e : Encoding ι α}

/-- An item is taken from the front of a sequence. -/
structure Takes (e : Encoding ι α) (before : List α) (a : ι) (after : List α) : Prop where
  /-- An item has symbols. -/
  nonempty : e.encode a ≠ []
  /-- They are the first ones, and the iteration goes on right behind them or ends. -/
  encoded : before = e.encode a ++ after ∨ e.ends a = true ∧ e.encode a <+: before ∧ after = []
  /-- What could not be read is all that there was. -/
  rest : e.malformed a = true → after = []

/-- An item with all symbols that are left. -/
theorem Takes.all {before : List α} {a : ι} (hbefore : before ≠ []) (h : e.encode a = before) :
    Takes e before a [] where
  nonempty := by rwa [h]
  encoded := .inl (by rw [h, List.append_nil])
  rest _ := rfl

/-- The items stand for the symbols of the sequence. -/
structure Tiled (e : Encoding ι α) (symbols : List α) (items : List ι) : Prop where
  /-- No symbol is skipped or invented. -/
  isPrefix : items.flatMap e.encode <+: symbols
  /-- All symbols are read, unless an item ends the iteration. -/
  whole : items.any e.ends = false → items.flatMap e.encode = symbols
  /-- Only the last item is malformed. -/
  last : ∀ a ∈ items.dropLast, e.malformed a = false
  /-- There is one malformed item at most. -/
  once : items.countP e.malformed ≤ 1

/-- Nothing tiles an empty list. -/
theorem Tiled.nil : Tiled e [] [] where
  isPrefix := List.prefix_rfl
  whole _ := rfl
  last _ h := by cases h
  once := Nat.zero_le 1

/-- An item in front of the items of what is behind it. -/
theorem Tiled.cons {before after : List α} {a : ι} {items : List ι} (h : Takes e before a after)
    (hitems : Tiled e after items) (hnil : after = [] → items = []) :
    Tiled e before (a :: items) := by
  have hlast : e.malformed a = true → items = [] := fun ha => hnil (h.rest ha)
  refine ⟨?_, fun hends => ?_, fun b hb => ?_, ?_⟩
  · rw [List.flatMap_cons]
    obtain hbefore | ⟨-, hprefix, hafter⟩ := h.encoded
    · rw [hbefore]
      exact (List.prefix_append_right_inj _).2 hitems.isPrefix
    · rw [hnil hafter, List.flatMap_nil, List.append_nil]
      exact hprefix
  · rw [List.any_cons, Bool.or_eq_false_iff] at hends
    obtain hbefore | ⟨ha, -, -⟩ := h.encoded
    · rw [List.flatMap_cons, hitems.whole hends.2, hbefore]
    · rw [hends.1] at ha
      cases ha
  · cases items with
    | nil => cases hb
    | cons c items =>
        obtain rfl | hb := List.mem_cons.1 hb
        · exact Bool.eq_false_iff.2 fun ha => List.cons_ne_nil _ _ (hlast ha)
        · exact hitems.last b hb
  · by_cases ha : e.malformed a = true
    · rw [hlast ha]
      exact List.countP_le_length
    · rw [List.countP_cons_of_neg ha]
      exact hitems.once

/-- As long as symbols are ahead, a call takes an item; and there is none without
symbols. -/
structure Tiles (e : Encoding ι α) (ahead : σ → List α) (call : Prog σ ε (Option ι)) : Prop where
  finished : ∀ s, ahead s = [] → call s = .ok (none, s)
  taken : ∀ s, ahead s ≠ [] → ∃ a s', call s = .ok (some a, s') ∧ Takes e (ahead s) a (ahead s')

/-- **An iterator that tiles what is ahead ends, and its items stand for it.** -/
theorem Tiles.items {ahead : σ → List α} {call : Prog σ ε (Option ι)} (h : Tiles e ahead call)
    (s : σ) : ∃ items, Items call s items ∧ Tiled e (ahead s) items := by
  suffices hs : ∃ items, Items call s items ∧ Tiled e (ahead s) items ∧
      (ahead s = [] → items = []) by
    obtain ⟨items, hitems, htiled, -⟩ := hs
    exact ⟨items, hitems, htiled⟩
  induction hn : (ahead s).length using Nat.strongRecOn generalizing s with
  | ind n ih =>
      by_cases hahead : ahead s = []
      · rw [hahead]
        exact ⟨[], .done (h.finished s hahead), .nil, fun _ => rfl⟩
      · obtain ⟨a, s', hcall, htakes⟩ := h.taken s hahead
        have hlt : (ahead s').length < n := by
          have hpos := List.length_pos_of_ne_nil htakes.nonempty
          obtain hbefore | ⟨-, -, hafter⟩ := htakes.encoded
          · have := congrArg List.length hbefore
            rw [List.length_append] at this
            omega
          · rw [← hn, hafter]
            exact List.length_pos_of_ne_nil hahead
        obtain ⟨items, hitems, htiled, hnil⟩ := ih _ hlt s' rfl
        exact ⟨a :: items, .next hcall hitems, .cons htakes htiled hnil,
          fun heq => absurd heq hahead⟩

end Lib
end Maja
