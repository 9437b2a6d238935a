/-
# Lists that match element by element

Facts about `List.Forall₂`: what a member has its partner for, how matching lists
arise, and that maps which agree on partners have one image.
-/

import Mathlib.Data.List.Forall2

namespace Maja
namespace Lib

variable {α β γ ε : Type} {R : α → β → Prop} {as : List α} {bs : List β}

/-- Every member of the second list has a partner in the first one. -/
theorem exists_of_forall₂ (h : List.Forall₂ R as bs) {b : β} (hb : b ∈ bs) : ∃ a ∈ as, R a b := by
  induction h with
  | nil => cases hb
  | cons hab _ ih =>
    obtain rfl | hb := List.mem_cons.1 hb
    · exact ⟨_, List.mem_cons_self, hab⟩
    · obtain ⟨a, ha, hr⟩ := ih hb
      exact ⟨a, List.mem_cons_of_mem _ ha, hr⟩

/-- Where every member has a partner there is a list of partners. -/
theorem exists_forall₂ (h : ∀ a ∈ as, ∃ b, R a b) : ∃ bs, List.Forall₂ R as bs := by
  induction as with
  | nil => exact ⟨[], .nil⟩
  | cons a as ih =>
    obtain ⟨b, hb⟩ := h a List.mem_cons_self
    obtain ⟨bs, hbs⟩ := ih fun a' ha' => h a' (List.mem_cons_of_mem _ ha')
    exact ⟨b :: bs, .cons hb hbs⟩

/-- Matching lists have one image under maps that agree on what matches. -/
theorem map_eq_map_of_forall₂ {f : α → γ} {g : β → γ} (hR : ∀ a ∈ as, ∀ b, R a b → f a = g b)
    (h : List.Forall₂ R as bs) : as.map f = bs.map g := by
  induction h with
  | nil => rfl
  | cons hab _ ih =>
    rw [List.map_cons, List.map_cons, hR _ (List.mem_cons_self ..) _ hab,
      ih fun a ha => hR a (List.mem_cons_of_mem _ ha)]

/-- What `mapM` returns is, item by item, what the function returns. -/
theorem forall₂_of_mapM {f : α → Except ε β} (h : as.mapM f = .ok bs) :
    List.Forall₂ (fun a b => f a = .ok b) as bs := by
  induction as generalizing bs with
  | nil =>
    obtain rfl := Except.ok.inj h
    exact .nil
  | cons a as ih =>
    rw [List.mapM_cons] at h
    cases ha : f a with
    | error e => simp [ha] at h; cases h
    | ok b =>
      rw [ha] at h
      cases has : as.mapM f with
      | error e => simp [has] at h; cases h
      | ok bs' =>
        rw [has] at h
        obtain rfl := Except.ok.inj h
        exact .cons ha (ih has)

end Lib
end Maja
