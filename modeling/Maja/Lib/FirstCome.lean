/-
# First come

A service answers every key for good.  A key that is known is answered as before; a
new one is answered by its channel, which moves on.  What the keys of a channel are
answered depends on the order in which they come for the first time and on nothing
else (`Service.agree_newcomers`).

The keys come in arrivals, several at once.  Where every arrival brings the keys that
are next by a clock, the new keys come in the order of the clock, and otherwise they
do not (`newcomers_eq_iff_inTurn`).  So two runs of a service over the same arrivals
give the same answers if both are in turn (`Service.known_eq_of_inTurn`).
-/

import Maja.Lib.StableSort
import Mathlib.Data.List.Infix
import Mathlib.Data.List.Nodup
import Mathlib.Logic.Function.Basic

namespace Maja
namespace Lib

variable {κ : Type} [DecidableEq κ]

/-! ### Newcomers -/

/-- The keys that are not among the earlier ones, each once, where it comes first. -/
def newcomers : List κ → List κ → List κ
  | _, [] => []
  | earlier, k :: ks =>
    if k ∈ earlier then newcomers earlier ks else k :: newcomers (k :: earlier) ks

/-- The newcomers are those that did not come earlier. -/
theorem mem_newcomers {earlier ks : List κ} {k : κ} :
    k ∈ newcomers earlier ks ↔ k ∈ ks ∧ k ∉ earlier := by
  induction ks generalizing earlier with
  | nil => simp [newcomers]
  | cons j ks ih =>
    rw [newcomers]
    split_ifs with hj
    · rw [ih, List.mem_cons]
      constructor
      · rintro ⟨hk, hearlier⟩
        exact ⟨.inr hk, hearlier⟩
      · rintro ⟨rfl | hk, hearlier⟩
        · exact absurd hj hearlier
        · exact ⟨hk, hearlier⟩
    · rw [List.mem_cons, ih, List.mem_cons, List.mem_cons]
      by_cases hkj : k = j
      · subst hkj
        simp [hj]
      · simp [hkj]

/-- A newcomer is one once. -/
theorem nodup_newcomers (earlier ks : List κ) : (newcomers earlier ks).Nodup := by
  induction ks generalizing earlier with
  | nil => exact .nil
  | cons j ks ih =>
    rw [newcomers]
    split_ifs with hj
    · exact ih earlier
    · refine List.nodup_cons.2 ⟨fun hmem => ?_, ih _⟩
      exact (mem_newcomers.1 hmem).2 List.mem_cons_self

/-- Only which keys are earlier ones matters. -/
theorem newcomers_congr {earlier earlier' : List κ} (h : ∀ k, k ∈ earlier ↔ k ∈ earlier')
    (ks : List κ) : newcomers earlier ks = newcomers earlier' ks := by
  induction ks generalizing earlier earlier' with
  | nil => rfl
  | cons j ks ih =>
    have hcons : ∀ k, k ∈ j :: earlier ↔ k ∈ j :: earlier' := fun k => by
      rw [List.mem_cons, List.mem_cons, h]
    rw [newcomers, newcomers, ih h, ih hcons]
    simp only [h]

/-- The newcomers of a list, and those of a list behind it. -/
theorem newcomers_append (earlier ks ls : List κ) :
    newcomers earlier (ks ++ ls) = newcomers earlier ks ++ newcomers (ks ++ earlier) ls := by
  induction ks generalizing earlier with
  | nil => rfl
  | cons j ks ih =>
    rw [List.cons_append, newcomers, newcomers]
    split_ifs with hj
    · rw [ih]
      refine congrArg _ (newcomers_congr (fun k => ?_) ls)
      simp only [List.mem_append, List.cons_append, List.mem_cons]
      constructor
      · exact .inr
      · rintro (rfl | h)
        · exact .inr hj
        · exact h
    · rw [ih, List.cons_append]
      refine congrArg _ (congrArg _ (newcomers_congr (fun k => ?_) ls))
      simp only [List.mem_append, List.cons_append, List.mem_cons]
      tauto

/-- With more earlier keys there are fewer newcomers, in the same order. -/
theorem newcomers_append_earlier (more earlier ks : List κ) :
    newcomers (more ++ earlier) ks = (newcomers earlier ks).filter (· ∉ more) := by
  induction ks generalizing earlier with
  | nil => rfl
  | cons j ks ih =>
    rw [newcomers, newcomers]
    by_cases hj : j ∈ earlier
    · rw [if_pos (List.mem_append_right _ hj), if_pos hj, ih]
    · rw [if_neg hj]
      have hcons : newcomers (j :: (more ++ earlier)) ks = newcomers (more ++ j :: earlier) ks :=
        newcomers_congr (fun k => by simp only [List.mem_cons, List.mem_append]; tauto) ks
      by_cases hmore : j ∈ more
      · -- a key that is left out is one of the earlier ones from here on
        have hsame : newcomers (more ++ earlier) ks = newcomers (more ++ j :: earlier) ks := by
          refine newcomers_congr (fun k => ?_) ks
          simp only [List.mem_cons, List.mem_append]
          constructor
          · rintro (h | h)
            · exact .inl h
            · exact .inr (.inr h)
          · rintro (h | rfl | h)
            · exact .inl h
            · exact .inl hmore
            · exact .inr h
        rw [if_pos (List.mem_append_left _ hmore), hsame, ih, List.filter_cons_of_neg (by simpa)]
      · rw [if_neg (by simp [hj, hmore]), hcons, ih, List.filter_cons_of_pos (by simpa)]

/-- Keys that are all among the earlier ones bring nothing. -/
theorem newcomers_skip {earlier ls : List κ} (h : ∀ k ∈ ls, k ∈ earlier) (ks ms : List κ) :
    newcomers earlier (ks ++ ls ++ ms) = newcomers earlier (ks ++ ms) := by
  have hls : newcomers (ks ++ earlier) ls = [] :=
    List.eq_nil_iff_forall_not_mem.2 fun k hk =>
      (mem_newcomers.1 hk).2 (List.mem_append_right _ (h k (mem_newcomers.1 hk).1))
  rw [newcomers_append, newcomers_append, newcomers_append, hls, List.append_nil]
  refine congrArg _ (newcomers_congr (fun k => ?_) ms)
  simp only [List.mem_append]
  constructor
  · rintro ((hk | hk) | hk)
    · exact .inl hk
    · exact .inr (h k hk)
    · exact .inr hk
  · rintro (hk | hk)
    · exact .inl (.inl hk)
    · exact .inr hk

/-! ### Arrivals by a clock -/

section InTurn

variable {β τ : Type} [LinearOrder τ] (keys : β → List κ) (clock : β → τ)

/-- Every arrival brings the newcomers that are next by the clock, of all that are
still to come. -/
def InTurn : List κ → List β → Prop
  | _, [] => True
  | earlier, b :: rest =>
    newcomers earlier (keys b) <+: newcomers earlier ((sortByKey clock (b :: rest)).flatMap keys) ∧
      InTurn (keys b ++ earlier) rest

variable {keys clock} {earlier : List κ}

/-- What is still to come behind an arrival: the newcomers by the clock, without the
keys that it brought. -/
theorem newcomers_sort_cons {b : β} {rest : List β} (hclock : ((b :: rest).map clock).Nodup) :
    newcomers (keys b ++ earlier) ((sortByKey clock rest).flatMap keys) =
      (newcomers earlier ((sortByKey clock (b :: rest)).flatMap keys)).filter (· ∉ keys b) := by
  have hsort := stablySorted_sortByKey clock (b :: rest)
  obtain ⟨front, back, hsplit⟩ := List.append_of_mem (hsort.perm.mem_iff.2 List.mem_cons_self)
  have hperm : rest.Perm (front ++ back) := by
    have hall := hsort.perm
    rw [hsplit] at hall
    exact (List.perm_cons b).1 (hall.symm.trans List.perm_middle)
  have hrest : sortByKey clock rest = front ++ back := by
    refine sortByKey_eq_of_perm (List.nodup_cons.1 hclock).2 ?_ hperm
    have hsorted := hsort.sorted
    rw [hsplit] at hsorted
    exact hsorted.sublist ((List.sublist_cons_self b back).append_left front)
  rw [hrest, hsplit, ← newcomers_append_earlier, List.flatMap_append, List.flatMap_append,
    List.flatMap_cons, ← List.append_assoc]
  exact (newcomers_skip (fun k hk => List.mem_append_left _ hk) _ _).symm

/-- **Who comes in turn comes in the order of the clock**, and the other way round. -/
theorem newcomers_eq_iff_inTurn {log : List β} (hclock : (log.map clock).Nodup) :
    newcomers earlier (log.flatMap keys) =
        newcomers earlier ((sortByKey clock log).flatMap keys) ↔
      InTurn keys clock earlier log := by
  induction log generalizing earlier with
  | nil =>
    rw [sortByKey_of_pairwise .nil]
    exact iff_of_true rfl trivial
  | cons b rest ih =>
    rw [InTurn, ← ih (List.nodup_cons.1 hclock).2, newcomers_sort_cons hclock, List.flatMap_cons,
      newcomers_append]
    generalize hall : newcomers earlier ((sortByKey clock (b :: rest)).flatMap keys) = all
    have hnodup : all.Nodup := hall ▸ nodup_newcomers ..
    have hkeys : ∀ k ∈ newcomers earlier (keys b), k ∈ keys b := fun k hk => (mem_newcomers.1 hk).1
    -- what is behind the keys of the arrival is what the filter leaves
    have hrest : ∀ behind, newcomers earlier (keys b) ++ behind = all →
        all.filter (· ∉ keys b) = behind := by
      rintro behind rfl
      have hdisjoint := List.disjoint_of_nodup_append hnodup
      have hearlier : ∀ k ∈ newcomers earlier (keys b) ++ behind, k ∉ earlier := by
        intro k hk
        rw [← hall] at hk
        exact (mem_newcomers.1 hk).2
      rw [List.filter_append, List.filter_eq_nil_iff.2 (by simpa using hkeys), List.nil_append,
        List.filter_eq_self]
      intro k hk
      have hnew : k ∉ keys b := fun hkb =>
        hdisjoint (mem_newcomers.2 ⟨hkb, hearlier k (List.mem_append_right _ hk)⟩) hk
      simpa using hnew
    constructor
    · intro heq
      exact ⟨⟨_, heq⟩, (hrest _ heq).symm⟩
    · rintro ⟨⟨behind, heq⟩, hbehind⟩
      rw [hbehind, hrest behind heq, heq]

end InTurn

/-! ### Services -/

/-- A service: which channel answers a new key, and how. -/
structure Service (κ α χ X : Type) where
  channel : κ → χ
  answer : κ → X → α × X

namespace Service

/-- What a service remembers: its answers, and how far every channel is. -/
@[ext] structure State (κ α χ X : Type) where
  known : κ → Option α
  cell : χ → X

variable {α χ X : Type} [DecidableEq χ] (S : Service κ α χ X)

/-- Answer a key. -/
def serve (k : κ) (s : State κ α χ X) : State κ α χ X :=
  match s.known k with
  | some _ => s
  | none =>
    { known := Function.update s.known k (some (S.answer k (s.cell (S.channel k))).1)
      cell := Function.update s.cell (S.channel k) (S.answer k (s.cell (S.channel k))).2 }

/-- Answer one key after the other. -/
def serveAll (ks : List κ) (s : State κ α χ X) : State κ α χ X := ks.foldl (fun s k => S.serve k s) s

variable {S} {s t : State κ α χ X} {k : κ} {c : χ}

/-- A request that is known changes nothing. -/
theorem serve_of_known {a : α} (h : s.known k = some a) : S.serve k s = s := by
  rw [serve, h]

/-- An answer stays what it is. -/
theorem known_serve {j : κ} {a : α} (h : s.known j = some a) : (S.serve k s).known j = some a := by
  unfold serve
  split
  · exact h
  · rename_i hnone
    have hne : j ≠ k := by
      rintro rfl
      rw [hnone] at h
      cases h
    exact (Function.update_of_ne hne ..).trans h

/-- What is known stays known. -/
theorem known_serveAll {ks : List κ} {j : κ} {a : α} (h : s.known j = some a) :
    (S.serveAll ks s).known j = some a := by
  induction ks generalizing s with
  | nil => exact h
  | cons k ks ih => exact ih (known_serve h)

/-- A key that was asked for is known. -/
theorem known_of_mem {ks : List κ} {k : κ} (h : k ∈ ks) : ∃ a, (S.serveAll ks s).known k = some a := by
  induction ks generalizing s with
  | nil => cases h
  | cons j ks ih =>
    obtain rfl | h := List.mem_cons.1 h
    · obtain ⟨a, ha⟩ : ∃ a, (S.serve k s).known k = some a := by
        cases hk : s.known k with
        | some a => exact ⟨a, known_serve hk⟩
        | none => exact ⟨_, by rw [serve, hk]; exact Function.update_self ..⟩
      exact ⟨a, known_serveAll (S := S) (s := S.serve k s) ha⟩
    · exact ih h

/-- Serving requests, and requests behind them. -/
theorem serveAll_append (ks ls : List κ) (s : State κ α χ X) :
    S.serveAll (ks ++ ls) s = S.serveAll ls (S.serveAll ks s) := List.foldl_append ..

/-- Two states agree on a channel. -/
structure Agree (S : Service κ α χ X) (c : χ) (s t : State κ α χ X) : Prop where
  known : ∀ k, S.channel k = c → s.known k = t.known k
  cell : s.cell c = t.cell c

/-- Another channel's key changes nothing here. -/
theorem Agree.serve_other (h : S.Agree c s t) (hk : S.channel k ≠ c) : S.Agree c (S.serve k s) t := by
  unfold serve
  split
  · exact h
  · refine ⟨fun j hj => ?_, ?_⟩
    · have hne : j ≠ k := fun hjk => hk (hjk ▸ hj)
      exact (Function.update_of_ne hne ..).trans (h.known j hj)
    · exact (Function.update_of_ne (Ne.symm hk) ..).trans h.cell

/-- The channel's own key is answered alike. -/
theorem Agree.serve (h : S.Agree c s t) (hk : S.channel k = c) :
    S.Agree c (S.serve k s) (S.serve k t) := by
  subst hk
  have hknown := h.known k rfl
  unfold Service.serve
  rw [← hknown]
  split
  · exact h
  · refine ⟨fun j hj => ?_, ?_⟩
    · dsimp only
      rw [h.cell]
      by_cases hjk : j = k
      · rw [hjk, Function.update_self, Function.update_self]
      · rw [Function.update_of_ne hjk, Function.update_of_ne hjk]
        exact h.known j hj
    · dsimp only
      rw [h.cell, Function.update_self, Function.update_self]

/-- **A channel sees its newcomers only**: to it, a list of keys is the list of its own
keys that are new. -/
theorem agree_newcomers {ks earlier : List κ} (h : S.Agree c s t)
    (hearlier : ∀ k, S.channel k = c → (k ∈ earlier ↔ (s.known k).isSome)) :
    S.Agree c (S.serveAll ks s)
      (S.serveAll (newcomers earlier (ks.filter fun k => S.channel k = c)) t) := by
  induction ks generalizing s t earlier with
  | nil => exact h
  | cons k ks ih =>
    by_cases hk : S.channel k = c
    · rw [List.filter_cons_of_pos (by simpa using hk), newcomers]
      split_ifs with hmem
      · obtain ⟨a, ha⟩ := Option.isSome_iff_exists.1 ((hearlier k hk).1 hmem)
        show S.Agree c (S.serveAll ks (S.serve k s)) _
        rw [serve_of_known ha]
        exact ih h hearlier
      · refine ih (h.serve hk) fun j hj => ?_
        have hnone : s.known k = none := by
          rw [hearlier k hk, Bool.not_eq_true, Option.isSome_eq_false_iff, Option.isNone_iff_eq_none]
            at hmem
          exact hmem
        have hserve : (S.serve k s).known = Function.update s.known k
            (some (S.answer k (s.cell (S.channel k))).1) := by
          rw [serve, hnone]
        rw [List.mem_cons, hserve, hearlier j hj]
        by_cases hjk : j = k
        · rw [hjk, Function.update_self]
          simp
        · rw [Function.update_of_ne hjk]
          simp [hjk]
    · rw [List.filter_cons_of_neg (by simpa using hk)]
      have hsame := (Agree.serve_other (S := S) (k := k) ⟨fun _ _ => rfl, rfl⟩ hk : S.Agree c _ s)
      refine ih (h.serve_other hk) fun j hj => ?_
      rw [hearlier j hj, hsame.known j hj]

section Arrivals

variable {β τ : Type} [LinearOrder τ] {keys : β → List κ} {clock : β → τ}

/-- On every channel the arrivals come in turn. -/
def InTurn (S : Service κ α χ X) (keys : β → List κ) (clock : β → τ) (log : List β) : Prop :=
  ∀ c, Lib.InTurn (fun b => (keys b).filter fun k => S.channel k = c) clock [] log

/-- Arrivals in the order of the clock come in turn. -/
theorem inTurn_of_pairwise {log : List β} (hclock : (log.map clock).Nodup)
    (hsorted : log.Pairwise fun b b' => clock b ≤ clock b') : S.InTurn keys clock log :=
  fun c => (newcomers_eq_iff_inTurn hclock).1 (by rw [sortByKey_of_pairwise hsorted])

/-- **Two runs over the same arrivals give the same answers if both are in turn.** -/
theorem known_eq_of_inTurn {as bs : List β} (hs : ∀ k, s.known k = none) (hperm : as.Perm bs)
    (hclock : (as.map clock).Nodup) (has : S.InTurn keys clock as) (hbs : S.InTurn keys clock bs) :
    (S.serveAll (as.flatMap keys) s).known = (S.serveAll (bs.flatMap keys) s).known := by
  have hsort : sortByKey clock as = sortByKey clock bs :=
    sortByKey_eq_of_perm hclock (stablySorted_sortByKey clock bs).sorted
      (hperm.trans (sortByKey_perm clock bs).symm)
  funext k
  have hagree : ∀ ks, S.Agree (S.channel k) (S.serveAll ks s)
      (S.serveAll (newcomers [] (ks.filter fun j => S.channel j = S.channel k)) s) := fun ks =>
    agree_newcomers ⟨fun _ _ => rfl, rfl⟩ fun j _ => by simp [hs]
  have hbs' := (newcomers_eq_iff_inTurn ((hperm.map clock).nodup_iff.1 hclock)).2 (hbs (S.channel k))
  have has' := (newcomers_eq_iff_inTurn hclock).2 (has (S.channel k))
  rw [(hagree _).known k rfl, (hagree (bs.flatMap keys)).known k rfl, List.filter_flatMap,
    List.filter_flatMap, has', hbs', hsort]

end Arrivals

end Service

end Lib
end Maja
