import Mathlib.Data.Fintype.Card
import Mathlib.Logic.Relation

/-!
# Marking along links

What a search has marked that starts with some marked elements and follows links from its roots. How it goes about
it is left open: `Visits` is what one visit does, and it is composed.
-/

namespace Subordination.Library

open Relation

variable {α σ : Type*} {link : α → α → Prop} {k : α} {roots roots' xs ys zs : List α}

/-- Visiting the roots marks what was not marked before: from `xs` it goes to `ys`. -/
structure Visits (link : α → α → Prop) (roots xs ys : List α) : Prop where
  /-- Marks stay. -/
  subset : xs ⊆ ys
  /-- The roots are marked. -/
  roots_subset : roots ⊆ ys
  /-- What is new can be reached from a root. -/
  reachable : ∀ y ∈ ys, y ∉ xs → ∃ r ∈ roots, ReflTransGen link r y
  /-- The links of what is new have been followed. -/
  closed : ∀ y ∈ ys, y ∉ xs → ∀ z, link y z → z ∈ ys

namespace Visits

/-- There is nothing to do for roots that are marked. -/
theorem marked (h : roots ⊆ xs) : Visits link roots xs xs where
  subset := List.Subset.refl xs
  roots_subset := h
  reachable := fun _ hy hn => absurd hy hn
  closed := fun _ hy hn => absurd hy hn

/-- One visit after another. -/
theorem append (h : Visits link roots xs ys) (h' : Visits link roots' ys zs) :
    Visits link (roots ++ roots') xs zs where
  subset := List.Subset.trans h.subset h'.subset
  roots_subset := List.append_subset.mpr ⟨List.Subset.trans h.roots_subset h'.subset, h'.roots_subset⟩
  reachable := by
    intro z hz hn
    by_cases hy : z ∈ ys
    · obtain ⟨r, hr, hreach⟩ := h.reachable z hy hn
      exact ⟨r, List.mem_append_left _ hr, hreach⟩
    · obtain ⟨r, hr, hreach⟩ := h'.reachable z hz hy
      exact ⟨r, List.mem_append_right _ hr, hreach⟩
  closed := by
    intro y hz hn z hlink
    by_cases hy : y ∈ ys
    · exact h'.subset (h.closed y hy hn z hlink)
    · exact h'.closed y hz hy z hlink

/-- What is reached along a link of `k` is reached from `k`. -/
private theorem reachable_of_links (hroots : ∀ r ∈ roots, link k r)
    (h : ∀ y ∈ ys, y ∉ zs → ∃ r ∈ roots, ReflTransGen link r y) :
    ∀ y ∈ ys, y ∉ zs → ∃ r ∈ [k], ReflTransGen link r y := by
  intro y hy hn
  obtain ⟨r, hr, hreach⟩ := h y hy hn
  exact ⟨k, List.mem_singleton_self k, ReflTransGen.head (hroots r hr) hreach⟩

/-- An element is visited by marking it and visiting what it is linked to. -/
theorem mark (hroots : ∀ z, link k z ↔ z ∈ roots) (h : Visits link roots (xs ++ [k]) ys) :
    Visits link [k] xs ys where
  subset := List.Subset.trans (List.subset_append_left xs [k]) h.subset
  roots_subset := List.Subset.trans (List.subset_append_right xs [k]) h.subset
  reachable := by
    intro y hy hn
    by_cases hk : y = k
    · exact ⟨k, List.mem_singleton_self k, hk ▸ ReflTransGen.refl⟩
    · exact reachable_of_links (fun r hr => (hroots r).mpr hr) h.reachable y hy (by simp [hn, hk])
  closed := by
    intro y hy hn z hlink
    by_cases hk : y = k
    · subst hk
      exact h.roots_subset ((hroots z).mp hlink)
    · exact h.closed y hy (by simp [hn, hk]) z hlink

/-- A marked element may be visited again by visiting what it is linked to. -/
theorem again (hk : k ∈ xs) (hroots : ∀ r ∈ roots, link k r) (h : Visits link roots xs ys) :
    Visits link [k] xs ys where
  subset := h.subset
  roots_subset := List.cons_subset.mpr ⟨h.subset hk, List.nil_subset ys⟩
  reachable := reachable_of_links hroots h.reachable
  closed := h.closed

/-- If nothing was marked at the start, what is marked at the end is what can be reached. -/
theorem mem_iff (h : Visits link roots [] ys) {y : α} : y ∈ ys ↔ ∃ r ∈ roots, ReflTransGen link r y := by
  constructor
  · intro hy
    exact h.reachable y hy List.not_mem_nil
  · rintro ⟨r, hr, hreach⟩
    induction hreach with
    | refl => exact h.roots_subset hr
    | tail _ hlink ih => exact h.closed _ ih List.not_mem_nil _ hlink

/-- A loop over the roots, if each of its steps is a visit as long as `P` holds, and marking keeps `P`. -/
theorem foldlM {marks : σ → List α} {f : σ → α → Option σ} {P : σ → Prop}
    (hP : ∀ s s', marks s ⊆ marks s' → P s → P s')
    (h : ∀ r ∈ roots, ∀ s, P s → ∃ s', f s r = some s' ∧ Visits link [r] (marks s) (marks s')) {s : σ} (hs : P s) :
    ∃ s', roots.foldlM f s = some s' ∧ Visits link roots (marks s) (marks s') := by
  induction roots generalizing s with
  | nil => exact ⟨s, rfl, Visits.marked (List.nil_subset _)⟩
  | cons r roots ih =>
    obtain ⟨t, ht, hvisit⟩ := h r List.mem_cons_self s hs
    obtain ⟨u, hu, hvisits⟩ := ih (fun q hq => h q (List.mem_cons_of_mem r hq)) (hP s t hvisit.subset hs)
    refine ⟨u, ?_, hvisit.append hvisits⟩
    simp [ht, hu]

end Visits

/-- A loop that ends goes the same way when its steps end more often. -/
theorem foldlM_of_le {f g : σ → α → Option σ} (h : ∀ s a t, f s a = some t → g s a = some t) {s t : σ}
    (hf : xs.foldlM f s = some t) : xs.foldlM g s = some t := by
  induction xs generalizing s with
  | nil => exact hf
  | cons x xs ih =>
    rw [List.foldlM_cons] at hf ⊢
    obtain ⟨u, hu, hrest⟩ := Option.bind_eq_some_iff.mp hf
    rw [h s x u hu]
    exact ih hrest

section Unmarked

variable [Fintype α] [DecidableEq α]

/-- How many elements are not marked. -/
def unmarked (xs : List α) : ℕ := (Finset.univ.filter (· ∉ xs)).card

theorem unmarked_le (h : xs ⊆ ys) : unmarked ys ≤ unmarked xs := by
  refine Finset.card_le_card fun y hy => ?_
  simp only [Finset.mem_filter, Finset.mem_univ, true_and] at hy ⊢
  exact fun hx => hy (h hx)

theorem unmarked_append_lt (h : k ∉ xs) : unmarked (xs ++ [k]) < unmarked xs := by
  refine Finset.card_lt_card (Finset.ssubset_iff_of_subset (fun y hy => ?_) |>.mpr ⟨k, ?_, ?_⟩)
  · simp only [Finset.mem_filter, Finset.mem_univ, true_and] at hy ⊢
    exact fun hx => hy (List.mem_append_left _ hx)
  · simpa using h
  · simp

end Unmarked

end Subordination.Library
