import Mathlib.Data.List.MinMax

/-!
# Selections

Loops that keep the best element so far, as the first of the least elements of a list.
-/

namespace Subordination.Library

variable {α β : Type*} [LinearOrder β] {f : α → β} {xs : List α} {m : α}

/-- The first of the least elements is less than those before it, and no more than those after it. -/
theorem argmin_eq_some_iff_append : xs.argmin f = some m ↔
    ∃ before after, xs = before ++ m :: after ∧ (∀ a ∈ before, f m < f a) ∧ ∀ a ∈ after, f m ≤ f a := by
  constructor
  · intro h
    induction xs with
    | nil => simp at h
    | cons x xs ih =>
      rw [List.argmin_cons] at h
      cases hrest : xs.argmin f with
      | none =>
        rw [List.argmin_eq_none] at hrest
        simp only [hrest, List.argmin_nil, Option.some.injEq] at h
        exact ⟨[], [], by simp [hrest, h], by simp, by simp⟩
      | some c =>
        simp only [hrest] at h
        split_ifs at h with hlt
        · obtain ⟨before, after, happ, hbefore, hafter⟩ := ih (hrest.trans h)
          refine ⟨x :: before, after, by simp [happ], List.forall_mem_cons.mpr ⟨?_, hbefore⟩, hafter⟩
          exact Option.some.inj h ▸ hlt
        · have hx : x = m := Option.some.inj h
          refine ⟨[], xs, by simp [hx], by simp, fun a ha => hx ▸ ?_⟩
          exact le_trans (le_of_not_gt hlt) (List.le_of_mem_argmin ha hrest)
  · rintro ⟨before, after, rfl, hbefore, hafter⟩
    induction before with
    | nil =>
      rw [List.nil_append, List.argmin_cons]
      cases hrest : after.argmin f with
      | none => rfl
      | some c => simp [not_lt.mpr (hafter c (List.argmin_mem hrest))]
    | cons x before ih =>
      rw [List.cons_append, List.argmin_cons, ih fun a ha => hbefore a (List.mem_cons_of_mem x ha)]
      simp [hbefore x List.mem_cons_self]

/-- A loop that leaves out some of the elements. -/
theorem foldl_argmin_filter {p : α → Bool} {step : Option α → α → Option α}
    (hp : ∀ best a, p a = true → step best a = List.argAux (fun b c => f b < f c) best a)
    (hn : ∀ best a, p a = false → step best a = best) : xs.foldl step none = (xs.filter p).argmin f := by
  rw [List.argmin, List.foldl_filter]
  congr
  funext best a
  cases h : p a with
  | true => simp [hp best a h]
  | false => simp [hn best a h]

/-- One step of a loop that asks for `p` as long as nothing has been chosen. -/
def chooseFirst (p : α → Bool) (f : α → β) : Option α → α → Option α
  | none, a => if p a then some a else none
  | some b, a => if f a < f b then some a else some b

/-- Such a loop chooses among the elements with `p`, if that holds of all that is less than one of them. -/
theorem foldl_argmin_first {p : α → Bool} (hmono : ∀ a b, p a = true → f b < f a → p b = true) :
    xs.foldl (chooseFirst p f) none = (xs.filter p).argmin f := by
  induction xs using List.reverseRecOn with
  | nil => rfl
  | append_singleton xs a ih =>
    rw [List.foldl_concat, List.filter_append, ih]
    cases hbest : (xs.filter p).argmin f with
    | none =>
      rw [List.argmin_eq_none] at hbest
      cases hp : p a <;> simp [chooseFirst, hbest, hp]
    | some b =>
      have hb : p b = true := (List.mem_filter.mp (List.argmin_mem hbest)).2
      cases hp : p a with
      | true => simp [chooseFirst, hp, List.argmin_concat, hbest]
      | false =>
        have hlt : ¬f a < f b := fun hlt => by simp [hmono b a hb hlt] at hp
        simp [chooseFirst, hp, hbest, hlt]

/-- The least of two lists with the same elements are equally small. -/
theorem argmin_perm {ys : List α} (h : xs.Perm ys) : (xs.argmin f).map f = (ys.argmin f).map f := by
  cases hx : xs.argmin f with
  | none =>
    rw [List.argmin_eq_none] at hx
    simp [List.perm_nil.mp (hx ▸ h).symm]
  | some m =>
    cases hy : ys.argmin f with
    | none =>
      rw [List.argmin_eq_none] at hy
      simp [List.perm_nil.mp (hy ▸ h)] at hx
    | some n =>
      have hle := List.le_of_mem_argmin (h.mem_iff.mpr (List.argmin_mem hy)) hx
      have hge := List.le_of_mem_argmin (h.mem_iff.mp (List.argmin_mem hx)) hy
      exact congrArg some (le_antisymm hle hge)

end Subordination.Library
