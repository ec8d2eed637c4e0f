import Mathlib.Data.List.Basic

/-!
# Refusals

A list whose elements are given to a taker one after another. The taker may refuse one of them, and whether it
does depends on what it has taken before.

## What is proved

* `accepted_cons`, `accepted_append` — the elements are accepted one by one.
* `not_accepted_iff` — otherwise there is a first one that is refused.
-/

namespace Subordination.Library

variable {α : Type*} {refuses : List α → α → Bool} {taken todo later : List α} {a : α}

/-- All the elements are accepted by a taker that has taken the given ones. -/
def Accepted (refuses : List α → α → Bool) (taken todo : List α) : Prop :=
  ∀ before a after, todo = before ++ a :: after → refuses (taken ++ before) a = false

@[simp] theorem accepted_nil : Accepted refuses taken [] := by
  intro before a after h
  exact absurd h.symm (by simp)

theorem accepted_cons : Accepted refuses taken (a :: todo) ↔
    refuses taken a = false ∧ Accepted refuses (taken ++ [a]) todo := by
  constructor
  · intro h
    refine ⟨by simpa using h [] a todo rfl, fun before a' after htodo => ?_⟩
    simpa using h (a :: before) a' after (by rw [htodo, List.cons_append])
  · rintro ⟨hhead, htail⟩ before a' after htodo
    cases before with
    | nil =>
      obtain ⟨rfl, rfl⟩ := List.cons.inj htodo
      simpa using hhead
    | cons a₁ before =>
      obtain ⟨rfl, hrest⟩ := List.cons.inj htodo
      simpa using htail before a' after hrest

theorem accepted_append : Accepted refuses taken (todo ++ later) ↔
    Accepted refuses taken todo ∧ Accepted refuses (taken ++ todo) later := by
  induction todo generalizing taken with
  | nil => simp
  | cons a todo ih => rw [List.cons_append, accepted_cons, ih, accepted_cons, and_assoc, List.append_assoc,
      List.singleton_append]

/-- **The first refusal.** -/
theorem not_accepted_iff : ¬ Accepted refuses taken todo ↔ ∃ before a after, todo = before ++ a :: after ∧
    Accepted refuses taken before ∧ refuses (taken ++ before) a = true := by
  constructor
  · intro h
    induction todo generalizing taken with
    | nil => exact absurd accepted_nil h
    | cons a todo ih =>
      cases ha : refuses taken a with
      | true => exact ⟨[], a, todo, rfl, accepted_nil, by simpa using ha⟩
      | false =>
        rw [accepted_cons, and_iff_right ha] at h
        obtain ⟨before, a', after, rfl, hbefore, hrefuses⟩ := ih h
        exact ⟨a :: before, a', after, rfl, accepted_cons.mpr ⟨ha, hbefore⟩, by simpa using hrefuses⟩
  · rintro ⟨before, a, after, rfl, -, hrefuses⟩ h
    exact absurd (hrefuses.symm.trans (h before a after rfl)) (by decide)

end Subordination.Library
