import Mathlib.Data.Nat.Notation
import Mathlib.Logic.Relation

/-!
# Loops

A loop is given by what a turn of it does: it leaves the loop, or it goes on in another state. A loop
progresses if it ends, and if every turn that goes on advances its state.

## What is proved

* `progresses_iff_of_turn` — a loop progresses if its first turn advances the state and the loop progresses
  from there.
* `not_endsWithin_of_invariant` — a loop never ends that always goes on.
-/

namespace Subordination.Library

namespace Loop

variable {σ : Type*} {turn : σ → Option σ} {advances : σ → σ → Prop} {s s' : σ}

/-- The loop is left within so many turns. -/
def EndsWithin (turn : σ → Option σ) : ℕ → σ → Prop
  | 0, _ => False
  | n + 1, s => ∀ s', turn s = some s' → EndsWithin turn n s'

/-- The loop is left, and every turn until then advances the state. -/
structure Progresses (turn : σ → Option σ) (advances : σ → σ → Prop) (s : σ) : Prop where
  /-- It is left. -/
  ends : ∃ n, EndsWithin turn n s
  /-- A turn that goes on advances the state. -/
  advances : ∀ x y, Relation.ReflTransGen (fun x y => turn x = some y) s x → turn x = some y → advances x y

/-- The loop is left at once. -/
theorem progresses_of_leaves (h : turn s = none) : Progresses turn advances s := by
  refine ⟨⟨1, fun s' hs' => ?_⟩, fun x y hx hxy => ?_⟩
  · simp [h] at hs'
  · -- there is no turn to be reached
    rcases Relation.ReflTransGen.cases_head hx with rfl | ⟨z, hz, -⟩
    · simp [h] at hxy
    · simp [h] at hz

/-- **The first turn goes on**: it has to advance the state, and so has the loop from there. -/
theorem progresses_iff_of_turn (h : turn s = some s') :
    Progresses turn advances s ↔ advances s s' ∧ Progresses turn advances s' := by
  constructor
  · rintro ⟨⟨n, hends⟩, hadvances⟩
    refine ⟨hadvances s s' .refl h, ?_, fun x y hx hxy => hadvances x y (.head h hx) hxy⟩
    cases n with
    | zero => exact hends.elim
    | succ n => exact ⟨n, hends s' h⟩
  · rintro ⟨hfirst, ⟨n, hends⟩, hadvances⟩
    refine ⟨⟨n + 1, fun t ht => ?_⟩, fun x y hx hxy => ?_⟩
    · rw [h] at ht
      cases ht
      exact hends
    · rcases Relation.ReflTransGen.cases_head hx with rfl | ⟨z, hz, hx⟩
      · rw [h] at hxy
        cases hxy
        exact hfirst
      · rw [h] at hz
        cases hz
        exact hadvances x y hx hxy

/-- **A loop never ends** as long as something holds that makes it go on and that its turns keep. -/
theorem not_endsWithin_of_invariant {p : σ → Prop} (hp : ∀ s, p s → ∃ s', turn s = some s' ∧ p s') (hs : p s)
    (n : ℕ) : ¬ EndsWithin turn n s := by
  induction n generalizing s with
  | zero => exact fun h => h
  | succ n ih =>
    intro h
    obtain ⟨s', hturn, hs'⟩ := hp s hs
    exact ih hs' (h s' hturn)

end Loop

end Subordination.Library
