import Mathlib.Data.Nat.Notation
import Mathlib.Logic.Relation

/-!
# Systems

A system is given by the states it may start in and the steps it may take. What holds
at the start and is preserved by every step holds of every state it reaches.
-/

namespace Subordination.Library

/-- A system: where it may start, and what it may do next. -/
structure System (σ : Type*) where
  /-- The states it may start in. -/
  Initial : σ → Prop
  /-- The steps it may take. -/
  Step : σ → σ → Prop

namespace System

variable {σ : Type*} {S : System σ} {s s' : σ} {p : σ → Prop}

/-- The states that a run of the system reaches. -/
inductive Reachable (S : System σ) : σ → Prop
  /-- The start of a run. -/
  | initial {s : σ} : S.Initial s → Reachable S s
  /-- One step more. -/
  | step {s s' : σ} : Reachable S s → S.Step s s' → Reachable S s'

/-- **An inductive invariant holds of every reachable state.** -/
theorem Reachable.invariant (h : S.Reachable s) (hinitial : ∀ s, S.Initial s → p s)
    (hstep : ∀ s s', p s → S.Step s s' → p s') : p s := by
  induction h with
  | initial hs => exact hinitial _ hs
  | step _ hs ih => exact hstep _ _ ih hs

/-- A run goes on with any number of steps. -/
theorem Reachable.steps (h : S.Reachable s) (hs : Relation.ReflTransGen S.Step s s') : S.Reachable s' := by
  induction hs with
  | refl => exact h
  | tail _ hs ih => exact ih.step hs

/-- **A run is no longer than its measure**, if every step from where an invariant holds makes that smaller. -/
theorem length_le {f : ℕ → σ} {n : ℕ} (measure : σ → ℕ) (hstart : p (f 0))
    (hstep : ∀ s s', p s → S.Step s s' → p s' ∧ measure s' < measure s)
    (hsteps : ∀ i < n, S.Step (f i) (f (i + 1))) : n ≤ measure (f 0) := by
  have hrun : ∀ i ≤ n, p (f i) ∧ i + measure (f i) ≤ measure (f 0) := by
    intro i hi
    induction i with
    | zero => exact ⟨hstart, by omega⟩
    | succ i ih =>
      obtain ⟨hp, hle⟩ := ih (by omega)
      obtain ⟨hp', hlt⟩ := hstep _ _ hp (hsteps i (by omega))
      exact ⟨hp', by omega⟩
  have hle := (hrun n n.le_refl).2
  omega

/-! ### Simulations -/

variable {τ : Type*} {T : System τ} {g : σ → τ} {t : τ}

/-- What a system reaches, another one reaches that can do the same. -/
theorem Reachable.map (h : S.Reachable s) (hinitial : ∀ s, S.Initial s → T.Initial (g s))
    (hstep : ∀ s s', S.Step s s' → T.Step (g s) (g s')) : T.Reachable (g s) := by
  induction h with
  | initial hs => exact .initial (hinitial _ hs)
  | step _ hs ih => exact ih.step (hstep _ _ hs)

/-- The other way round. -/
theorem Reachable.lift (h : T.Reachable t) (hinitial : ∀ t, T.Initial t → ∃ s, S.Initial s ∧ g s = t)
    (hstep : ∀ s t', T.Step (g s) t' → ∃ s', S.Step s s' ∧ g s' = t') : ∃ s, S.Reachable s ∧ g s = t := by
  induction h with
  | initial ht =>
    obtain ⟨s, hs, rfl⟩ := hinitial _ ht
    exact ⟨s, .initial hs, rfl⟩
  | step _ ht ih =>
    obtain ⟨s, hs, rfl⟩ := ih
    obtain ⟨s', hs', rfl⟩ := hstep s _ ht
    exact ⟨s', hs.step hs', rfl⟩

end System

end Subordination.Library
