import Subordination.Core.Weights
import Mathlib.Data.Prod.Lex

/-!
# The order of relative loads

`std::array` compares its elements one after another, so relative loads are in a linear order (`core/weights.hh`).
-/

namespace Subordination.Core

namespace ModularWeight

/-- The two numbers, the first of which decides before the second. -/
def key (w : ModularWeight) : ℕ ×ₗ ℕ := toLex (w.quotient.value.toNat, w.remainder.value.toNat)

theorem key_injective : Function.Injective key := by
  rintro ⟨⟨a⟩, ⟨b⟩⟩ ⟨⟨c⟩, ⟨d⟩⟩ h
  have h := toLex.injective h
  simp only [Prod.mk.injEq, UInt32.toNat_inj] at h
  simp [h]

instance : LinearOrder ModularWeight := LinearOrder.lift' key key_injective

/-- `operator<` compares the quotients, and then the remainders. -/
theorem lt_iff {a b : ModularWeight} : a.lt b = true ↔ a < b := by
  change _ ↔ a.key < b.key
  rw [key, key, Prod.Lex.toLex_lt_toLex, lt]
  simp only [UInt32.lt_iff_toNat_lt]
  split_ifs with h h'
  · simp [h]
  · simp only [false_iff]
    omega
  · simp only [decide_eq_true_eq]
    omega

end ModularWeight

namespace ModularWeightArray

/-- The two weights, the first of which decides before the second. -/
def key (w : ModularWeightArray) : ModularWeight ×ₗ ModularWeight := toLex (w.whole, w.part)

theorem key_injective : Function.Injective key := by
  rintro ⟨a, b⟩ ⟨c, d⟩ h
  have h := toLex.injective h
  simp only [Prod.mk.injEq] at h
  simp [h]

instance : LinearOrder ModularWeightArray := LinearOrder.lift' key key_injective

/-- The order is that of the pairs. -/
theorem lt_iff_lex {a b : ModularWeightArray} : a < b ↔ a.whole < b.whole ∨ a.whole = b.whole ∧ a.part < b.part := by
  change a.key < b.key ↔ _
  rw [key, key, Prod.Lex.toLex_lt_toLex]

/-- `operator<` compares the weights of whole nodes, and then the others. -/
theorem lt_iff {a b : ModularWeightArray} : a.lt b = true ↔ a < b := by
  rw [lt_iff_lex, lt]
  simp only [ModularWeight.lt_iff]
  split_ifs with h h'
  · simp [h]
  · simp only [false_iff, not_or, not_and]
    exact ⟨h, fun heq => absurd h' (heq ▸ lt_irrefl _)⟩
  · rw [ModularWeight.lt_iff]
    simp [le_antisymm (le_of_not_gt h') (le_of_not_gt h)]

/-- `operator<=`. -/
theorem le_iff {a b : ModularWeightArray} : a.le b = true ↔ a ≤ b := by
  rw [le, Bool.not_eq_true', ← Bool.not_eq_true, lt_iff, not_lt]

end ModularWeightArray

end Subordination.Core
