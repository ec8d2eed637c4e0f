import Mathlib.Data.Prod.Lex
import Mathlib.Tactic.Ring

/-!
# Quotients with remainders

Fractions that are represented by a quotient and a remainder, and compared as such: when that is the order of the
fractions.
-/

namespace Subordination.Library

/-- A quotient and the remainder of its division. -/
def divMod (t p : ℕ) : ℕ ×ₗ ℕ := toLex (p / t, p % t)

variable {t t₁ t₂ T₁ T₂ : ℕ}

theorem divMod_lt_iff {p q : ℕ} :
    divMod t₁ p < divMod t₂ q ↔ p / t₁ < q / t₂ ∨ p / t₁ = q / t₂ ∧ p % t₁ < q % t₂ := by
  rw [divMod, divMod, Prod.Lex.toLex_lt_toLex]

/-- With one divisor they are in the order of the dividends. -/
theorem divMod_lt_same (p q : ℕ) : divMod t p < divMod t q ↔ p < q := by
  have hp := Nat.div_add_mod p t
  have hq := Nat.div_add_mod q t
  rw [divMod_lt_iff]
  constructor
  · rintro (hlt | ⟨heq, hlt⟩)
    · exact Nat.lt_of_div_lt_div hlt
    · rw [heq] at hp
      omega
  · intro hlt
    rcases Nat.lt_or_eq_of_le (Nat.div_le_div_right (c := t) hlt.le) with h | h
    · exact Or.inl h
    · rw [h] at hp
      exact Or.inr ⟨h, by omega⟩

/-- A number is less than a quotient with a remainder if it is less than the fraction. -/
theorem divMod_one_lt (ht : 0 < t) (p q : ℕ) : divMod 1 p < divMod t q ↔ p * t < q := by
  have hq := Nat.div_add_mod' q t
  rw [divMod_lt_iff, Nat.div_one, Nat.mod_one]
  constructor
  · rintro (hlt | ⟨rfl, hlt⟩)
    · exact (Nat.mul_lt_mul_of_pos_right hlt ht).trans_le (Nat.div_mul_le_self q t)
    · omega
  · intro hlt
    rcases Nat.lt_or_eq_of_le ((Nat.le_div_iff_mul_le ht).mpr hlt.le) with h | rfl
    · exact Or.inl h
    · exact Or.inr ⟨rfl, by omega⟩

/-- It is greater if it is greater than the fraction. -/
theorem lt_divMod_one (ht : 0 < t) (p q : ℕ) : divMod t q < divMod 1 p ↔ q < p * t := by
  rw [divMod_lt_iff, Nat.div_one, Nat.mod_one, Nat.div_lt_iff_lt_mul ht]
  simp

/-- The quotients by `t₁` and `t₂` stand for the fractions with the denominators `T₁` and `T₂`. -/
def Proportionate (t₁ T₁ t₂ T₂ : ℕ) : Prop :=
  t₁ = t₂ ∧ T₁ = T₂ ∨ t₁ = 1 ∧ T₂ = t₂ * T₁ ∨ t₂ = 1 ∧ T₁ = t₁ * T₂

instance : Decidable (Proportionate t₁ T₁ t₂ T₂) := inferInstanceAs (Decidable (_ ∨ _))

theorem Proportionate.symm (h : Proportionate t₁ T₁ t₂ T₂) : Proportionate t₂ T₂ t₁ T₁ := by
  rcases h with ⟨rfl, rfl⟩ | h | h
  · exact Or.inl ⟨rfl, rfl⟩
  · exact Or.inr (Or.inr h)
  · exact Or.inr (Or.inl h)

/-- If they do, they are in the order of the fractions. -/
theorem Proportionate.divMod_lt_iff (h : Proportionate t₁ T₁ t₂ T₂) (ht₁ : 0 < t₁) (ht₂ : 0 < t₂) (hT₁ : 0 < T₁)
    (hT₂ : 0 < T₂) (p q : ℕ) : divMod t₁ p < divMod t₂ q ↔ p * T₂ < q * T₁ := by
  rcases h with ⟨rfl, rfl⟩ | ⟨rfl, rfl⟩ | ⟨rfl, rfl⟩
  · rw [divMod_lt_same, Nat.mul_lt_mul_right hT₁]
  · rw [divMod_one_lt ht₂, ← mul_assoc, Nat.mul_lt_mul_right hT₁]
  · rw [lt_divMod_one ht₁, ← mul_assoc, Nat.mul_lt_mul_right hT₂]

/-- Nothing else does, if the dividends may be as great as the divisors: the fractions of the divisors themselves, and
those of one, are equal. -/
theorem proportionate_of_divMod {n : ℕ} (hn : 1 < n) (ht₁ : 0 < t₁) (ht₂ : 0 < t₂) (hn₁ : t₁ < n) (hn₂ : t₂ < n)
    (hT₁ : 0 < T₁) (h : ∀ p < n, ∀ q < n, (divMod t₁ p < divMod t₂ q ↔ p * T₂ < q * T₁) ∧
      (divMod t₂ q < divMod t₁ p ↔ q * T₁ < p * T₂)) : Proportionate t₁ T₁ t₂ T₂ := by
  have heq : ∀ p < n, ∀ q < n, divMod t₁ p = divMod t₂ q → p * T₂ = q * T₁ := by
    intro p hp q hq hpq
    obtain ⟨hlt, hgt⟩ := h p hp q hq
    rw [hpq] at hlt hgt
    have hnlt := mt hlt.mpr (lt_irrefl _)
    have hngt := mt hgt.mpr (lt_irrefl _)
    omega
  have hdivisors : t₁ * T₂ = t₂ * T₁ := heq t₁ hn₁ t₂ hn₂ (by simp [divMod, Nat.div_self, ht₁, ht₂])
  by_cases hone₁ : t₁ = 1
  · exact Or.inr (Or.inl ⟨hone₁, by rw [← hdivisors, hone₁, one_mul]⟩)
  by_cases hone₂ : t₂ = 1
  · exact Or.inr (Or.inr ⟨hone₂, by rw [hdivisors, hone₂, one_mul]⟩)
  have hlt₁ : 1 < t₁ := by omega
  have hlt₂ : 1 < t₂ := by omega
  have hT : 1 * T₂ = 1 * T₁ := heq 1 hn 1 hn (by simp [divMod, Nat.div_eq_of_lt, Nat.mod_eq_of_lt, hlt₁, hlt₂])
  rw [one_mul, one_mul] at hT
  rw [hT] at hdivisors
  exact Or.inl ⟨Nat.eq_of_mul_eq_mul_right hT₁ hdivisors, hT.symm⟩

/-! ### Comparisons -/

variable {ι β β' γ γ' : Type*} [LinearOrder β] [LinearOrder β'] [LinearOrder γ] [LinearOrder γ']

/-- The values of `f₁` and `f₂` are in the order of the values of `g₁` and `g₂`. -/
def Agrees (f₁ f₂ : ι → β) (g₁ g₂ : ι → γ) : Prop :=
  ∀ p q, (f₁ p < f₂ q ↔ g₁ p < g₂ q) ∧ (f₂ q < f₁ p ↔ g₂ q < g₁ p)

theorem Agrees.eq_iff {f₁ f₂ : ι → β} {g₁ g₂ : ι → γ} (h : Agrees f₁ f₂ g₁ g₂) (p q : ι) :
    f₁ p = f₂ q ↔ g₁ p = g₂ q := by
  obtain ⟨hlt, hgt⟩ := h p q
  rw [eq_iff_le_not_lt, eq_iff_le_not_lt, hlt, ← not_lt, ← not_lt, hgt]

/-- Pairs are in order if both of their parts are. -/
theorem agrees_lex_iff {f₁ f₂ : ι → β} {g₁ g₂ : ι → γ} {f₁' f₂' : ι → β'} {g₁' g₂' : ι → γ'} {z : ι}
    (hf : f₁ z = f₂ z) (hg : g₁ z = g₂ z) (hf' : f₁' z = f₂' z) (hg' : g₁' z = g₂' z) :
    Agrees (fun x : ι × ι => toLex (f₁ x.1, f₁' x.2)) (fun x => toLex (f₂ x.1, f₂' x.2))
        (fun x => toLex (g₁ x.1, g₁' x.2)) (fun x => toLex (g₂ x.1, g₂' x.2)) ↔
      Agrees f₁ f₂ g₁ g₂ ∧ Agrees f₁' f₂' g₁' g₂' := by
  constructor
  · refine fun h => ⟨fun p q => ?_, fun p q => ?_⟩
    · have hpair := h (p, z) (q, z)
      simpa [Prod.Lex.toLex_lt_toLex, hf', hg'] using hpair
    · have hpair := h (z, p) (z, q)
      simpa [Prod.Lex.toLex_lt_toLex, hf, hg] using hpair
  · rintro ⟨h, h'⟩ ⟨p, p'⟩ ⟨q, q'⟩
    simp only [Prod.Lex.toLex_lt_toLex]
    obtain ⟨hlt, hgt⟩ := h p q
    obtain ⟨hlt', hgt'⟩ := h' p' q'
    have heq := h.eq_iff p q
    have heq' : f₂ q = f₁ p ↔ g₂ q = g₁ p := by rw [eq_comm, heq, eq_comm]
    rw [hlt, hgt, hlt', hgt', heq, heq']
    exact ⟨Iff.rfl, Iff.rfl⟩

end Subordination.Library
