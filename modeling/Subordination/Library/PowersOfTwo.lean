import Mathlib.Data.Nat.Find
import Mathlib.Data.Nat.Prime.Basic

/-!
# Powers of two in words

How often two divides a number, as far as a word of `w` bits can tell. Reducing modulo `2 ^ w` does not
change it, so it can be told of negations, of products and of most sums without calculating them.

## What is proved

* `twos_mod`, `twos_sub` — what is left of a number in a word, and of its negation.
* `twos_mul` — two divides a product as often as the factors together.
* `twos_add` — two divides a sum as often as the argument that it divides less often.
* `twos_lt_iff` — a word is not zero if and only if two divides it less than `w` times.
-/

namespace Subordination.Library

section PowersOfTwo

/-- How often two divides the number, up to `w` times. -/
def twos (w n : ℕ) : ℕ := Nat.findGreatest (fun k => 2 ^ k ∣ n) w

variable {w m n k : ℕ}

theorem twos_le : twos w n ≤ w := Nat.findGreatest_le w

theorem pow_dvd_iff_le_twos (hk : k ≤ w) : 2 ^ k ∣ n ↔ k ≤ twos w n := by
  constructor
  · exact fun h => Nat.le_findGreatest hk h
  · intro h
    have hone : 2 ^ 0 ∣ n := one_dvd n
    have hspec : 2 ^ twos w n ∣ n := @Nat.findGreatest_spec 0 (fun k => 2 ^ k ∣ n) _ w (Nat.zero_le w) hone
    exact (pow_dvd_pow 2 h).trans hspec

theorem eq_twos {t : ℕ} (ht : t ≤ w) (h : ∀ k ≤ w, 2 ^ k ∣ n ↔ k ≤ t) : twos w n = t :=
  le_antisymm ((h _ twos_le).mp ((pow_dvd_iff_le_twos twos_le).mpr le_rfl))
    ((pow_dvd_iff_le_twos ht).mp ((h t ht).mpr le_rfl))

/-- Two divides zero as often as can be. -/
theorem twos_zero : twos w 0 = w := eq_twos le_rfl fun k hk => iff_of_true (dvd_zero (2 ^ k)) hk

/-- **Not zero.** -/
theorem twos_lt_iff (hn : n < 2 ^ w) : twos w n < w ↔ n ≠ 0 := by
  rw [← not_le, ← pow_dvd_iff_le_twos le_rfl]
  constructor
  · rintro hdvd rfl
    exact hdvd (dvd_zero _)
  · intro hne hdvd
    exact absurd (Nat.le_of_dvd (Nat.pos_of_ne_zero hne) hdvd) (not_le.mpr hn)

/-- A word holds the number modulo `2 ^ w`. -/
theorem twos_mod : twos w (n % 2 ^ w) = twos w n :=
  eq_twos twos_le fun _ hk => (Nat.dvd_mod_iff (pow_dvd_pow 2 hk)).trans (pow_dvd_iff_le_twos hk)

/-- The negation of a word. -/
theorem twos_sub (hn : n ≤ 2 ^ w) : twos w (2 ^ w - n) = twos w n :=
  eq_twos twos_le fun _ hk =>
    (Nat.dvd_sub_iff_right hn (pow_dvd_pow 2 hk)).trans (pow_dvd_iff_le_twos hk)

/-- **A product.** -/
theorem twos_mul : twos w (m * n) = min w (twos w m + twos w n) := by
  refine eq_twos (min_le_left _ _) fun k hk => ?_
  rw [Nat.le_min, and_iff_right hk]
  constructor
  · intro hdvd
    obtain ⟨x, y, hx, hy, hxy⟩ := (Nat.dvd_mul).mp hdvd
    obtain ⟨i, hi, rfl⟩ := (Nat.dvd_prime_pow Nat.prime_two).mp (Dvd.intro y hxy)
    obtain ⟨j, hj, rfl⟩ := (Nat.dvd_prime_pow Nat.prime_two).mp (Dvd.intro_left (2 ^ i) hxy)
    rw [← pow_add] at hxy
    have hsum : i + j = k := Nat.pow_right_injective le_rfl hxy
    have hi' := (pow_dvd_iff_le_twos (hi.trans hk)).mp hx
    have hj' := (pow_dvd_iff_le_twos (hj.trans hk)).mp hy
    omega
  · intro hle
    -- the first factor gives as much as it can
    obtain ⟨i, j, hi, hj, rfl⟩ : ∃ i j, i ≤ twos w m ∧ j ≤ twos w n ∧ k = i + j :=
      ⟨min k (twos w m), k - min k (twos w m), by omega, by omega, by omega⟩
    have hm := (pow_dvd_iff_le_twos (hi.trans twos_le)).mpr hi
    have hn := (pow_dvd_iff_le_twos (hj.trans twos_le)).mpr hj
    rw [pow_add]
    exact mul_dvd_mul hm hn

/-- If two divides the first argument less often, the sum is like it. -/
theorem twos_add_of_lt (h : twos w m < twos w n) : twos w (m + n) = twos w m := by
  refine eq_twos twos_le fun k hk => ?_
  rw [← pow_dvd_iff_le_twos hk]
  by_cases hle : k ≤ twos w n
  · exact (Nat.dvd_add_iff_left ((pow_dvd_iff_le_twos hk).mpr hle)).symm
  · -- one more power of two would divide the sum, and so the first argument
    have hsucc : twos w m + 1 ≤ w := Nat.succ_le_of_lt (h.trans_le twos_le)
    have hn : 2 ^ (twos w m + 1) ∣ n := (pow_dvd_iff_le_twos hsucc).mpr h
    have hless : 2 ^ (twos w m + 1) ∣ 2 ^ k := pow_dvd_pow 2 (by omega)
    have hm : ¬ 2 ^ (twos w m + 1) ∣ m := fun hdvd =>
      absurd ((pow_dvd_iff_le_twos hsucc).mp hdvd) (Nat.not_succ_le_self _)
    exact iff_of_false (fun hdvd => hm ((Nat.dvd_add_iff_left hn).mpr (hless.trans hdvd)))
      fun hdvd => hm (hless.trans hdvd)

/-- **A sum** of numbers that two divides differently often. -/
theorem twos_add (h : twos w m ≠ twos w n) : twos w (m + n) = min (twos w m) (twos w n) := by
  rcases lt_or_gt_of_ne h with hlt | hgt
  · rw [twos_add_of_lt hlt, min_eq_left hlt.le]
  · rw [add_comm, twos_add_of_lt hgt, min_eq_right hgt.le]

end PowersOfTwo

end Subordination.Library
