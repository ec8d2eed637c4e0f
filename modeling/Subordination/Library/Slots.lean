import Mathlib.Data.List.Range
import Mathlib.Data.List.Nodup
import Mathlib.Data.List.Perm.Subperm
import Mathlib.Logic.Function.Basic

/-!
# Slots

A table of slots has at most one holder in a slot. Those who need a slot must not lose it when another
one is given theirs, or when a slot is erased. Holders are numbered as they come, and the last of some of
them is the one that has come last.
-/

namespace Subordination.Library

/-! ### The lowest free number -/

/-- The lowest number that is not taken. -/
def lowestFree (taken : List ℕ) : ℕ :=
  ((List.range (taken.length + 1)).find? (· ∉ taken)).getD 0

/-- **The lowest free number is free.** -/
theorem lowestFree_notMem (taken : List ℕ) : lowestFree taken ∉ taken := by
  unfold lowestFree
  cases h : (List.range (taken.length + 1)).find? (· ∉ taken) with
  | some n => simpa using List.find?_some h
  | none =>
    -- there are more numbers in the range than numbers that are taken
    have hsub : List.range (taken.length + 1) ⊆ taken := by
      intro n hn
      simpa using List.find?_eq_none.1 h n hn
    have := (List.nodup_range.subperm hsub).length_le
    rw [List.length_range] at this
    omega

/-! ### The last number -/

section Last

variable {q q' : ℕ → Prop} [DecidablePred q] [DecidablePred q'] {m n : ℕ}

/-- The last number below `n` that `q` holds of. -/
def lastBelow (q : ℕ → Prop) [DecidablePred q] : ℕ → Option ℕ
  | 0 => none
  | n + 1 => if q n then some n else lastBelow q n

theorem lastBelow_eq_some_iff : lastBelow q n = some m ↔ m < n ∧ q m ∧ ∀ k < n, q k → k ≤ m := by
  induction n with
  | zero => simp [lastBelow]
  | succ n ih =>
    rw [lastBelow]
    by_cases hn : q n
    · rw [if_pos hn, Option.some.injEq]
      constructor
      · rintro rfl
        exact ⟨Nat.lt_succ_self n, hn, fun k hk _ => Nat.le_of_lt_succ hk⟩
      · rintro ⟨hm, -, hlast⟩
        exact Nat.le_antisymm (hlast n (Nat.lt_succ_self n) hn) (Nat.le_of_lt_succ hm)
    · rw [if_neg hn, ih]
      have hne : ∀ k, q k → k ≠ n := fun k hk e => hn (e ▸ hk)
      constructor
      · rintro ⟨hm, hq, hlast⟩
        exact ⟨hm.trans (Nat.lt_succ_self n), hq, fun k hk hqk =>
          hlast k (Nat.lt_of_le_of_ne (Nat.le_of_lt_succ hk) (hne k hqk)) hqk⟩
      · rintro ⟨hm, hq, hlast⟩
        exact ⟨Nat.lt_of_le_of_ne (Nat.le_of_lt_succ hm) (hne m hq), hq, fun k hk hqk =>
          hlast k (hk.trans (Nat.lt_succ_self n)) hqk⟩

theorem lastBelow_congr (h : ∀ k < n, q k ↔ q' k) : lastBelow q n = lastBelow q' n := by
  induction n with
  | zero => rfl
  | succ n ih =>
    rw [lastBelow, lastBelow, ih fun k hk => h k (hk.trans (Nat.lt_succ_self n))]
    simp only [h n (Nat.lt_succ_self n)]

end Last

/-! ### Holders -/

variable {ι ρ : Type*} {t : ι → Option ρ} {live live' : ρ → Prop} {i : ι} {r : ρ}

/-- Everyone who needs a slot has one. -/
def Occupied (live : ρ → Prop) (t : ι → Option ρ) : Prop :=
  ∀ r, live r → ∃ i, t i = some r

/-- Nobody has two slots. -/
def Single (t : ι → Option ρ) : Prop :=
  ∀ i j r, t i = some r → t j = some r → i = j

/-- Fewer may need a slot. -/
theorem Occupied.mono (h : Occupied live t) (hl : ∀ r, live' r → live r) : Occupied live' t :=
  fun r hr => h r (hl r hr)

variable [DecidableEq ι]

/-- The slot of one who does not need it can be erased. -/
theorem Occupied.erase (h : Occupied live t) (hl : ∀ r, t i = some r → ¬ live r) :
    Occupied live (Function.update t i none) := by
  intro r hr
  obtain ⟨j, hj⟩ := h r hr
  have : j ≠ i := fun e => hl r (e ▸ hj) hr
  exact ⟨j, by simpa [this] using hj⟩

/-- A slot can be given to one who needs it if no other one needs it. -/
theorem Occupied.emplace (h : Occupied live t) (hl : ∀ r', live' r' → r' = r ∨ live r' ∧ t i ≠ some r') :
    Occupied live' (Function.update t i (some r)) := by
  intro r' hr'
  rcases hl r' hr' with rfl | ⟨hlive, hi⟩
  · exact ⟨i, by simp⟩
  · obtain ⟨j, hj⟩ := h r' hlive
    have : j ≠ i := fun e => hi (e ▸ hj)
    exact ⟨j, by simpa [this] using hj⟩

/-- One whose slot is erased, or given to another one, has none. -/
theorem Single.update_ne {x : Option ρ} (hs : Single t) (hi : t i = some r) (hx : x ≠ some r) (j : ι) :
    Function.update t i x j ≠ some r := by
  rw [Function.update_apply]
  split
  · exact hx
  · next hne => exact fun hj => hne (hs j i r hj hi)

/-- Nobody gets a second slot when one is erased. -/
theorem Single.erase (hs : Single t) (i : ι) : Single (Function.update t i none) := by
  intro j k r hj hk
  rw [Function.update_apply] at hj hk
  split at hj
  · cases hj
  · split at hk
    · cases hk
    · exact hs j k r hj hk

/-- Nobody has two slots if one who has none is given one. -/
theorem Single.emplace (hs : Single t) (hr : ∀ j, t j ≠ some r) (i : ι) :
    Single (Function.update t i (some r)) := by
  intro j k r' hj hk
  rw [Function.update_apply] at hj hk
  split at hj <;> split at hk
  case isTrue.isTrue hji hki => exact hji.trans hki.symm
  case isTrue.isFalse => exact absurd (hk.trans hj.symm) (hr k)
  case isFalse.isTrue => exact absurd (hj.trans hk.symm) (hr j)
  case isFalse.isFalse => exact hs j k r' hj hk

end Subordination.Library
