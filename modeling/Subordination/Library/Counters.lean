import Mathlib.Algebra.BigOperators.Group.List.Basic
import Mathlib.Algebra.GroupWithZero.Nat
import Mathlib.Algebra.Order.Group.Nat

/-!
# Counters that saturate

A counter to which amounts are added and from which they are taken: a sum that is too great is the
greatest value, and a difference below zero is zero. As long as nothing is cut, the counter is the sum of
the amounts that have been added and not been taken.
-/

namespace Subordination.Library

universe u

/-- A counter, with what its operations do to its value. -/
structure Counter (κ : Type u) where
  /-- The greatest value. -/
  max : ℕ
  /-- The value. -/
  value : κ → ℕ
  /-- Add an amount. -/
  add : κ → κ → κ
  /-- Take an amount. -/
  sub : κ → κ → κ
  /-- A sum that is too great is the greatest value. -/
  value_add (a b : κ) : value (add a b) = min (value a + value b) max
  /-- A difference below zero is zero. -/
  value_sub (a b : κ) : value (sub a b) = value a - value b

namespace Counter

variable {κ : Type u} {C : Counter κ} {c x : κ} {xs ys : List κ}

/-- The sum of the amounts. -/
def sum (C : Counter κ) (xs : List κ) : ℕ := (xs.map C.value).sum

/-- The counter is the sum of the amounts. -/
def Tracks (C : Counter κ) (c : κ) (xs : List κ) : Prop := C.value c = C.sum xs

@[simp] theorem sum_nil : C.sum [] = 0 := rfl

@[simp] theorem sum_append (xs ys : List κ) : C.sum (xs ++ ys) = C.sum xs + C.sum ys := by
  unfold sum
  rw [List.map_append, List.sum_append]

@[simp] theorem sum_cons (x : κ) (xs : List κ) : C.sum (x :: xs) = C.value x + C.sum xs := by
  unfold sum
  rw [List.map_cons, List.sum_cons]

/-- An amount that is added is counted, unless the sum is too great. -/
theorem Tracks.add (h : C.Tracks c xs) (hfits : C.sum (xs ++ [x]) ≤ C.max) :
    C.Tracks (C.add c x) (xs ++ [x]) := by
  unfold Tracks at h ⊢
  simp only [sum_append, sum_cons, sum_nil] at hfits ⊢
  rw [C.value_add, h]
  omega

/-- An amount that is taken is no longer counted. -/
theorem Tracks.sub (h : C.Tracks c (xs ++ x :: ys)) : C.Tracks (C.sub c x) (xs ++ ys) := by
  unfold Tracks at h ⊢
  simp only [sum_append, sum_cons] at h ⊢
  rw [C.value_sub, h]
  omega

/-- What is taken changes nothing if and only if it is nothing, or there is nothing to take it from. -/
theorem value_sub_eq_iff : C.value (C.sub c x) = C.value c ↔ C.value x = 0 ∨ C.value c = 0 := by
  rw [C.value_sub]
  omega

/-- An amount that has not been counted can be taken if and only if that changes nothing. -/
theorem Tracks.sub_iff (h : C.Tracks c xs) : C.Tracks (C.sub c x) xs ↔ C.value x = 0 ∨ C.value c = 0 := by
  rw [← value_sub_eq_iff]
  unfold Tracks at h ⊢
  rw [h]

/-- An amount that has not been added is counted if and only if it is nothing. -/
theorem Tracks.append_iff (h : C.Tracks c xs) : C.Tracks c (xs ++ [x]) ↔ C.value x = 0 := by
  unfold Tracks at h ⊢
  simp only [sum_append, sum_cons, sum_nil, h]
  omega

/-- An amount that has been added is not counted any more if and only if it is nothing. -/
theorem Tracks.erase_iff (h : C.Tracks c (xs ++ x :: ys)) : C.Tracks c (xs ++ ys) ↔ C.value x = 0 := by
  unfold Tracks at h ⊢
  simp only [sum_append, sum_cons, h]
  omega

/-- What many amounts add up to. -/
theorem value_foldl (hc : C.value c ≤ C.max) (xs : List κ) :
    C.value (xs.foldl C.add c) = min (C.value c + C.sum xs) C.max := by
  induction xs generalizing c with
  | nil => simp [hc]
  | cons x xs ih =>
    have hstep := C.value_add c x
    rw [List.foldl_cons, ih (by omega), hstep, sum_cons]
    omega

/-- The order of the amounts makes no difference to their sum. -/
theorem sum_perm (h : xs.Perm ys) : C.sum xs = C.sum ys := (h.map C.value).sum_eq

end Counter

end Subordination.Library
