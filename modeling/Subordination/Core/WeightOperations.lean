import Mathlib.Algebra.Order.Ring.Int
import Subordination.Core.WeightSums

/-!
# Operations on weights

A weight has five operators, each in a member form and in a free form, with numbers, weights, arrays and a
scalar on either side (`core/weights.hh`). All of them decide whether the result fits before they compute it,
and that of the product divides by the second factor.

## The model

The bodies of the member form and of the free form are the same, `WeightOp.compute`. Dividing by zero ends the
process, and is `none`.

## What is proved

* `weightOp_exact_iff` — all forms give the result as an integer, clamped to 32 bits, unless the second factor
  of a product is zero.
-/

namespace Subordination.Core

/-! ### Operators -/

/-- The operators of `basic_weight`. -/
inductive WeightOp where
  | add
  | sub
  | mul
  | div
  | mod
  deriving DecidableEq, Repr

namespace WeightOp

/-- `a / b` of the language. -/
def quotient (a b : UInt32) : Option UInt32 := if b = 0 then none else some (a / b)

/-- `a % b` of the language. -/
def remainder (a b : UInt32) : Option UInt32 := if b = 0 then none else some (a % b)

/-- The body of `operator+=` and `operator+`, and so on. -/
def compute : WeightOp → UInt32 → UInt32 → Option UInt32
  | .add, a, b => if a < Weight.max - b then some (a + b) else some Weight.max
  | .sub, a, b => if a > 0 + b then some (a - b) else some 0
  | .mul, a, b => do
    let q ← quotient Weight.max b
    let r ← remainder Weight.max b
    if a < q + (if r = 0 then 0 else 1) then some (a * b) else some Weight.max
  | .div, a, b => if b = 0 then some Weight.max else quotient a b
  | .mod, a, b => if b = 0 then some 0 else remainder a b

end WeightOp

namespace Weight

variable (op : WeightOp)

/-- The member operators with a number, `operator+=(T)`. -/
def assign (this : Weight) (b : UInt32) : Option Weight := (op.compute this.value b).map mk

/-- `SBN_INTERNAL_UNWRAP`: the member operators with a weight. -/
def assignWeight (this b : Weight) : Option Weight := this.assign op b.value

/-- The free operators, `operator+`. -/
def operate (a b : Weight) : Option Weight := (op.compute a.value b.value).map mk

/-- `SBN_INTERNAL_WRAP`: the free operators with a number on the right. -/
def operateRight (a : Weight) (b : UInt32) : Option Weight := operate op a ⟨b⟩

/-- `SBN_INTERNAL_WRAP`: the free operators with a number on the left. -/
def operateLeft (a : UInt32) (b : Weight) : Option Weight := operate op ⟨a⟩ b

end Weight

namespace WeightArray

variable (op : WeightOp)

/-- The member operators of arrays, one element after the other. -/
def assign (this rhs : WeightArray) : Option WeightArray := do
  let whole ← this.whole.assignWeight op rhs.whole
  let part ← this.part.assignWeight op rhs.part
  return ⟨whole, part⟩

/-- The member operators of arrays with a scalar. -/
def assignScalar (this : WeightArray) (rhs : Weight) : Option WeightArray := do
  let whole ← this.whole.assignWeight op rhs
  let part ← this.part.assignWeight op rhs
  return ⟨whole, part⟩

/-- The free operators of arrays. -/
def operate (a b : WeightArray) : Option WeightArray := do
  let whole ← Weight.operate op a.whole b.whole
  let part ← Weight.operate op a.part b.part
  return ⟨whole, part⟩

/-- The free operators of arrays with a scalar on the right. -/
def operateRight (a : WeightArray) (b : Weight) : Option WeightArray := do
  let whole ← Weight.operate op a.whole b
  let part ← Weight.operate op a.part b
  return ⟨whole, part⟩

/-- The free operators of arrays with a scalar on the left. -/
def operateLeft (a : Weight) (b : WeightArray) : Option WeightArray := do
  let whole ← Weight.operate op a b.whole
  let part ← Weight.operate op a b.part
  return ⟨whole, part⟩

end WeightArray

/-! ### What the operators are for -/

namespace WeightOp

/-- The result as an integer; a quotient by zero is the greatest weight, and a remainder by zero is zero. -/
def exact : WeightOp → ℤ → ℤ → ℤ
  | .add, a, b => a + b
  | .sub, a, b => a - b
  | .mul, a, b => a * b
  | .div, a, b => if b = 0 then 2 ^ 32 - 1 else a / b
  | .mod, a, b => if b = 0 then 0 else a % b

/-- The nearest integer that a weight can hold. -/
def clamp (z : ℤ) : ℤ := max 0 (min z (2 ^ 32 - 1))

/-- The result of an operator, clamped. -/
def clamped (op : WeightOp) (a b : Weight) : ℤ := clamp (op.exact a.toNat b.toNat)

/-- The operator on two weights gives what it is for in every form. -/
def Exact (op : WeightOp) (a b : Weight) : Prop :=
  ∀ r ∈ [a.assign op b.value, a.assignWeight op b, Weight.operate op a b, Weight.operateRight op a b.value,
    Weight.operateLeft op a.value b], r.map (fun w => (w.toNat : ℤ)) = some (op.clamped a b)

/-- The operator on two arrays gives what it is for on their elements, in the member form and in the free form. -/
def ExactArrays (op : WeightOp) (a b : WeightArray) : Prop :=
  ∀ r ∈ [a.assign op b, WeightArray.operate op a b], r.map (fun w => ((w.whole.toNat : ℤ), (w.part.toNat : ℤ))) =
    some (op.clamped a.whole b.whole, op.clamped a.part b.part)

/-- The same for an array and a scalar. -/
def ExactRight (op : WeightOp) (a : WeightArray) (b : Weight) : Prop :=
  ∀ r ∈ [a.assignScalar op b, WeightArray.operateRight op a b],
    r.map (fun w => ((w.whole.toNat : ℤ), (w.part.toNat : ℤ))) =
      some (op.clamped a.whole b, op.clamped a.part b)

/-- The same for a scalar and an array. -/
def ExactLeft (op : WeightOp) (a : Weight) (b : WeightArray) : Prop :=
  (WeightArray.operateLeft op a b).map (fun w => ((w.whole.toNat : ℤ), (w.part.toNat : ℤ))) =
    some (op.clamped a b.whole, op.clamped a b.part)

/-- The operator divides by its second argument without looking at it, and that is zero. -/
def DividesByZero (op : WeightOp) (b : Weight) : Prop := op = .mul ∧ b.value = 0

instance (op : WeightOp) (b : Weight) : Decidable (op.DividesByZero b) := inferInstanceAs (Decidable (_ ∧ _))

/-! ### One pair of weights -/

variable {op : WeightOp} {a b : Weight}

theorem compute_of_dividesByZero (h : op.DividesByZero b) : op.compute a.value b.value = none := by
  obtain ⟨rfl, hb⟩ := h
  rw [hb]
  rfl

theorem value_eq_zero_iff : b.value = 0 ↔ (b.toNat : ℤ) = 0 := by
  rw [← UInt32.toNat_inj]
  exact Int.natCast_eq_zero.symm

/-- The operations of weights. -/
def operation : WeightOp → Weight → Weight → Weight
  | .add => Weight.add
  | .sub => Weight.sub
  | .mul => Weight.mul
  | .div => Weight.div
  | .mod => Weight.mod

theorem map_ite {c : Prop} [Decidable c] (x y : UInt32) :
    (if c then some x else some y).map Weight.mk = some (if c then ⟨x⟩ else ⟨y⟩) := by
  split <;> rfl

/-- The body of an operator computes the operation. -/
theorem compute_eq (h : ¬ op.DividesByZero b) :
    (op.compute a.value b.value).map Weight.mk = some (op.operation a b) := by
  cases op with
  | add =>
    simp only [compute, operation, Weight.add]
    exact map_ite _ _
  | sub =>
    simp only [compute, operation, Weight.sub, UInt32.zero_add]
    exact map_ite _ _
  | mul =>
    have hb : b.value ≠ 0 := fun hb => h ⟨rfl, hb⟩
    simp only [compute, quotient, remainder, if_neg hb, Option.bind_eq_bind, Option.bind_some,
      operation, Weight.mul]
    exact map_ite _ _
  | div =>
    simp only [compute, quotient, operation, Weight.div]
    split <;> rfl
  | mod =>
    simp only [compute, remainder, operation, Weight.mod]
    split <;> rfl

theorem clamp_natCast {n : ℕ} : clamp n = (min n Weight.max.toNat : ℕ) := by
  have hmax : Weight.max.toNat = 2 ^ 32 - 1 := rfl
  unfold clamp
  omega

theorem clamp_of_le {n : ℕ} (h : n ≤ Weight.max.toNat) : clamp n = n := by
  rw [clamp_natCast, Nat.min_eq_left h]

theorem map_compute (h : ¬ op.DividesByZero b) :
    ((op.compute a.value b.value).map Weight.mk).map (fun w => (w.toNat : ℤ)) = some (op.clamped a b) := by
  have hmax : Weight.max.toNat = 2 ^ 32 - 1 := rfl
  have ha : a.toNat ≤ Weight.max.toNat := a.toNat_le_max
  rw [compute_eq h]
  refine congrArg some ?_
  unfold clamped
  cases op with
  | add => exact (congrArg Nat.cast (Weight.toNat_add a b)).trans clamp_natCast.symm
  | sub =>
    have hsub : (sub.operation a b).toNat = a.toNat - b.toNat := Weight.toNat_sub a b
    simp only [exact, clamp]
    omega
  | mul =>
    have hb : b.value ≠ 0 := fun hb => h ⟨rfl, hb⟩
    refine (congrArg Nat.cast (Weight.toNat_mul hb)).trans (clamp_natCast.symm.trans ?_)
    rw [Nat.cast_mul]
    rfl
  | div =>
    simp only [exact, operation, Weight.div]
    by_cases hb : b.value = 0
    · rw [if_pos hb, if_pos (value_eq_zero_iff.mp hb)]
      rfl
    · rw [if_neg hb, if_neg (mt value_eq_zero_iff.mpr hb)]
      change ((a.value / b.value).toNat : ℤ) = clamp ((a.toNat / b.toNat : ℕ) : ℤ)
      rw [clamp_of_le ((Nat.div_le_self _ _).trans ha), UInt32.toNat_div]
      rfl
  | mod =>
    simp only [exact, operation, Weight.mod]
    by_cases hb : b.value = 0
    · rw [if_pos hb, if_pos (value_eq_zero_iff.mp hb)]
      rfl
    · rw [if_neg hb, if_neg (mt value_eq_zero_iff.mpr hb)]
      change ((a.value % b.value).toNat : ℤ) = clamp ((a.toNat % b.toNat : ℕ) : ℤ)
      rw [clamp_of_le ((Nat.mod_le _ _).trans ha), UInt32.toNat_mod]
      rfl

theorem map_compute_iff :
    ((op.compute a.value b.value).map Weight.mk).map (fun w => (w.toNat : ℤ)) = some (op.clamped a b) ↔
      ¬ op.DividesByZero b := by
  refine ⟨fun h hzero => ?_, map_compute⟩
  rw [compute_of_dividesByZero hzero] at h
  cases h

/-! ### All forms -/

/-- The forms of an operator on two weights are one. -/
theorem exact_iff : op.Exact a b ↔ ¬ op.DividesByZero b := by
  have hforms : ∀ r ∈ [a.assign op b.value, a.assignWeight op b, Weight.operate op a b,
      Weight.operateRight op a b.value, Weight.operateLeft op a.value b],
      r = (op.compute a.value b.value).map Weight.mk := by
    simp only [List.forall_mem_cons, List.not_mem_nil, false_imp_iff, implies_true, and_true]
    exact ⟨rfl, rfl, rfl, rfl, rfl⟩
  refine ⟨fun h => map_compute_iff.mp (h _ List.mem_cons_self), fun h r hr => ?_⟩
  rw [hforms r hr]
  exact map_compute h

/-- The elements of an array are computed one after the other. -/
theorem map_elements_iff {x y : Option Weight} {u v : ℤ} :
    ((do
      let whole ← x
      let part ← y
      return (⟨whole, part⟩ : WeightArray)) : Option WeightArray).map
        (fun w => ((w.whole.toNat : ℤ), (w.part.toNat : ℤ))) = some (u, v) ↔
      x.map (fun w => (w.toNat : ℤ)) = some u ∧ y.map (fun w => (w.toNat : ℤ)) = some v := by
  cases x with
  | none => simp
  | some w =>
    cases y with
    | none => simp
    | some z => simp

variable {as bs : WeightArray}

theorem exactArrays_iff : op.ExactArrays as bs ↔ ¬ op.DividesByZero bs.whole ∧ ¬ op.DividesByZero bs.part := by
  rw [← map_compute_iff (a := as.whole), ← map_compute_iff (a := as.part), ← map_elements_iff]
  refine ⟨fun h => h _ List.mem_cons_self, fun h r hr => ?_⟩
  have hforms : r = as.assign op bs := by
    simp only [List.mem_cons, List.not_mem_nil, or_false] at hr
    rcases hr with rfl | rfl
    · rfl
    · rfl
  rw [hforms]
  exact h

/-- A scalar acts as an array of which both elements are the scalar. -/
theorem exactRight_iff : op.ExactRight as b ↔ ¬ op.DividesByZero b := by
  have harrays : op.ExactRight as b ↔ op.ExactArrays as ⟨b, b⟩ := Iff.rfl
  rw [harrays, exactArrays_iff, and_self_iff]

theorem exactLeft_iff : op.ExactLeft a bs ↔ ¬ op.DividesByZero bs.whole ∧ ¬ op.DividesByZero bs.part :=
  map_elements_iff.trans (and_congr map_compute_iff map_compute_iff)

end WeightOp

/-- **All operators are exact in all forms** but for a product whose second factor is zero: that divides by it. -/
theorem weightOp_exact_iff (op : WeightOp) (a b : Weight) (as bs : WeightArray) :
    (op.Exact a b ↔ ¬ op.DividesByZero b) ∧
      (op.ExactArrays as bs ↔ ¬ op.DividesByZero bs.whole ∧ ¬ op.DividesByZero bs.part) ∧
      (op.ExactRight as b ↔ ¬ op.DividesByZero b) ∧
      (op.ExactLeft a bs ↔ ¬ op.DividesByZero bs.whole ∧ ¬ op.DividesByZero bs.part) :=
  ⟨WeightOp.exact_iff, WeightOp.exactArrays_iff, WeightOp.exactRight_iff, WeightOp.exactLeft_iff⟩

/-- Five times nothing ends the process. -/
theorem weightOp_times_zero : ¬ ∀ (op : WeightOp) (a b : Weight) (as bs : WeightArray),
    op.Exact a b ∧ op.ExactArrays as bs ∧ op.ExactRight as b ∧ op.ExactLeft a bs := fun h =>
  absurd (h .mul ⟨5⟩ ⟨0⟩ {} {}).1 fun hexact =>
    absurd (hexact _ List.mem_cons_self) (by decide)

/-- A product that is the greatest weight, and one that is greater by one. -/
example : Weight.operate .mul ⟨65535⟩ ⟨65537⟩ = some ⟨0xFFFFFFFF⟩ ∧
    Weight.operate .mul ⟨65536⟩ ⟨65536⟩ = some ⟨0xFFFFFFFF⟩ := by decide

end Subordination.Core
