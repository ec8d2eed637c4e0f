import Mathlib.Algebra.Order.Group.Nat
import Mathlib.Data.List.Perm.Basic
import Subordination.Core.Weights
import Subordination.Library.Counters

/-!
# Sums of weights

Weights are counters that saturate (`core/weights.hh`). A load is the sum of the weights that have been
added to it and have not been taken away, as long as that sum fits.

## What is proved

* `WeightArray.Tracks.add`, `Tracks.sub` — a load goes on being the sum of its weights.
* `WeightArray.Tracks.sub_iff`, `append_iff`, `erase_iff` — when it is no longer.
* `WeightArray.total_perm`, `total_cons` — the sum of the weights of a list.
-/

namespace Subordination.Core

open Library

/-! ### Weights as counters -/

namespace Weight

/-- The number behind a weight. -/
def toNat (w : Weight) : ℕ := w.value.toNat

theorem toNat_add (a b : Weight) : (a.add b).toNat = min (a.toNat + b.toNat) max.toNat := by
  have hmax : max.toNat = 2 ^ 32 - 1 := rfl
  have hb : b.value.toNat < 2 ^ 32 := b.value.toNat_lt
  have hle : b.value ≤ max := by
    rw [UInt32.le_iff_toNat_le, hmax]
    omega
  have hdifference : (max - b.value).toNat = max.toNat - b.value.toNat := UInt32.toNat_sub_of_le _ _ hle
  unfold add
  split
  · rename_i h
    have hlt : a.value.toNat < max.toNat - b.value.toNat := hdifference ▸ UInt32.lt_iff_toNat_lt.mp h
    change (a.value + b.value).toNat = min (a.value.toNat + b.value.toNat) max.toNat
    rw [UInt32.toNat_add, Nat.mod_eq_of_lt (by omega)]
    omega
  · rename_i h
    have hge : max.toNat - b.value.toNat ≤ a.value.toNat :=
      hdifference ▸ UInt32.le_iff_toNat_le.mp (UInt32.not_lt.mp h)
    change max.toNat = min (a.value.toNat + b.value.toNat) max.toNat
    omega

theorem toNat_sub (a b : Weight) : (a.sub b).toNat = a.toNat - b.toNat := by
  unfold sub
  split
  · rename_i h
    exact UInt32.toNat_sub_of_le _ _ (UInt32.le_of_lt h)
  · rename_i h
    have hle : a.value.toNat ≤ b.value.toNat := UInt32.le_iff_toNat_le.mp (UInt32.not_lt.mp h)
    exact (Nat.sub_eq_zero_of_le hle).symm

/-- The counter of a weight. -/
def counter : Counter Weight where
  max := max.toNat
  value := toNat
  add := add
  sub := sub
  value_add := toNat_add
  value_sub := toNat_sub

/-! ### Weights that are added and compared -/

theorem eq_of_toNat {v w : Weight} (h : v.toNat = w.toNat) : v = w := by
  obtain ⟨a⟩ := v
  obtain ⟨b⟩ := w
  have hab : a = b := UInt32.toNat_inj.mp h
  rw [hab]

theorem toNat_le_max (w : Weight) : w.toNat ≤ max.toNat := by
  have hlt : w.value.toNat < 2 ^ 32 := w.value.toNat_lt
  have hmax : max.toNat = 2 ^ 32 - 1 := rfl
  unfold toNat
  omega

theorem toNat_zero : toNat ⟨0⟩ = 0 := rfl

theorem add_comm (v w : Weight) : v.add w = w.add v := by
  refine eq_of_toNat ?_
  rw [toNat_add, toNat_add, Nat.add_comm]

theorem add_assoc (u v w : Weight) : u.add (v.add w) = (u.add v).add w := by
  refine eq_of_toNat ?_
  simp only [toNat_add]
  omega

theorem add_zero (w : Weight) : w.add ⟨0⟩ = w := by
  have hmax := w.toNat_le_max
  refine eq_of_toNat ?_
  rw [toNat_add, toNat_zero]
  omega

theorem zero_sub (w : Weight) : sub ⟨0⟩ w = ⟨0⟩ := by
  refine eq_of_toNat ?_
  rw [toNat_sub, toNat_zero]
  omega

theorem add_eq_zero {v w : Weight} (h : v.add w = ⟨0⟩) : v = ⟨0⟩ ∧ w = ⟨0⟩ := by
  have hmax : max.toNat = 2 ^ 32 - 1 := rfl
  have hsum : (v.add w).toNat = 0 := by rw [h, toNat_zero]
  rw [toNat_add] at hsum
  exact ⟨eq_of_toNat (by rw [toNat_zero]; omega), eq_of_toNat (by rw [toNat_zero]; omega)⟩

theorem toNat_add_le_add {u v : Weight} (h : u.toNat ≤ v.toNat) (w : Weight) :
    (u.add w).toNat ≤ (v.add w).toNat := by
  rw [toNat_add, toNat_add]
  omega

theorem toNat_le_add (v w : Weight) : v.toNat ≤ (v.add w).toNat := by
  have hmax := v.toNat_le_max
  rw [toNat_add]
  omega

theorem toNat_sub_le (v w : Weight) : (v.sub w).toNat ≤ v.toNat := by
  rw [toNat_sub]
  exact Nat.sub_le _ _

/-! ### Weights that are multiplied -/

/-- The quotient of the greatest value, rounded up. -/
theorem toNat_ceil {b : UInt32} (hb : 0 < b.toNat) :
    (max / b + if max % b = 0 then 0 else 1).toNat =
      max.toNat / b.toNat + if max.toNat % b.toNat = 0 then 0 else 1 := by
  have hremainder : max % b = 0 ↔ max.toNat % b.toNat = 0 := by
    rw [← UInt32.toNat_mod, ← UInt32.toNat_inj]
    rfl
  by_cases hzero : max.toNat % b.toNat = 0
  · rw [if_pos (hremainder.mpr hzero), if_pos hzero, UInt32.add_zero, UInt32.toNat_div, Nat.add_zero]
  · -- there are at least two parts, so there is room for one more
    have htwo : 2 ≤ b.toNat := by
      by_contra hlt
      have hone : b.toNat = 1 := by omega
      exact hzero (by rw [hone, Nat.mod_one])
    have hhalf : max.toNat / b.toNat ≤ max.toNat / 2 := Nat.div_le_div_left htwo (by decide)
    have hmax : max.toNat = 2 ^ 32 - 1 := rfl
    rw [if_neg fun h => hzero (hremainder.mp h), if_neg hzero, UInt32.toNat_add, UInt32.toNat_div]
    change (max.toNat / b.toNat + 1) % 2 ^ 32 = max.toNat / b.toNat + 1
    exact Nat.mod_eq_of_lt (by omega)

theorem toNat_mul {a b : Weight} (hb : b.value ≠ 0) :
    (a.mul b).toNat = min (a.toNat * b.toNat) max.toNat := by
  have hmax : max.toNat = 2 ^ 32 - 1 := rfl
  have hpos : 0 < b.value.toNat := Nat.pos_iff_ne_zero.mpr fun h => hb (UInt32.toNat_inj.mp h)
  have hdivision : b.value.toNat * (max.toNat / b.value.toNat) + max.toNat % b.value.toNat = max.toNat :=
    Nat.div_add_mod _ _
  have hlt : max.toNat % b.value.toNat < b.value.toNat := Nat.mod_lt _ hpos
  have hceil := toNat_ceil hpos
  unfold mul
  by_cases hfits : a.value < max / b.value + if max % b.value = 0 then 0 else 1
  · have hquotient : a.value.toNat ≤ max.toNat / b.value.toNat := by
      have hnat := UInt32.lt_iff_toNat_lt.mp hfits
      rw [hceil] at hnat
      split at hnat <;> omega
    have hproduct : a.value.toNat * b.value.toNat ≤ max.toNat :=
      (Nat.le_div_iff_mul_le hpos).mp hquotient
    rw [if_pos hfits]
    change (a.value * b.value).toNat = min (a.value.toNat * b.value.toNat) max.toNat
    rw [UInt32.toNat_mul, Nat.mod_eq_of_lt (by omega)]
    omega
  · have hproduct : max.toNat ≤ a.value.toNat * b.value.toNat := by
      have hnat := UInt32.le_iff_toNat_le.mp (UInt32.not_lt.mp hfits)
      rw [hceil] at hnat
      have hmul := Nat.mul_le_mul_left b.value.toNat hnat
      rw [Nat.mul_add, Nat.mul_comm b.value.toNat a.value.toNat] at hmul
      split at hmul
      · omega
      · omega
    rw [if_neg hfits]
    change max.toNat = min (a.value.toNat * b.value.toNat) max.toNat
    omega

end Weight

namespace WeightArray

/-! ### Loads that are sums -/

/-- The whole nodes. -/
def wholes (ws : List WeightArray) : List Weight := ws.map whole

/-- The weights of all others. -/
def parts (ws : List WeightArray) : List Weight := ws.map part

/-- Each of the two sums fits in its counter. -/
def Fits (ws : List WeightArray) : Prop :=
  Weight.counter.sum (wholes ws) ≤ Weight.max.toNat ∧ Weight.counter.sum (parts ws) ≤ Weight.max.toNat

/-- Each of the two counters is the sum of its weights. -/
def Tracks (load : WeightArray) (ws : List WeightArray) : Prop :=
  Weight.counter.Tracks load.whole (wholes ws) ∧ Weight.counter.Tracks load.part (parts ws)

instance (load : WeightArray) (ws : List WeightArray) : Decidable (load.Tracks ws) :=
  inferInstanceAs (Decidable (_ = _ ∧ _ = _))

instance (ws : List WeightArray) : Decidable (Fits ws) := inferInstanceAs (Decidable (_ ≤ _ ∧ _ ≤ _))

/-- There is nothing in the load that the weights could be taken from. -/
def untouched (load w : WeightArray) : Bool :=
  (w.whole.value = 0 ∨ load.whole.value = 0) ∧ (w.part.value = 0 ∨ load.part.value = 0)

variable {load w : WeightArray} {ws before after : List WeightArray}

theorem tracks_nil : Tracks {} [] := ⟨rfl, rfl⟩

/-- A sum that is in the counters fits in them. -/
theorem Tracks.fits (h : load.Tracks ws) : Fits ws :=
  ⟨h.1 ▸ load.whole.toNat_le_max, h.2 ▸ load.part.toNat_le_max⟩

theorem Tracks.add (h : load.Tracks ws) (hfits : Fits (ws ++ [w])) : (load.add w).Tracks (ws ++ [w]) := by
  unfold Tracks Fits wholes parts at *
  rw [List.map_append, List.map_append] at *
  exact ⟨h.1.add hfits.1, h.2.add hfits.2⟩

theorem Tracks.sub (h : load.Tracks (before ++ w :: after)) : (load.sub w).Tracks (before ++ after) := by
  unfold Tracks wholes parts at *
  rw [List.map_append, List.map_append] at *
  exact ⟨h.1.sub, h.2.sub⟩

theorem Tracks.sub_iff (h : load.Tracks ws) : (load.sub w).Tracks ws ↔ load.untouched w = true := by
  have hzero : ∀ v : Weight, Weight.counter.value v = 0 ↔ v.value = 0 := fun v =>
    (UInt32.toNat_inj (a := v.value) (b := 0))
  unfold untouched
  rw [decide_eq_true_iff, ← hzero, ← hzero, ← hzero, ← hzero]
  exact and_congr h.1.sub_iff h.2.sub_iff

theorem eq_zero_iff : w = {} ↔ Weight.counter.value w.whole = 0 ∧ Weight.counter.value w.part = 0 := by
  have hzero : ∀ v : Weight, Weight.counter.value v = 0 ↔ v = ⟨0⟩ := fun v =>
    (UInt32.toNat_inj (a := v.value) (b := 0)).trans (Weight.mk.injEq v.value 0 ▸ Iff.rfl)
  rw [hzero, hzero]
  exact WeightArray.mk.injEq w.whole w.part ⟨0⟩ ⟨0⟩ ▸ Iff.rfl

/-- A weight that has not been added is counted if and only if it is nothing. -/
theorem Tracks.append_iff (h : load.Tracks ws) : load.Tracks (ws ++ [w]) ↔ w = {} := by
  unfold Tracks wholes parts at *
  rw [List.map_append, List.map_append, eq_zero_iff]
  exact and_congr h.1.append_iff h.2.append_iff

/-- A weight that has been added is not counted any more if and only if it is nothing. -/
theorem Tracks.erase_iff (h : load.Tracks (before ++ w :: after)) :
    load.Tracks (before ++ after) ↔ w = {} := by
  unfold Tracks wholes parts at *
  rw [List.map_append, List.map_append] at *
  rw [eq_zero_iff]
  exact and_congr h.1.erase_iff h.2.erase_iff

/-! ### The sum of a list -/

/-- Both of the numbers are at most those of the other. -/
instance : Preorder WeightArray where
  le v w := v.whole.toNat ≤ w.whole.toNat ∧ v.part.toNat ≤ w.part.toNat
  le_refl _ := ⟨le_rfl, le_rfl⟩
  le_trans _ _ _ huv hvw := ⟨huv.1.trans hvw.1, huv.2.trans hvw.2⟩

/-- The sum of the weights. -/
def total (ws : List WeightArray) : WeightArray := ws.foldl add {}

theorem total_toNat (ws : List WeightArray) :
    (total ws).whole.toNat = min (Weight.counter.sum (wholes ws)) Weight.max.toNat ∧
      (total ws).part.toNat = min (Weight.counter.sum (parts ws)) Weight.max.toNat := by
  have hfold : ∀ (ws : List WeightArray) (c : WeightArray), ws.foldl add c =
      ⟨(wholes ws).foldl Weight.counter.add c.whole, (parts ws).foldl Weight.counter.add c.part⟩ := by
    intro ws
    induction ws with
    | nil => exact fun c => rfl
    | cons w ws ih =>
      intro c
      rw [List.foldl_cons, ih]
      simp only [wholes, parts, List.map_cons, List.foldl_cons]
      rfl
  have hzero : Weight.counter.value ⟨0⟩ = 0 := rfl
  have hle : Weight.counter.value ⟨0⟩ ≤ Weight.counter.max := by
    rw [hzero]
    exact Nat.zero_le _
  have hwhole := Weight.counter.value_foldl hle (wholes ws)
  have hpart := Weight.counter.value_foldl hle (parts ws)
  simp only [hzero, Nat.zero_add] at hwhole hpart
  unfold total
  rw [hfold]
  exact ⟨hwhole, hpart⟩

theorem ext_toNat {v w : WeightArray} (hwhole : v.whole.toNat = w.whole.toNat)
    (hpart : v.part.toNat = w.part.toNat) : v = w := by
  have hw : v.whole = w.whole := Weight.eq_of_toNat hwhole
  have hp : v.part = w.part := Weight.eq_of_toNat hpart
  obtain ⟨a, b⟩ := v
  obtain ⟨c, d⟩ := w
  cases hw
  cases hp
  rfl

/-- The order of the weights makes no difference to their sum. -/
theorem total_perm {ws vs : List WeightArray} (h : ws.Perm vs) : total ws = total vs := by
  have hwhole : Weight.counter.sum (wholes ws) = Weight.counter.sum (wholes vs) := Library.Counter.sum_perm (h.map _)
  have hpart : Weight.counter.sum (parts ws) = Weight.counter.sum (parts vs) := Library.Counter.sum_perm (h.map _)
  refine ext_toNat ?_ ?_
  · rw [(total_toNat ws).1, (total_toNat vs).1, hwhole]
  · rw [(total_toNat ws).2, (total_toNat vs).2, hpart]

/-- A sum is what its first weight adds to the others. -/
theorem total_cons (w : WeightArray) (ws : List WeightArray) : total (w :: ws) = (total ws).add w := by
  have hwhole : (total (w :: ws)).whole.toNat =
      min (w.whole.toNat + Weight.counter.sum (wholes ws)) Weight.max.toNat := by
    rw [(total_toNat (w :: ws)).1]
    exact congrArg (min · _) (Library.Counter.sum_cons _ _)
  have hpart : (total (w :: ws)).part.toNat =
      min (w.part.toNat + Weight.counter.sum (parts ws)) Weight.max.toNat := by
    rw [(total_toNat (w :: ws)).2]
    exact congrArg (min · _) (Library.Counter.sum_cons _ _)
  have hrest := total_toNat ws
  refine ext_toNat ?_ ?_
  · simp only [add, Weight.toNat_add]
    omega
  · simp only [add, Weight.toNat_add]
    omega

theorem add_comm (v w : WeightArray) : v.add w = w.add v := by
  unfold add
  rw [Weight.add_comm v.whole, Weight.add_comm v.part]

theorem add_assoc (u v w : WeightArray) : u.add (v.add w) = (u.add v).add w := by
  unfold add
  rw [Weight.add_assoc u.whole, Weight.add_assoc u.part]

theorem add_zero (w : WeightArray) : w.add {} = w := by
  unfold add
  rw [Weight.add_zero, Weight.add_zero]

theorem zero_sub (w : WeightArray) : sub {} w = {} := by
  unfold sub
  rw [Weight.zero_sub, Weight.zero_sub]

theorem add_eq_zero {v w : WeightArray} (h : v.add w = {}) : v = {} ∧ w = {} := by
  obtain ⟨a, b⟩ := v
  obtain ⟨c, d⟩ := w
  have h : (⟨a.add c, b.add d⟩ : WeightArray) = ⟨⟨0⟩, ⟨0⟩⟩ := h
  obtain ⟨hwhole, hpart⟩ := WeightArray.mk.inj h
  obtain ⟨rfl, rfl⟩ := Weight.add_eq_zero hwhole
  obtain ⟨rfl, rfl⟩ := Weight.add_eq_zero hpart
  exact ⟨rfl, rfl⟩

theorem le_iff {v w : WeightArray} :
    v ≤ w ↔ v.whole.toNat ≤ w.whole.toNat ∧ v.part.toNat ≤ w.part.toNat :=
  Iff.rfl

theorem add_le_add {u v : WeightArray} (h : u ≤ v) (w : WeightArray) : u.add w ≤ v.add w := by
  rw [le_iff] at h ⊢
  simp only [add]
  exact ⟨Weight.toNat_add_le_add h.1 w.whole, Weight.toNat_add_le_add h.2 w.part⟩

theorem le_add (v w : WeightArray) : v ≤ v.add w := by
  rw [le_iff]
  simp only [add]
  exact ⟨v.whole.toNat_le_add w.whole, v.part.toNat_le_add w.part⟩

theorem sub_le (v w : WeightArray) : v.sub w ≤ v := by
  rw [le_iff]
  simp only [sub]
  exact ⟨v.whole.toNat_sub_le w.whole, v.part.toNat_sub_le w.part⟩

theorem add_mono_right {u v : WeightArray} (w : WeightArray) (h : u ≤ v) : w.add u ≤ w.add v := by
  rw [add_comm w u, add_comm w v]
  exact add_le_add h w

/-- Two of the weights are not nothing. -/
def Shared (ws : List WeightArray) : Prop := 2 ≤ ws.countP fun w => w ≠ {}

theorem shared_perm {ws vs : List WeightArray} (h : ws.Perm vs) : Shared ws ↔ Shared vs := by
  unfold Shared
  rw [h.countP_eq]

theorem not_shared_of_length {ws : List WeightArray} (h : ws.length ≤ 1) : ¬ Shared ws := by
  unfold Shared
  have hle := List.countP_le_length (p := fun w : WeightArray => decide (w ≠ {})) (l := ws)
  omega

/-- If a sum is nothing, all the weights are. -/
theorem countP_eq_zero {ws : List WeightArray} (h : total ws = {}) : (ws.countP fun w => w ≠ {}) = 0 := by
  induction ws with
  | nil => rfl
  | cons w ws ih =>
    rw [total_cons] at h
    obtain ⟨hrest, rfl⟩ := add_eq_zero h
    simpa using ih hrest

/-- If the others are nothing, it makes no difference what one weight is. -/
theorem not_shared_cons {w : WeightArray} {ws : List WeightArray} (h : total ws = {}) : ¬ Shared (w :: ws) := by
  unfold Shared
  rw [List.countP_cons, countP_eq_zero h]
  split <;> omega

theorem shared_zero {ws : List WeightArray} : Shared ({} :: ws) ↔ Shared ws := by
  simp [Shared]

theorem Shared.cons {ws : List WeightArray} (h : Shared ws) (w : WeightArray) : Shared (w :: ws) := by
  unfold Shared at *
  rw [List.countP_cons]
  omega

/-- What is taken from a weight does not make it one that counts. -/
theorem Shared.of_sub {v w : WeightArray} {ws : List WeightArray} (h : Shared (v.sub w :: ws)) :
    Shared (v :: ws) := by
  by_cases hzero : v = {}
  · have hsub : v.sub w = {} := by rw [hzero, zero_sub]
    rwa [hsub, ← hzero] at h
  · unfold Shared at *
    rw [List.countP_cons] at h ⊢
    rw [if_pos (by simpa using hzero)]
    split at h <;> omega

end WeightArray

end Subordination.Core
